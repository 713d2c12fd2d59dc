import BehaviorTree.Proofs.Lexical.Texts

/-!
# Reports by tokens

What is reported on a token is found in its text alone. All that is reported on a file is reported
on its tokens, in their order, but for a comment that is open at its end.
-/

namespace BehaviorTree

theorem flatMap_eq_map_filter {α β : Type} {list : List α} {f : α → List β} {p : α → Bool}
    {g : α → β} (hone : ∀ x ∈ list, f x = if p x then [g x] else []) :
    list.flatMap f = (list.filter p).map g := by
  induction list with
  | nil => rfl
  | cons x list ih =>
      obtain ⟨hx, hlist⟩ := List.forall_mem_cons.mp hone
      rw [List.flatMap_cons, hx, ih hlist, List.filter_cons]
      split <;> rfl

/-! ### Ranges -/

theorem Diagnostic.primaryRange_withLabel (diagnostic : Diagnostic) (message : String) :
    (diagnostic.withLabel message).primaryRange = diagnostic.primaryRange := by
  have hlabels : ∀ labels : List Label,
      ((setPrimaryMessage message labels).find? Label.isPrimary).map Label.range =
        (labels.find? Label.isPrimary).map Label.range := by
    intro labels
    induction labels with
    | nil => rfl
    | cons label labels ih =>
        unfold setPrimaryMessage
        cases hprimary : label.isPrimary with
        | true =>
            have hsame : Label.isPrimary { label with message } = true := hprimary
            simp [hprimary, hsame]
        | false => simpa [hprimary] using ih
  exact congrArg (Option.getD · SourceRange.none) (hlabels diagnostic.labels)

/-- A report on a place of a registered file shows this place. -/
theorem LexicalFault.primaryRange_report (fault : LexicalFault) {range : SourceRange}
    (hlocated : range.isLocated = true) : (fault.report range).primaryRange = range := by
  have hnew :
      ((Diagnostic.error range fault.message).withCode fault.code).primaryRange = range := by
    simp [Diagnostic.primaryRange, Diagnostic.primaryLabel?, Diagnostic.withCode, Diagnostic.error,
      Diagnostic.new, hlocated, Label.isPrimary]
  have hlabel := fun message => (Diagnostic.primaryRange_withLabel _ message).trans hnew
  unfold report
  dsimp only
  split
  · exact hlabel _
  · exact hlabel _
  · split <;> exact hnew
  · exact hnew

/-! ### Faults in a token -/

/-- The faults in the text of a token. -/
def Token.faults (token : Token) : List LocatedFault :=
  match token.text.toList with
  | [] => []
  | c :: rest => (Lexeme.scan c rest).1.faults

def Token.reports (token : Token) : List Diagnostic :=
  TokenStream.reports token.faults token.range.file token.range.start

theorem Token.faults_of_empty {token : Token} (hempty : token.text = "") : token.faults = [] := by
  simp [faults, hempty]

/-- A token has the faults that it was found with. -/
theorem Lexeme.faults_token (c : Char) (rest : List Char) (file : FileId) (offset : Nat)
    (newlineBefore : Bool) :
    ((scan c rest).1.token file offset newlineBefore).faults = (scan c rest).1.faults := by
  obtain ⟨tail, htext, hread⟩ := scan_alone c rest
  simp only [Token.faults, Lexeme.token, String.toList_ofList, htext, hread]

/-! ### Literals -/

def TokenKind.isLiteral : TokenKind → Bool
  | int _ | float _ | string _ => true
  | _ => false

namespace Lexeme

/-- The lexeme is no literal, and only characters that start no token are wrong in it. -/
structure Bare (lexeme : Lexeme) : Prop where
  kind : lexeme.kind.isLiteral = false
  code : ∀ located ∈ lexeme.faults, located.fault.code = Code.unexpectedCharacter

theorem bare_plain {kind : TokenKind} (text : List Char) (hkind : kind.isLiteral = false) :
    (plain kind text).Bare :=
  ⟨hkind, fun _ h => by cases h⟩

theorem bare_scanName (chars : List Char) : (scanName chars).1.Bare := by
  refine bare_plain _ ?_
  unfold kindOfName
  split <;> rfl

theorem bare_scanDoc? {rest : List Char} {scanned : Lexeme × List Char}
    (hdoc : scanDoc? rest = some scanned) : scanned.1.Bare := by
  unfold scanDoc? at hdoc
  split at hdoc
  · obtain ⟨⟨mark, body⟩, -, rfl⟩ := Option.map_eq_some_iff.mp hdoc
    cases mark <;> exact bare_plain _ rfl
  · cases hdoc

theorem bare_scanSymbol (c : Char) (rest : List Char) : (scanSymbol c rest).1.Bare := by
  unfold scanSymbol
  split
  · rename_i scanned hsymbol
    rcases symbol?_spelling hsymbol with ⟨op, hop⟩ | ⟨mark, hmark⟩
    · exact hop ▸ bare_plain _ rfl
    · exact hmark ▸ bare_plain _ rfl
  · exact ⟨rfl, List.forall_mem_singleton.mpr rfl⟩

/-- The lexeme is a number, and only its value can be wrong. -/
structure Numeric (lexeme : Lexeme) : Prop where
  kind : (∃ value, lexeme.kind = .int value) ∨ ∃ value, lexeme.kind = .float value
  code : ∀ located ∈ lexeme.faults, located.fault.code = Code.invalidNumber

theorem numeric_scanNumber (chars : List Char) : (NumberLiteral.scan chars).1.Numeric := by
  apply NumberLiteral.scan_cases
  case int => exact fun value text => ⟨.inl ⟨value, rfl⟩, fun _ h => by cases h⟩
  case float => exact fun value text => ⟨.inr ⟨value, rfl⟩, fun _ h => by cases h⟩
  case fault => exact fun cause text => ⟨.inl ⟨0, rfl⟩, List.forall_mem_singleton.mpr rfl⟩

/-- The lexeme is a string, and only its end and its escapes can be wrong. -/
structure Quoted (lexeme : Lexeme) : Prop where
  kind : ∃ value, lexeme.kind = .string value
  code : ∀ located ∈ lexeme.faults,
    located.fault.code = Code.unterminatedString ∨ located.fault.code = Code.invalidEscape

theorem quoted_scanString (chars : List Char) : (StringLiteral.scan chars).1.Quoted := by
  refine ⟨⟨_, rfl⟩, fun located hmem => ?_⟩
  rcases fault_of_mem_scanString located hmem with hfault | ⟨fault, hfault⟩
  · exact .inl (hfault ▸ rfl)
  · exact .inr (hfault ▸ rfl)

theorem Bare.kind_ne_string {lexeme : Lexeme} (h : lexeme.Bare) (value : String) :
    lexeme.kind ≠ .string value := by
  intro hkind
  have hliteral := h.kind
  rw [hkind] at hliteral
  cases hliteral

theorem Numeric.kind_ne_string {lexeme : Lexeme} (h : lexeme.Numeric) (value : String) :
    lexeme.kind ≠ .string value := by
  rcases h.kind with ⟨_, hkind⟩ | ⟨_, hkind⟩ <;> simp [hkind]

/-- The first character decides whether a lexeme is a literal. -/
theorem scan_literal (c : Char) (rest : List Char) :
    (c = '"' ∧ scan c rest = StringLiteral.scan rest ∧ (scan c rest).1.Quoted) ∨
      (c.isDigit = true ∧ scan c rest = NumberLiteral.scan (c :: rest) ∧
        (scan c rest).1.Numeric) ∨ (scan c rest).1.Bare := by
  unfold scan
  split
  · rename_i hquote
    exact .inl ⟨hquote, rfl, quoted_scanString rest⟩
  · split
    · rename_i hdigit
      exact .inr (.inl ⟨hdigit, rfl, numeric_scanNumber _⟩)
    · refine .inr (.inr ?_)
      split
      · exact bare_scanName _
      · split
        · cases hdoc : scanDoc? rest with
          | some scanned => exact bare_scanDoc? hdoc
          | none => exact bare_scanSymbol c rest
        · exact bare_scanSymbol c rest

end Lexeme

/-! ### Places in a text -/

/-- The token is what a text, from an offset of its file on, has at some place. -/
inductive Token.FoundIn (file : FileId) (offset : Nat) : List Char → Token → Prop
  | intro (before : List Char) {c : Char} (rest : List Char) (newlineBefore : Bool) :
    FoundIn file offset (before ++ c :: rest)
      ((Lexeme.scan c rest).1.token file (offset + byteLength before) newlineBefore)

theorem Token.FoundIn.behind {file : FileId} {offset : Nat} {chars : List Char} {token : Token}
    {front : List Char} (h : token.FoundIn file (offset + byteLength front) chars) :
    token.FoundIn file offset (front ++ chars) := by
  obtain ⟨before, rest, newlineBefore⟩ := h
  rw [Nat.add_assoc, ← byteLength_append, ← List.append_assoc]
  exact .intro _ _ _

namespace TokenStream

theorem foundIn_scanFrom (file : FileId) (offset : Nat) (chars : List Char) :
    ∀ token ∈ (scanFrom file offset chars).tokens,
      token.kind = .endOfFile ∧ token.text = "" ∨ token.FoundIn file offset chars := by
  fun_induction scanFrom file offset chars with
  | case1 => exact List.forall_mem_singleton.mpr (.inl ⟨rfl, rfl⟩)
  | case2 offset chars gap start gapReports c rest hrest scanned stop later ih =>
      have hchars : chars = gap.text ++ c :: rest := by
        rw [← hrest, Gap.scan_append]
      have hbehind : chars = (gap.text ++ scanned.1.text) ++ scanned.2 := by
        rw [hchars, ← Lexeme.scan_append c rest, List.append_assoc]
      refine List.forall_mem_cons.mpr ⟨.inr ?_, fun token hmem => ?_⟩
      · rw [hchars]
        exact .intro _ _ _
      · refine (ih token hmem).imp_right fun hfound => ?_
        rw [hbehind]
        refine .behind ?_
        rwa [byteLength_append, ← Nat.add_assoc]

/-! ### Streams -/

theorem reports_gap (gap : Gap) (file : FileId) (base : Nat) :
    ∃ ranges : List SourceRange,
      reports gap.faults file base = ranges.map LexicalFault.unterminatedComment.report := by
  unfold Gap.faults
  split
  · exact ⟨[_], rfl⟩
  · exact ⟨[], rfl⟩

/-- The reports on a text are those on its tokens, in their order, and behind them at most those on
comments that are open at the end. -/
theorem diagnostics_scanFrom (file : FileId) (offset : Nat) (chars : List Char) :
    ∃ ranges : List SourceRange, (scanFrom file offset chars).diagnostics =
      (scanFrom file offset chars).tokens.flatMap Token.reports ++
        ranges.map LexicalFault.unterminatedComment.report := by
  fun_induction scanFrom file offset chars with
  | case1 offset chars gap start gapReports hrest =>
      obtain ⟨ranges, hranges⟩ := reports_gap gap file offset
      exact ⟨ranges, hranges⟩
  | case2 offset chars gap start gapReports c rest hrest scanned stop later ih =>
      obtain ⟨ranges, hranges⟩ := ih
      have hgap : gapReports = [] := by
        -- a comment that is open has no lexeme behind it
        have hmode : gap.mode = .between := by
          apply Decidable.byContradiction
          intro hmode
          have hend : gap.rest = [] := (Gap.remainder_scanFrom 0 .between chars).2 hmode
          rw [hend] at hrest
          cases hrest
        simp only [gapReports, Gap.faults, hmode]
        rfl
      have hlexeme : reports scanned.1.faults file start =
          (scanned.1.token file start gap.hasNewline).reports :=
        congrArg (reports · file start) (Lexeme.faults_token c rest file start gap.hasNewline).symm
      refine ⟨ranges, ?_⟩
      rw [hgap, hlexeme, hranges, List.flatMap_cons, List.nil_append, List.append_assoc]

theorem filter_code_reports (code : String) (faults : List LocatedFault) (file : FileId)
    (base : Nat) :
    ((reports faults file base).filter fun diagnostic => diagnostic.code = some code) =
      reports (faults.filter fun located => located.fault.code = code) file base := by
  have hreport : ∀ located : LocatedFault,
      (located.report file base).code = some located.fault.code :=
    fun located => located.fault.code_report _
  unfold reports
  rw [List.filter_map]
  simp only [Function.comp_def, hreport, Option.some.injEq]

theorem reports_without {code : String} {faults : List LocatedFault}
    (hnone : ∀ located ∈ faults, located.fault.code ≠ code) (file : FileId) (base : Nat) :
    reports (faults.filter fun located => located.fault.code = code) file base = [] := by
  rw [List.filter_eq_nil_iff.mpr (by simpa using hnone)]
  rfl

/-- The reports with a code, unless it is that of open comments. -/
theorem filter_code_scanFrom {code : String} (hcode : code ≠ Code.unterminatedComment)
    (file : FileId) (offset : Nat) (chars : List Char) :
    ((scanFrom file offset chars).diagnostics.filter fun diagnostic =>
      diagnostic.code = some code) =
        (scanFrom file offset chars).tokens.flatMap fun token =>
          reports (token.faults.filter fun located => located.fault.code = code) token.range.file
            token.range.start := by
  obtain ⟨ranges, hranges⟩ := diagnostics_scanFrom file offset chars
  have hnone : ((ranges.map LexicalFault.unterminatedComment.report).filter fun diagnostic =>
      diagnostic.code = some code) = [] := by
    rw [List.filter_eq_nil_iff]
    intro diagnostic hmem
    obtain ⟨range, -, rfl⟩ := List.mem_map.mp hmem
    rw [LexicalFault.code_report]
    simpa [LexicalFault.code] using hcode.symm
  rw [hranges, List.filter_append, hnone, List.append_nil, List.filter_flatMap]
  simp only [Token.reports, filter_code_reports]

end TokenStream

end BehaviorTree
