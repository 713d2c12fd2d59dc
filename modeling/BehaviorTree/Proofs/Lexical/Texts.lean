import BehaviorTree.Proofs.Lexical.Alone

/-!
# Tokens by their texts

A token is determined by its own text: wherever it was found, its text alone is read as one token of
the same kind, and so are the texts of all tokens of a stream, each in a line of its own. The text
of a name or a symbol is fixed by its kind. Unknown tokens are runs of characters that start no
token, as long as they can be, and each of them is reported.
-/

namespace BehaviorTree

/-! ### What starts a token -/

/-- The characters of the text start no token. -/
def LexicalFault.isUnexpected : LexicalFault → Bool
  | unexpected _ => true
  | _ => false

namespace Lexeme

/-- Nothing in the lexeme is a character that starts no token. -/
structure Expected (lexeme : Lexeme) : Prop where
  known : lexeme.kind ≠ .unknown
  faults : ∀ located ∈ lexeme.faults, located.fault.isUnexpected = false

theorem expected_plain {kind : TokenKind} (text : List Char) (hkind : kind ≠ .unknown) :
    (plain kind text).Expected :=
  ⟨hkind, fun _ h => by cases h⟩

theorem expected_scanNumber (chars : List Char) : (NumberLiteral.scan chars).1.Expected := by
  apply NumberLiteral.scan_cases
  case int => exact fun value text => expected_plain text (by simp)
  case float => exact fun value text => expected_plain text (by simp)
  case fault => exact fun cause text => ⟨by simp [faulty], List.forall_mem_singleton.mpr rfl⟩

theorem expected_scanString (chars : List Char) : (StringLiteral.scan chars).1.Expected := by
  refine ⟨by simp [StringLiteral.scan], fun located hmem => ?_⟩
  rcases fault_of_mem_scanString located hmem with hfault | ⟨fault, hfault⟩
  · simp [hfault, LexicalFault.isUnexpected]
  · simp [hfault, LexicalFault.isUnexpected]

theorem expected_scanName (chars : List Char) : (scanName chars).1.Expected := by
  refine expected_plain _ ?_
  unfold kindOfName
  split <;> simp

theorem expected_scanDoc? {rest : List Char} {scanned : Lexeme × List Char}
    (hdoc : scanDoc? rest = some scanned) : scanned.1.Expected := by
  unfold scanDoc? at hdoc
  split at hdoc
  · obtain ⟨⟨mark, body⟩, -, rfl⟩ := Option.map_eq_some_iff.mp hdoc
    cases mark <;> exact expected_plain _ (by simp [docKind])
  · cases hdoc

/-- A symbol is an operator or a mark, with the spelling of it. -/
theorem symbol?_spelling {c : Char} {rest : List Char} {scanned : Lexeme × List Char}
    (hsymbol : symbol? c rest = some scanned) :
    (∃ op : Operator, scanned.1 = plain (.operator op) op.spelling.toList) ∨
      ∃ mark : Punctuation, scanned.1 = plain (.punctuation mark) mark.spelling.toList := by
  unfold symbol? at hsymbol
  dsimp only at hsymbol
  split at hsymbol
  · rename_i op hop
    cases hsymbol
    exact .inl ⟨op, by rw [Operator.spelling_eq_of_ofSpelling? hop, String.toList_ofList]⟩
  · split at hsymbol
    · rename_i op hop
      cases hsymbol
      exact .inl ⟨op, by rw [Operator.spelling_eq_of_ofSpelling? hop, String.toList_ofList]⟩
    · obtain ⟨mark, hmark, rfl⟩ := Option.map_eq_some_iff.mp hsymbol
      exact .inr ⟨mark, by rw [Punctuation.spelling_eq_of_ofSpelling? hmark, String.toList_ofList]⟩

/-- The first characters of symbols are those that the run of unknown ones ends in front of. -/
theorem symbol?_isSome_iff (c : Char) (rest : List Char) :
    (symbol? c rest).isSome = true ↔ symbolStarts.contains c = true := by
  constructor
  · intro hsome
    obtain ⟨scanned, hsymbol⟩ := Option.isSome_iff_exists.mp hsome
    obtain ⟨tail, htext, -⟩ := symbol?_alone hsymbol
    rcases symbol?_spelling hsymbol with ⟨op, hop⟩ | ⟨mark, hmark⟩
    · have hspelling : op.spelling.toList = c :: tail := by rw [← htext, hop]; rfl
      have hfirst : ∀ op : Operator, op.spelling.toList.head?.any symbolStarts.contains = true := by
        intro op
        cases op <;> decide
      simpa [hspelling] using hfirst op
    · have hspelling : mark.spelling.toList = c :: tail := by rw [← htext, hmark]; rfl
      have hfirst : ∀ mark : Punctuation,
          mark.spelling.toList.head?.any symbolStarts.contains = true := by
        intro mark
        cases mark <;> decide
      simpa [hspelling] using hfirst mark
  · intro hstart
    have hone : (symbolStarts.all fun c => (symbol? c []).isSome) = true := by decide +kernel
    have hnil : (symbol? c []).isSome = true :=
      List.all_eq_true.mp hone c (by simpa using hstart)
    cases rest with
    | nil => exact hnil
    | cons d rest =>
        rw [symbol?_cons]
        split
        · rfl
        · rwa [Option.isSome_map]

/-- The run of characters that start no token. -/
def unknownRun (c : Char) (rest : List Char) : Lexeme :=
  let text := c :: rest.takeWhile fun c => !endsUnknown c
  faulty .unknown text (.unexpected text)

theorem scanSymbol_starts (c : Char) (rest : List Char) :
    if symbolStarts.contains c then (scanSymbol c rest).1.Expected
    else (scanSymbol c rest).1 = unknownRun c rest := by
  split
  case isTrue hstart =>
    obtain ⟨scanned, hscanned⟩ :=
      Option.isSome_iff_exists.mp ((symbol?_isSome_iff c rest).mpr hstart)
    have hread : scanSymbol c rest = scanned := by simp only [scanSymbol, hscanned]
    rw [hread]
    rcases symbol?_spelling hscanned with ⟨op, hop⟩ | ⟨mark, hmark⟩
    · exact hop ▸ expected_plain _ (by simp)
    · exact hmark ▸ expected_plain _ (by simp)
  case isFalse hstart =>
    have hnone : symbol? c rest = none :=
      Option.not_isSome_iff_eq_none.mp (mt (symbol?_isSome_iff c rest).mp hstart)
    simp only [scanSymbol, hnone]
    rfl

/-- **What starts a token.** The dispatch on the first character agrees with the test that ends a
run of unknown characters: outside gaps, a lexeme is unknown if and only if it starts with a
character that the run goes on over. -/
theorem scan_starts {c : Char} (rest : List Char) (hblank : isBlank c = false) :
    if endsUnknown c then (scan c rest).1.Expected
    else (scan c rest).1 = unknownRun c rest := by
  have hsymbol := scanSymbol_starts c rest
  unfold scan
  by_cases hquote : c = '"'
  · have hends : endsUnknown c = true := by simp [endsUnknown, hquote]
    rw [if_pos hends, if_pos hquote]
    exact expected_scanString rest
  · by_cases hdigit : c.isDigit = true
    · have hends : endsUnknown c = true := by
        simp [endsUnknown, isNamePart, Char.isAlphanum, hdigit]
      rw [if_pos hends, if_neg hquote, if_pos hdigit]
      exact expected_scanNumber _
    · by_cases hname : isNameStart c = true
      · have hends : endsUnknown c = true := by
          simp [endsUnknown, isNamePart_of_isNameStart hname]
        rw [if_pos hends, if_neg hquote, if_neg hdigit, if_pos hname]
        exact expected_scanName _
      · have hpart : isNamePart c = false := by
          simp only [isNameStart, Bool.or_eq_true, not_or, Bool.not_eq_true] at hname hdigit
          simp [isNamePart, Char.isAlphanum, hname, hdigit]
        have hends : endsUnknown c = symbolStarts.contains c := by
          simp [endsUnknown, hblank, hpart, hquote]
        rw [hends, if_neg hquote, if_neg hdigit, if_neg hname]
        by_cases hslash : c = '/'
        · subst hslash
          rw [if_pos (by decide)] at hsymbol ⊢
          rw [if_pos rfl]
          cases hdoc : scanDoc? rest with
          | some scanned => exact expected_scanDoc? hdoc
          | none => exact hsymbol
        · rw [if_neg hslash]
          exact hsymbol

end Lexeme

/-! ### What the kind says about the text -/

def IsLetter (c : Char) : Prop := ('a' ≤ c ∧ c ≤ 'z') ∨ ('A' ≤ c ∧ c ≤ 'Z')

/-- A letter or an underscore, and behind it letters, digits and underscores. -/
inductive IsName : List Char → Prop
  | intro {c : Char} {rest : List Char} : IsLetter c ∨ c = '_' →
    (∀ d ∈ rest, IsLetter d ∨ ('0' ≤ d ∧ d ≤ '9') ∨ d = '_') → IsName (c :: rest)

/-- The texts that tokens of a kind have. The value of a literal or of documentation is read off its
text; the names and symbols are listed here. -/
def TokenKind.Spells : TokenKind → String → Prop
  | keyword word, text => word ≠ .infer ∧ text = word.spelling
  | infer, text => text = Keyword.infer.spelling
  | operator op, text => text = op.spelling
  | punctuation mark, text => text = mark.spelling
  | identifier, text => IsName text.toList ∧ ∀ word : Keyword, text ≠ word.spelling
  | _, _ => True

theorem isLetter_of_isAlpha {c : Char} (halpha : c.isAlpha = true) : IsLetter c := by
  have hcase : c.isUpper = true ∨ c.isLower = true := (Bool.or_eq_true _ _).mp halpha
  rcases hcase with hupper | hlower
  · exact .inr (of_decide_eq_true hupper : 'A'.val ≤ c.val ∧ c.val ≤ 'Z'.val)
  · have hbounds := Bool.and_eq_true_iff.mp hlower
    exact .inl ⟨of_decide_eq_true hbounds.1, of_decide_eq_true hbounds.2⟩

namespace Lexeme

/-- The kind of the lexeme and its text agree. -/
def Spells (lexeme : Lexeme) : Prop := lexeme.kind.Spells (String.ofList lexeme.text)

theorem isName_takeWhile {c : Char} (rest : List Char) (hstart : isNameStart c = true) :
    IsName ((c :: rest).takeWhile isNamePart) := by
  rw [List.takeWhile_cons_of_pos (isNamePart_of_isNameStart hstart)]
  refine .intro ?_ fun d hd => ?_
  · simp only [isNameStart, Bool.or_eq_true, beq_iff_eq] at hstart
    exact hstart.imp_left isLetter_of_isAlpha
  · have hpart : isNamePart d = true := mem_takeWhile rest hd
    simp only [isNamePart, Char.isAlphanum, Bool.or_eq_true, beq_iff_eq] at hpart
    rcases hpart with (halpha | hdigit) | hline
    · exact .inl (isLetter_of_isAlpha halpha)
    · simp only [Char.isDigit, Bool.and_eq_true, decide_eq_true_eq] at hdigit
      exact .inr (.inl hdigit)
    · exact .inr (.inr hline)

theorem spells_scanName {c : Char} (rest : List Char) (hstart : isNameStart c = true) :
    (scanName (c :: rest)).1.Spells := by
  have hname := isName_takeWhile rest hstart
  simp only [Spells, scanName, plain, kindOfName]
  split
  · rename_i hword
    exact (Keyword.spelling_eq_of_ofSpelling? hword).symm
  · rename_i word hinfer hword
    exact ⟨hinfer, (Keyword.spelling_eq_of_ofSpelling? hword).symm⟩
  · rename_i hnone
    refine ⟨by rwa [String.toList_ofList], fun word hspelling => ?_⟩
    rw [hspelling, Keyword.ofSpelling?_spelling] at hnone
    cases hnone

theorem spells_scanNumber (chars : List Char) : (NumberLiteral.scan chars).1.Spells := by
  apply NumberLiteral.scan_cases
  case int => exact fun _ _ => trivial
  case float => exact fun _ _ => trivial
  case fault => exact fun _ _ => trivial

theorem spells_scanSymbol (c : Char) (rest : List Char) : (scanSymbol c rest).1.Spells := by
  cases hsymbol : symbol? c rest with
  | some scanned =>
      have hread : scanSymbol c rest = scanned := by simp only [scanSymbol, hsymbol]
      rw [hread]
      rcases symbol?_spelling hsymbol with ⟨op, hop⟩ | ⟨mark, hmark⟩
      · rw [hop]
        exact String.ofList_toList
      · rw [hmark]
        exact String.ofList_toList
  | none =>
      simp only [scanSymbol, hsymbol]
      trivial

theorem spells_scanDoc? {rest : List Char} {scanned : Lexeme × List Char}
    (hdoc : scanDoc? rest = some scanned) : scanned.1.Spells := by
  unfold scanDoc? at hdoc
  split at hdoc
  · obtain ⟨⟨mark, body⟩, -, rfl⟩ := Option.map_eq_some_iff.mp hdoc
    cases mark <;> trivial
  · cases hdoc

theorem spells_scan (c : Char) (rest : List Char) : (scan c rest).1.Spells := by
  unfold scan
  split
  · trivial
  · split
    · exact spells_scanNumber _
    · split
      · rename_i hname
        exact spells_scanName rest hname
      · split
        · cases hdoc : scanDoc? rest with
          | some scanned => exact spells_scanDoc? hdoc
          | none => exact spells_scanSymbol c rest
        · exact spells_scanSymbol c rest

/-! ### A lexeme and the gap in front of it -/

/-- A slash in front of a lexeme opens no comment but documentation. -/
theorem slash_alone (rest : List Char) : Gap.scan (scan '/' rest).1.text =
    ⟨[], (scan '/' rest).1.text, .between⟩ := by
  have hscan : scan '/' rest = (scanDoc? rest).getD (scanSymbol '/' rest) := rfl
  rw [hscan]
  cases hdoc : scanDoc? rest with
  | some scanned =>
      unfold scanDoc? at hdoc
      split at hdoc
      · obtain ⟨⟨mark, body⟩, hmark, rfl⟩ := Option.map_eq_some_iff.mp hdoc
        exact Gap.scanFrom_doc 0 (by rw [docMark?_alone hmark]; rfl)
      · cases hdoc
  | none =>
      obtain ⟨tail, htext, -⟩ := scanSymbol_alone '/' rest
      obtain ⟨hslash, hstar⟩ := slash_tail htext
      rw [Option.getD_none, htext]
      refine Gap.scanFrom_stop 0 ?_ ?_ (by decide)
      · rintro more - rfl
        exact hstar rfl
      · rintro more - rfl
        exact hslash rfl

/-- No gap stands in front of the text of a lexeme. -/
theorem gap_alone {c : Char} (rest : List Char) (hblank : isBlank c = false) :
    Gap.scan (scan c rest).1.text = ⟨[], (scan c rest).1.text, .between⟩ := by
  by_cases hslash : c = '/'
  · subst hslash
    exact slash_alone rest
  · obtain ⟨tail, htext, -⟩ := scan_alone c rest
    rw [htext]
    refine Gap.scanFrom_stop 0 ?_ ?_ (by simp [hblank])
    · exact fun _ h => absurd h hslash
    · exact fun _ h => absurd h hslash

end Lexeme

/-! ### Reading texts again -/

/-- What a token is, wherever it stands. -/
def Token.content (token : Token) : TokenKind × String := (token.kind, token.text)

/-- The token is a lexeme that was found somewhere in a text. -/
inductive Token.Found : Token → Prop
  | intro {c : Char} (rest : List Char) (file : FileId) (offset : Nat) (newlineBefore : Bool) :
    isBlank c = false → Found ((Lexeme.scan c rest).1.token file offset newlineBefore)

namespace TokenStream

/-- The tokens of a stream without the one for the end of the file. -/
def words (stream : TokenStream) : List Token :=
  stream.tokens.filter fun token => !token.isEndOfFile

theorem words_onNewLine (tokens : List Token) (diagnostics : List Diagnostic) :
    (words ⟨tokens.modifyHead Token.onNewLine, diagnostics⟩).map Token.content =
      (words ⟨tokens, diagnostics⟩).map Token.content := by
  cases tokens with
  | nil => rfl
  | cons token rest =>
      have hend : token.onNewLine.isEndOfFile = token.isEndOfFile := rfl
      simp only [words, List.modifyHead_cons, List.filter_cons, hend]
      split <;> rfl

theorem words_scanFrom_nil (file : FileId) (offset : Nat) : (scanFrom file offset []).words = [] := by
  rw [scanFrom_of_rest_nil file offset (by rfl)]
  rfl

theorem words_scanFrom_cons (file : FileId) (offset : Nat) {chars rest : List Char} {c : Char}
    (hrest : (Gap.scan chars).rest = c :: rest) :
    let start := offset + byteLength (Gap.scan chars).text
    let scanned := Lexeme.scan c rest
    (scanFrom file offset chars).words =
      scanned.1.token file start (Gap.scan chars).hasNewline ::
        (scanFrom file (start + byteLength scanned.1.text) scanned.2).words := by
  have hend : (!(Lexeme.token (Lexeme.scan c rest).1 file (offset + byteLength (Gap.scan chars).text)
      (Gap.scan chars).hasNewline).isEndOfFile) = true := by
    simpa [Token.isEndOfFile, Lexeme.token] using (Lexeme.accounted_scan c rest).1
  rw [scanFrom_of_rest_cons file offset hrest]
  exact List.filter_cons_of_pos hend

theorem nonblank_of_rest (offset : Nat) (mode : Gap.Mode) (chars : List Char) {c : Char}
    {rest : List Char} (hrest : (Gap.scanFrom offset mode chars).rest = c :: rest) :
    isBlank c = false := by
  fun_induction Gap.scanFrom offset mode chars with
  | case1 => cases hrest
  | case7 =>
      cases hrest
      rfl
  | case10 offset first rest _ _ hblank =>
      cases hrest
      simpa using hblank
  | case2 offset start inner rest ih => exact ih hrest
  | case3 offset start inner rest ih => exact ih hrest
  | case4 offset start inner first rest _ _ ih => exact ih hrest
  | case5 offset first rest ih => exact ih hrest
  | case6 offset rest ih => exact ih hrest
  | case8 offset rest _ ih => exact ih hrest
  | case9 offset first rest _ _ _ ih => exact ih hrest

theorem found_words (file : FileId) (offset : Nat) (chars : List Char) :
    ∀ token ∈ (scanFrom file offset chars).words, token.Found := by
  fun_induction scanFrom file offset chars with
  | case1 => simp [words, endOfFile, Token.isEndOfFile]
  | case2 offset chars gap start gapReports c rest hrest scanned stop later ih =>
      intro token hmem
      obtain ⟨hmem, hend⟩ := List.mem_filter.mp hmem
      rcases List.mem_cons.mp hmem with rfl | hlater
      · exact .intro rest file start gap.hasNewline (nonblank_of_rest 0 .between chars hrest)
      · exact ih token (List.mem_filter.mpr ⟨hlater, hend⟩)

/-- A line feed at the front changes no token but the place of it. -/
theorem words_scanFrom_newline (file : FileId) (offset : Nat) (later : List Char) :
    (scanFrom file offset ('\n' :: later)).words.map Token.content =
      (scanFrom file (offset + byteLength ['\n']) later).words.map Token.content := by
  have hgap : Gap.scan ([] ++ '\n' :: later) =
      ((Gap.scan later).shift (byteLength ([] ++ ['\n']))).push ([] ++ ['\n']) :=
    Gap.scan_through later (by rfl) (by decide)
  simp only [List.nil_append] at hgap
  rw [scanFrom_of_gap file offset (List.mem_singleton.mpr rfl) hgap, words_onNewLine]

/-- The text of a lexeme is one token, if nothing or another line follows. -/
theorem words_lexeme {c : Char} (rest : List Char) (hblank : isBlank c = false) (file : FileId)
    (offset : Nat) {later : List Char} (hlater : later = [] ∨ ∃ more, later = '\n' :: more) :
    (scanFrom file offset ((Lexeme.scan c rest).1.text ++ later)).words.map Token.content =
      ((Lexeme.scan c rest).1.kind, String.ofList (Lexeme.scan c rest).1.text) ::
        (scanFrom file (offset + byteLength (Lexeme.scan c rest).1.text) later).words.map
          Token.content := by
  have halone := Lexeme.gap_alone rest hblank
  obtain ⟨tail, htext, hread⟩ := Lexeme.scan_alone c rest
  rw [htext] at halone
  have hgap : Gap.scan (c :: tail ++ later) = ⟨[], c :: tail ++ later, .between⟩ := by
    rcases hlater with rfl | ⟨more, rfl⟩
    · rwa [List.append_nil]
    · have hsome : (Gap.scan (c :: tail)).rest ≠ [] := by
        rw [halone]
        exact List.cons_ne_nil _ _
      have hbefore : Gap.scan (c :: tail ++ '\n' :: more) = (Gap.scan (c :: tail)).before more :=
        Gap.scanFrom_before 0 .between _ more hsome
      rw [hbefore, halone]
      rfl
  have hscan : Lexeme.scan c (tail ++ later) = ((Lexeme.scan c rest).1, later) := by
    rcases hlater with rfl | ⟨more, rfl⟩
    · rwa [List.append_nil]
    · rw [Lexeme.scan_line, hread]
      rfl
  have hrest : (Gap.scan (c :: tail ++ later)).rest = c :: (tail ++ later) := by
    rw [hgap]
    rfl
  rw [htext, words_scanFrom_cons file offset hrest, hscan, hgap, htext]
  simp only [List.map_cons, byteLength_nil, Nat.add_zero, Token.content, Lexeme.token, htext]

/-- The texts of tokens, each in a line of its own, are read as these tokens. -/
theorem words_joined (file : FileId) (offset : Nat) {tokens : List Token}
    (hfound : ∀ token ∈ tokens, token.Found) :
    (scanFrom file offset (['\n'].intercalate (tokens.map fun token => token.text.toList))).words.map
      Token.content = tokens.map Token.content := by
  induction tokens generalizing offset with
  | nil => exact congrArg _ (words_scanFrom_nil file offset)
  | cons token tokens ih =>
      obtain ⟨hfirst, hothers⟩ := List.forall_mem_cons.mp hfound
      obtain ⟨rest, home, place, newlineBefore, hblank⟩ := hfirst
      rename_i c
      cases tokens with
      | nil =>
          have hread := words_lexeme rest hblank file offset (.inl rfl)
          rw [List.append_nil, words_scanFrom_nil] at hread
          simpa [Lexeme.token, Token.content] using hread
      | cons next tokens =>
          have hread := words_lexeme rest hblank file offset (.inr
            ⟨['\n'].intercalate ((next :: tokens).map fun token => token.text.toList), rfl⟩)
          rw [words_scanFrom_newline, ih _ hothers] at hread
          rw [List.map_cons, List.map_cons, List.intercalate_cons_cons]
          simpa [Lexeme.token, Token.content] using hread

/-! ### Unknown characters -/

/-- The tokens that are no token of the language. -/
def unknown (stream : TokenStream) : List Token :=
  stream.tokens.filter fun token => token.kind = .unknown

/-- The reports on characters that start no token. -/
def unexpectedReports (stream : TokenStream) : List Diagnostic :=
  stream.diagnostics.filter fun diagnostic => diagnostic.code = some Code.unexpectedCharacter

/-- A text that starts with the character starts with an unknown token. -/
def StartsNoToken (c : Char) : Prop :=
  ∀ (file : FileId) (more : List Char), ∃ token later,
    (ofText file (String.ofList (c :: more))).tokens = token :: later ∧ token.kind = .unknown ∧
      token.range.start = 0

theorem filter_reports (faults : List LocatedFault) (file : FileId) (base : Nat) :
    ((reports faults file base).filter fun diagnostic =>
      diagnostic.code = some Code.unexpectedCharacter) =
        reports (faults.filter fun located => located.fault.isUnexpected) file base := by
  have hcode : ∀ fault : LexicalFault,
      decide (fault.code = Code.unexpectedCharacter) = fault.isUnexpected := by
    intro fault
    cases fault <;> rfl
  have hreport : ∀ located : LocatedFault,
      (located.report file base).code = some located.fault.code :=
    fun located => located.fault.code_report _
  unfold reports
  rw [List.filter_map]
  simp only [Function.comp_def, hreport, Option.some.injEq, hcode]

theorem filter_gap (gap : Gap) : (gap.faults.filter fun located => located.fault.isUnexpected) = [] := by
  unfold Gap.faults
  split <;> rfl

/-- A lexeme is unknown and a run of characters that start no token, or nothing in it is one. -/
theorem expected_or_unknown {c : Char} (rest : List Char) (hblank : isBlank c = false) :
    (Lexeme.endsUnknown c = true ∧ (Lexeme.scan c rest).1.Expected) ∨
      (Lexeme.endsUnknown c = false ∧ (Lexeme.scan c rest).1 = Lexeme.unknownRun c rest) := by
  have hstarts := Lexeme.scan_starts rest hblank
  cases hends : Lexeme.endsUnknown c with
  | true => exact .inl ⟨rfl, by simpa only [hends, if_true] using hstarts⟩
  | false => exact .inr ⟨rfl, by simpa [hends] using hstarts⟩

/-- The reports on the lexeme in front, and the unknown token that it is. -/
theorem unexpected_lexeme {c : Char} (rest : List Char) (hblank : isBlank c = false)
    (file : FileId) (start : Nat) (newlineBefore : Bool) :
    (reports (Lexeme.scan c rest).1.faults file start).filter (fun diagnostic =>
        diagnostic.code = some Code.unexpectedCharacter) =
      ([(Lexeme.scan c rest).1.token file start newlineBefore].filter fun token =>
        token.kind = .unknown).map fun token =>
          (LexicalFault.unexpected token.text.toList).report token.range := by
  rw [filter_reports]
  rcases expected_or_unknown rest hblank with ⟨-, hexpected⟩ | ⟨-, hunknown⟩
  · have hnone : ((Lexeme.scan c rest).1.faults.filter fun located => located.fault.isUnexpected) = [] :=
      List.filter_eq_nil_iff.mpr fun located hmem => by simpa using hexpected.faults located hmem
    rw [hnone, List.filter_cons_of_neg (by simp [Lexeme.token, hexpected.known])]
    rfl
  · rw [hunknown]
    simp only [Lexeme.token, Lexeme.unknownRun, Lexeme.faulty, reports, List.filter_cons,
      decide_true, if_true, List.filter_nil, List.map_cons, List.map_nil, String.toList_ofList]
    rfl

theorem unexpectedReports_scanFrom (file : FileId) (offset : Nat) (chars : List Char) :
    (scanFrom file offset chars).unexpectedReports =
      (scanFrom file offset chars).unknown.map fun token =>
        (LexicalFault.unexpected token.text.toList).report token.range := by
  fun_induction scanFrom file offset chars with
  | case1 offset chars gap start gapReports hrest =>
      simp only [unexpectedReports, gapReports, filter_reports, filter_gap]
      rfl
  | case2 offset chars gap start gapReports c rest hrest scanned stop later ih =>
      have hblank := nonblank_of_rest 0 .between chars hrest
      have hgap : (gapReports.filter fun diagnostic =>
          diagnostic.code = some Code.unexpectedCharacter) = [] := by
        rw [filter_reports, filter_gap]
        rfl
      have hlexeme := unexpected_lexeme rest hblank file start gap.hasNewline
      unfold unexpectedReports unknown at ih ⊢
      rw [List.filter_append, List.filter_append, hgap, hlexeme, ih, List.nil_append,
        ← List.map_append, ← List.filter_append]
      rfl

/-- What is behind an unknown token starts with a character that ends the run. -/
theorem behind_unknown {c : Char} {rest : List Char}
    (hunknown : (Lexeme.scan c rest).1 = Lexeme.unknownRun c rest) :
    (Lexeme.scan c rest).2.head?.all Lexeme.endsUnknown = true := by
  have happend := Lexeme.scan_append c rest
  have hbehind : (Lexeme.scan c rest).2 = rest.dropWhile fun c => !Lexeme.endsUnknown c := by
    rw [hunknown] at happend
    have hsplit := List.takeWhile_append_dropWhile (p := fun c => !Lexeme.endsUnknown c) (l := rest)
    exact List.append_cancel_left ((List.cons.inj happend).2.trans hsplit.symm)
  have hhead := List.head?_dropWhile_not (fun c => !Lexeme.endsUnknown c) rest
  rw [hbehind]
  cases hfirst : (rest.dropWhile fun c => !Lexeme.endsUnknown c).head? with
  | none => rfl
  | some d => simpa [hfirst] using hhead

/-- Behind a run of unknown characters the next unknown token does not come at once. -/
theorem lt_start_of_unknown (file : FileId) (offset : Nat) {chars : List Char}
    (hends : chars.head?.all Lexeme.endsUnknown = true) :
    ∀ token ∈ (scanFrom file offset chars).unknown, offset < token.range.start := by
  intro token hmem
  obtain ⟨hmem, hkind⟩ := List.mem_filter.mp hmem
  have hkind : token.kind = .unknown := by simpa using hkind
  cases hrest : (Gap.scan chars).rest with
  | nil =>
      rw [scanFrom_of_rest_nil file offset hrest, List.mem_singleton] at hmem
      rw [hmem] at hkind
      cases hkind
  | cons c rest =>
      have happend := Gap.scan_append chars
      have hlater := (placed_scanFrom file
        (offset + byteLength (Gap.scan chars).text + byteLength (Lexeme.scan c rest).1.text)
        (Lexeme.scan c rest).2).offset_le
      have hlength := byteLength_pos (Lexeme.scan_text_ne_nil c rest)
      rw [scanFrom_of_rest_cons file offset hrest, List.mem_cons] at hmem
      rcases hmem with rfl | hmem
      · -- the gap in front of the first token has a character, or the run ended in front of it
        have hgap : (Gap.scan chars).text ≠ [] := by
          intro hnone
          rw [hnone, hrest, List.nil_append] at happend
          have hfirst : Lexeme.endsUnknown c = true := by simpa [← happend] using hends
          have hblank := nonblank_of_rest 0 .between chars hrest
          rcases expected_or_unknown rest hblank with ⟨-, hexpected⟩ | ⟨hnot, -⟩
          · exact hexpected.known hkind
          · rw [hfirst] at hnot
            cases hnot
        exact Nat.lt_add_of_pos_right (byteLength_pos hgap)
      · have hstart := hlater token hmem
        omega

/-- No two unknown tokens touch. -/
theorem unknown_apart (file : FileId) (offset : Nat) (chars : List Char) :
    (scanFrom file offset chars).unknown.Pairwise fun left right =>
      left.range.stop < right.range.start := by
  fun_induction scanFrom file offset chars with
  | case1 => exact List.Pairwise.nil
  | case2 offset chars gap start gapReports c rest hrest scanned stop later ih =>
      have hblank := nonblank_of_rest 0 .between chars hrest
      unfold unknown at ih ⊢
      rw [List.filter_cons]
      split
      · rename_i hkind
        rcases expected_or_unknown rest hblank with ⟨-, hexpected⟩ | ⟨-, hunknown⟩
        · exact absurd (of_decide_eq_true hkind) hexpected.known
        · exact List.pairwise_cons.mpr
            ⟨lt_start_of_unknown file stop (behind_unknown hunknown), ih⟩
      · exact ih

theorem startsNoToken_of_endsUnknown {c : Char} (hends : Lexeme.endsUnknown c = false) :
    StartsNoToken c := by
  intro file more
  have hblank : isBlank c = false := by
    simp only [Lexeme.endsUnknown, Bool.or_eq_false_iff] at hends
    exact hends.1.1.1
  have hslash : c ≠ '/' := by
    rintro rfl
    exact absurd hends (by decide)
  have hgap : Gap.scan (c :: more) = ⟨[], c :: more, .between⟩ :=
    Gap.scanFrom_stop 0 (fun _ h => absurd h hslash) (fun _ h => absurd h hslash) (by simp [hblank])
  have hrest : (Gap.scan (c :: more)).rest = c :: more := by rw [hgap]
  have hkind : (Lexeme.scan c more).1.kind = .unknown := by
    rcases expected_or_unknown more hblank with ⟨hstarts, -⟩ | ⟨-, hunknown⟩
    · rw [hends] at hstarts
      cases hstarts
    · rw [hunknown]
      rfl
  unfold ofText
  rw [String.toList_ofList, scanFrom_of_rest_cons file 0 hrest, hgap]
  exact ⟨_, _, rfl, hkind, rfl⟩

/-- The characters of an unknown token start no token. -/
theorem startsNoToken_of_found {token : Token} (hfound : token.Found)
    (hkind : token.kind = .unknown) : ∀ c ∈ token.text.toList, StartsNoToken c := by
  obtain ⟨rest, file, offset, newlineBefore, hblank⟩ := hfound
  rename_i first
  rcases expected_or_unknown rest hblank with ⟨-, hexpected⟩ | ⟨hends, hunknown⟩
  · exact absurd hkind hexpected.known
  · have htext : (Lexeme.scan first rest).1.text =
        first :: rest.takeWhile fun c => !Lexeme.endsUnknown c := by
      rw [hunknown]
      rfl
    rw [Lexeme.token, String.toList_ofList, htext]
    refine List.forall_mem_cons.mpr ⟨startsNoToken_of_endsUnknown hends, fun c hmem => ?_⟩
    have hrun := mem_takeWhile rest hmem
    exact startsNoToken_of_endsUnknown (by simpa using hrun)

/-! ### The main result -/

/-- The tokens of the stream are determined by their texts, and its unknown tokens are the reported
runs of characters that start no token. -/
structure Determined (stream : TokenStream) : Prop where
  alone : ∀ file, ∀ token ∈ stream.words,
    (ofText file token.text).words.map Token.content = [token.content]
  joined : ∀ file, (ofText file ("\n".intercalate (stream.words.map Token.text))).words.map
    Token.content = stream.words.map Token.content
  spelled : ∀ token ∈ stream.words, token.kind.Spells token.text
  reported : stream.unexpectedReports = stream.unknown.map fun token =>
    (LexicalFault.unexpected token.text.toList).report token.range
  located : stream.unexpectedReports.map Diagnostic.primaryRange =
    stream.unknown.map fun token => if token.range.isLocated then token.range else .none
  startless : ∀ token ∈ stream.unknown, ∀ c ∈ token.text.toList, StartsNoToken c
  apart : stream.unknown.Pairwise fun left right => left.range.stop < right.range.start

theorem primaryRange_unexpected (text : List Char) (range : SourceRange) :
    ((LexicalFault.unexpected text).report range).primaryRange =
      if range.isLocated then range else .none := by
  simp only [LexicalFault.report, Diagnostic.error, Diagnostic.new, Diagnostic.withCode,
    Diagnostic.primaryRange, Diagnostic.primaryLabel?]
  split <;> rfl

/-- **A token is determined by its own text.** Read by itself, or in a line among those of the other
tokens of its stream, it is the same token again; its kind fixes the spelling of a name or a symbol;
and the unknown tokens are reported one by one, start no token and do not touch. -/
theorem ofText_determined (file : FileId) (text : String) : (ofText file text).Determined := by
  have hfound : ∀ token ∈ (ofText file text).words, token.Found := found_words file 0 text.toList
  have hreports := unexpectedReports_scanFrom file 0 text.toList
  refine ⟨?_, ?_, ?_, hreports, ?_, ?_, unknown_apart file 0 text.toList⟩
  · intro other token hmem
    have hread := words_joined other 0 (List.forall_mem_singleton.mpr (hfound token hmem))
    rwa [List.map_singleton, List.intercalate_singleton] at hread
  · intro other
    have hread := words_joined other 0 hfound
    have htext : ("\n".intercalate ((ofText file text).words.map Token.text)).toList =
        ['\n'].intercalate ((ofText file text).words.map fun token => token.text.toList) := by
      rw [String.toList_intercalate, List.map_map]
      rfl
    rwa [← htext] at hread
  · intro token hmem
    obtain ⟨rest, home, offset, newlineBefore, -⟩ := hfound token hmem
    exact Lexeme.spells_scan _ rest
  · unfold ofText
    rw [hreports, List.map_map]
    exact List.map_congr_left fun token _ => primaryRange_unexpected _ _
  · intro token hmem
    obtain ⟨hmem, hkind⟩ := List.mem_filter.mp hmem
    have hkind : token.kind = .unknown := of_decide_eq_true hkind
    have hword : token ∈ (ofText file text).words :=
      List.mem_filter.mpr ⟨hmem, by simp [Token.isEndOfFile, hkind]⟩
    exact startsNoToken_of_found (hfound token hword) hkind

end TokenStream

end BehaviorTree
