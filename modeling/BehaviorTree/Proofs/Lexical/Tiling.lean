import BehaviorTree.Proofs.Lexical.Gaps
import BehaviorTree.Proofs.Lexical.Stream

/-!
# The token stream tiles the source

Main statement: the tokens of a text are slices of it in their order, each in front of the next, and
what lies between them is a gap. Only the last gap may end inside a block comment, and this is what
the report on unterminated comments says.
-/

namespace BehaviorTree

/-! ### Slices -/

theorem takeBytes_of_append (left right : List Char) :
    takeBytes (byteLength left) (left ++ right) = left := by
  induction left with
  | nil =>
      cases right with
      | nil => rfl
      | cons c right =>
          have hpositive := c.utf8Size_pos
          rw [List.nil_append, byteLength_nil, takeBytes, if_neg (by omega)]
  | cons c left ih =>
      rw [List.cons_append, byteLength_cons, takeBytes, if_pos (by omega), Nat.add_sub_cancel_left,
        ih]

theorem dropBytes_of_append (left right : List Char) :
    dropBytes (byteLength left) (left ++ right) = right := by
  have hwhole := takeBytes_append_dropBytes (byteLength left) (left ++ right)
  rw [takeBytes_of_append] at hwhole
  exact List.append_cancel_left hwhole

/-- A part of a file, found by the bytes in front of it and of it. -/
theorem SourceFile.slice?_of_append {source : SourceFile} {before part after : List Char}
    (hchars : source.chars = before ++ (part ++ after)) :
    source.slice? (byteLength before) (byteLength before + byteLength part) =
      some (String.ofList part) := by
  have hstart : source.floor (byteLength before) = byteLength before := by
    unfold floor SourceFile.before
    rw [hchars, takeBytes_of_append]
  have hstop : source.floor (byteLength before + byteLength part) =
      byteLength before + byteLength part := by
    unfold floor SourceFile.before
    rw [hchars, ← byteLength_append, ← List.append_assoc, takeBytes_of_append]
  unfold slice?
  rw [hstart, hstop, hchars, dropBytes_of_append, Nat.add_sub_cancel_left, takeBytes_of_append]
  simp

theorem SourceFile.le_of_slice? {source : SourceFile} {start stop : Nat} {text : String}
    (hslice : source.slice? start stop = some text) : start ≤ stop := by
  unfold slice? at hslice
  split at hslice
  case isTrue h =>
    simp only [Bool.and_eq_true, decide_eq_true_eq] at h
    exact h.1.1
  case isFalse => cases hslice

/-! ### Tilings -/

/-- The slice of a file in front of a token, from an offset on, is a gap, and the token knows
whether there is a line feed in it. -/
structure GapBefore (source : SourceFile) (start : Nat) (token : Token) (ending : Gap.Ending) :
    Prop where
  isGap : ∃ gap, source.slice? start token.range.start = some gap ∧ Gap.Text ending gap.toList ∧
    (token.newlineBefore = true ↔ '\n' ∈ gap.toList)

/-- Tokens that, with gaps in front of them, make up a file from an offset on. The last one stands at
the end of the file, and the gap in front of it ends in a certain way. -/
inductive Tiles (source : SourceFile) (file : FileId) (ending : Gap.Ending) : Nat → List Token → Prop
  | last {start : Nat} {token : Token} : token.kind = .endOfFile → token.text = "" →
    token.range = .emptyAt file source.size → GapBefore source start token ending →
    Tiles source file ending start [token]
  | cons {start : Nat} {token : Token} {rest : List Token} : token.kind ≠ .endOfFile →
    token.range.file = file → token.range.start < token.range.stop →
    source.slice? token.range.start token.range.stop = some token.text →
    GapBefore source start token .closed → Tiles source file ending token.range.stop rest →
    Tiles source file ending start (token :: rest)

namespace Tiles

variable {source : SourceFile} {file : FileId} {ending other : Gap.Ending} {start : Nat}
  {tokens : List Token} {token : Token}

theorem GapBefore.le (hgap : GapBefore source start token ending) : start ≤ token.range.start := by
  obtain ⟨gap, hslice, -⟩ := hgap.isGap
  exact SourceFile.le_of_slice? hslice

theorem GapBefore.ending_unique (hgap : GapBefore source start token ending)
    (hother : GapBefore source start token other) : ending = other := by
  obtain ⟨gap, hslice, htext, -⟩ := hgap.isGap
  obtain ⟨gap', hslice', htext', -⟩ := hother.isGap
  rw [hslice] at hslice'
  cases hslice'
  exact (Gap.text_iff.mp htext).2.symm.trans (Gap.text_iff.mp htext').2

/-- A file ends in one way. -/
theorem ending_unique (htiles : Tiles source file ending start tokens)
    (hother : Tiles source file other start tokens) : ending = other := by
  induction htiles with
  | last hkind _ _ hgap =>
      cases hother with
      | last _ _ _ hgap' => exact GapBefore.ending_unique hgap hgap'
      | cons hkind' => exact absurd hkind hkind'
  | cons hkind _ _ _ _ _ ih =>
      cases hother with
      | last hkind' => exact absurd hkind' hkind
      | cons _ _ _ _ _ hrest => exact ih hrest

theorem offset_le (htiles : Tiles source file ending start tokens) :
    ∀ token ∈ tokens, start ≤ token.range.start := by
  induction htiles with
  | last _ _ _ hgap => simpa using GapBefore.le hgap
  | cons _ _ hlt _ hgap _ ih =>
      rintro token (_ | ⟨_, hmem⟩)
      · exact GapBefore.le hgap
      · have hfirst := GapBefore.le hgap
        have hlater := ih token hmem
        omega

theorem offset_le_size (htiles : Tiles source file ending start tokens) : start ≤ source.size := by
  induction htiles with
  | last _ _ hrange hgap =>
      have hstart := GapBefore.le hgap
      rw [hrange] at hstart
      exact hstart
  | cons _ _ hlt _ hgap _ ih =>
      have hstart := GapBefore.le hgap
      omega

/-- A token lies inside the source, and all but the end of the file have bytes of their own. -/
theorem bounds (htiles : Tiles source file ending start tokens) :
    ∀ token ∈ tokens, token.range.file = file ∧ token.range.stop ≤ source.size ∧
      (token.kind ≠ .endOfFile → token.range.start < token.range.stop) := by
  induction htiles with
  | @last start token hkind _ hrange _ =>
      intro other hmem
      obtain rfl := List.mem_singleton.mp hmem
      rw [hrange]
      exact ⟨rfl, Nat.le_refl _, fun hother => absurd hkind hother⟩
  | cons _ hfile hlt _ _ hrest ih =>
      rintro other (_ | ⟨_, hmem⟩)
      · exact ⟨hfile, hrest.offset_le_size, fun _ => hlt⟩
      · exact ih other hmem

/-- Tokens stand behind each other and do not overlap. -/
theorem pairwise (htiles : Tiles source file ending start tokens) :
    tokens.Pairwise fun left right =>
      left.range.start < right.range.start ∧ left.range.stop ≤ right.range.start := by
  induction htiles with
  | last => exact List.pairwise_singleton _ _
  | cons _ _ hlt _ _ hrest ih =>
      rw [List.pairwise_cons]
      refine ⟨fun later hlater => ?_, ih⟩
      have hstop := hrest.offset_le later hlater
      exact ⟨by omega, hstop⟩

/-- Only the last token is the end of the file. -/
theorem ended (htiles : Tiles source file ending start tokens) :
    ∃ before last, tokens = before ++ [last] ∧ last.kind = .endOfFile ∧
      last.range = .emptyAt file source.size ∧ ∀ token ∈ before, token.kind ≠ .endOfFile := by
  induction htiles with
  | @last start token hkind _ hrange _ => exact ⟨[], token, rfl, hkind, hrange, by simp⟩
  | @cons start token rest hkind _ _ _ _ _ ih =>
      obtain ⟨before, last, rfl, hlast, hrange, hbefore⟩ := ih
      refine ⟨token :: before, last, rfl, hlast, hrange, ?_⟩
      rintro other (_ | ⟨_, hmem⟩)
      · exact hkind
      · exact hbefore other hmem

end Tiles

/-! ### Faults in lexemes -/

namespace Lexeme

/-- No fault of the lexeme is that of an unterminated comment. -/
def NoComment (lexeme : Lexeme) : Prop :=
  ∀ located ∈ lexeme.faults, located.fault ≠ .unterminatedComment

theorem noComment_plain (kind : TokenKind) (text : List Char) : (plain kind text).NoComment := by
  simp [NoComment, plain]

theorem noComment_scanNumber (chars : List Char) : (NumberLiteral.scan chars).1.NoComment := by
  apply NumberLiteral.scan_cases
  case int => exact fun value text => noComment_plain _ text
  case float => exact fun value text => noComment_plain _ text
  case fault => simp [NoComment, faulty]

theorem escape_of_mem_faults {offset : Nat} {items : List EscapeItem} :
    ∀ located ∈ EscapeItem.faults offset items, ∃ fault, located.fault = .escape fault := by
  induction items generalizing offset with
  | nil => simp [EscapeItem.faults]
  | cons item rest ih =>
      intro located hmem
      unfold EscapeItem.faults at hmem
      dsimp only at hmem
      split at hmem
      · rcases List.mem_cons.mp hmem with rfl | hrest
        · exact ⟨_, rfl⟩
        · exact ih located hrest
      · exact ih located hmem

/-- A string literal can lack its closing quote, and its escapes can be wrong. -/
theorem fault_of_mem_scanString {chars : List Char} :
    ∀ located ∈ (StringLiteral.scan chars).1.faults,
      located.fault = .unterminatedString ∨ ∃ fault, located.fault = .escape fault := by
  intro located hmem
  rcases List.mem_append.mp hmem with hcut | hescape
  · split at hcut
    · cases hcut
    · rw [List.mem_singleton.mp hcut]
      exact .inl rfl
  · obtain ⟨inner, hinner, rfl⟩ := List.mem_map.mp hescape
    exact .inr (escape_of_mem_faults inner hinner)

theorem noComment_scanString (chars : List Char) : (StringLiteral.scan chars).1.NoComment := by
  intro located hmem
  rcases fault_of_mem_scanString located hmem with hfault | ⟨fault, hfault⟩
  · simp [hfault]
  · simp [hfault]

theorem noComment_scan (c : Char) (rest : List Char) : (scan c rest).1.NoComment := by
  apply scan_cases
  case string => exact noComment_scanString _
  case number => exact noComment_scanNumber _
  case name => exact noComment_plain _ _
  case doc => exact fun mark body text => noComment_plain _ text
  case operator => exact fun op text => noComment_plain _ text
  case mark => exact fun mark text => noComment_plain _ text
  case unknown => simp [NoComment, faulty]

end Lexeme

/-! ### Reports on comments -/

namespace TokenStream

/-- The number of reports on unterminated comments. -/
def commentReports (diagnostics : List Diagnostic) : Nat :=
  diagnostics.countP fun diagnostic => diagnostic.code = some Code.unterminatedComment

theorem commentReports_append (diagnostics later : List Diagnostic) :
    commentReports (diagnostics ++ later) = commentReports diagnostics + commentReports later :=
  List.countP_append

theorem commentReports_reports (faults : List LocatedFault) (file : FileId) (base : Nat) :
    commentReports (reports faults file base) =
      faults.countP fun located => located.fault = .unterminatedComment := by
  have hcode : ∀ fault : LexicalFault,
      fault.code = Code.unterminatedComment ↔ fault = .unterminatedComment := by
    intro fault
    cases fault <;> simp [LexicalFault.code, Code.unterminatedComment, Code.unexpectedCharacter,
      Code.unterminatedString, Code.invalidEscape, Code.invalidNumber]
  unfold commentReports reports
  rw [List.countP_map]
  apply List.countP_congr
  intro located _
  have hreport : (located.report file base).code = some located.fault.code :=
    located.fault.code_report _
  simp [hreport, hcode]

theorem commentReports_lexeme {lexeme : Lexeme} (hlexeme : lexeme.NoComment) (file : FileId)
    (base : Nat) : commentReports (reports lexeme.faults file base) = 0 := by
  rw [commentReports_reports, List.countP_eq_zero]
  intro located hmem
  simpa using hlexeme located hmem

theorem commentReports_gap (gap : Gap) (file : FileId) (base : Nat) :
    commentReports (reports gap.faults file base) =
      if gap.mode.ending = .block then 1 else 0 := by
  rw [commentReports_reports]
  unfold Gap.faults
  cases hmode : gap.mode <;> simp [Gap.Mode.ending]

/-! ### Streams -/

/-- The gap in front of a token that is scanned from here. -/
theorem gapBefore_scan {source : SourceFile} {before chars : List Char} {token : Token}
    (hchars : source.chars = before ++ chars)
    (hstart : token.range.start = byteLength before + byteLength (Gap.scan chars).text)
    (hline : token.newlineBefore = (Gap.scan chars).hasNewline) :
    GapBefore source (byteLength before) token (Gap.scan chars).mode.ending := by
  rw [← Gap.scan_append chars] at hchars
  have htext : Gap.Text (Gap.scan chars).mode.ending (Gap.scan chars).text :=
    (Gap.remainder_scanFrom 0 .between chars).1.isText
  refine ⟨String.ofList (Gap.scan chars).text, ?_, ?_, ?_⟩
  · rw [hstart]
    exact SourceFile.slice?_of_append hchars
  · rw [String.toList_ofList]
    exact htext
  · rw [hline, String.toList_ofList]
    simp [Gap.hasNewline]

/-- What is scanned behind the beginning of a file tiles the rest of it. -/
theorem tiles_scanFrom (source : SourceFile) (file : FileId) (offset : Nat) (chars : List Char) :
    ∀ before : List Char, offset = byteLength before → source.chars = before ++ chars →
      ∃ ending, Tiles source file ending offset (scanFrom file offset chars).tokens ∧
        commentReports (scanFrom file offset chars).diagnostics =
          if ending = .block then 1 else 0 := by
  fun_induction scanFrom file offset chars with
  | case1 offset chars gap start gapReports hrest =>
      rintro before rfl hchars
      have hsize : byteLength before + byteLength gap.text = source.size := by
        have happend := Gap.scan_append chars
        rw [show (Gap.scan chars).rest = [] from hrest, List.append_nil] at happend
        show _ = byteLength source.chars
        rw [hchars, byteLength_append, ← happend]
      refine ⟨gap.mode.ending, .last rfl rfl ?_ ?_, commentReports_gap _ _ _⟩
      · exact congrArg (SourceRange.emptyAt file) hsize
      · exact gapBefore_scan hchars rfl rfl
  | case2 offset chars gap start gapReports c rest hrest scanned stop later ih =>
      rintro before rfl hchars
      -- a gap that a lexeme follows does not end inside a comment
      have hmode : gap.mode = .between := by
        apply Decidable.byContradiction
        intro hmode
        have hend : gap.rest = [] := (Gap.remainder_scanFrom 0 .between chars).2 hmode
        rw [hend] at hrest
        cases hrest
      have happend : chars = gap.text ++ (scanned.1.text ++ scanned.2) := by
        rw [Lexeme.scan_append, ← hrest, Gap.scan_append]
      have hparts : source.chars = (before ++ gap.text) ++ (scanned.1.text ++ scanned.2) := by
        rw [hchars, happend, List.append_assoc]
      have hstart : start = byteLength (before ++ gap.text) := (byteLength_append _ _).symm
      have hstop : stop = byteLength (before ++ gap.text ++ scanned.1.text) := by
        rw [byteLength_append, ← hstart]
      have hbehind : source.chars = (before ++ gap.text ++ scanned.1.text) ++ scanned.2 := by
        rw [hparts, List.append_assoc _ scanned.1.text]
      obtain ⟨ending, htiles, hreports⟩ := ih _ hstop hbehind
      refine ⟨ending, .cons (Lexeme.accounted_scan c rest).1 rfl ?_ ?_ ?_ htiles, ?_⟩
      · exact Nat.lt_add_of_pos_right (byteLength_pos (Lexeme.scan_text_ne_nil c rest))
      · have hslice := SourceFile.slice?_of_append hparts
        rw [← hstart] at hslice
        exact hslice
      · have hgap : GapBefore source (byteLength before)
            (scanned.1.token file start gap.hasNewline) gap.mode.ending :=
          gapBefore_scan hchars rfl rfl
        rw [hmode] at hgap
        exact hgap
      · rw [commentReports_append, commentReports_append, hreports, commentReports_gap, hmode,
          commentReports_lexeme (Lexeme.noComment_scan c rest)]
        simp [Gap.Mode.ending]

/-- **The token stream tiles the source.** -/
theorem ofText_tiles (file : FileId) (path : Path) (text : String) :
    let source : SourceFile := ⟨path, text.toList⟩
    let stream := TokenStream.ofText file text
    (∃ ending, Tiles source file ending 0 stream.tokens) ∧
      (stream.tokens.Pairwise fun left right =>
        left.range.start < right.range.start ∧ left.range.stop ≤ right.range.start) ∧
      (∃ tokens last, stream.tokens = tokens ++ [last] ∧ last.kind = .endOfFile ∧
        last.range = .emptyAt file source.size ∧ ∀ token ∈ tokens, token.kind ≠ .endOfFile) ∧
      commentReports stream.diagnostics ≤ 1 ∧
      (commentReports stream.diagnostics = 1 ↔ Tiles source file .block 0 stream.tokens) := by
  intro source stream
  obtain ⟨ending, htiles, hreports⟩ : ∃ ending, Tiles source file ending 0 stream.tokens ∧
      commentReports stream.diagnostics = if ending = .block then 1 else 0 :=
    tiles_scanFrom source file 0 text.toList [] rfl rfl
  refine ⟨⟨ending, htiles⟩, htiles.pairwise, htiles.ended, ?_, ?_⟩
  · rw [hreports]
    split <;> omega
  · rw [hreports]
    constructor
    · intro hone
      split at hone
      case isTrue hblock => exact hblock ▸ htiles
      case isFalse => cases hone
    · intro hblock
      rw [if_pos (htiles.ending_unique hblock)]

end TokenStream

end BehaviorTree
