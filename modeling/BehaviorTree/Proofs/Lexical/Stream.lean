import BehaviorTree.Lexical.TokenStream

/-!
# Token streams

The tokens of a text stand one behind the other in its file, each with some bytes of its own, and
only the last one is the token for the end of the file. What starts no token leaves a report.
-/

namespace BehaviorTree

/-! ### Lexemes -/

/-- Every scanned number is an integer, a float, or an integer literal with a fault. -/
theorem NumberLiteral.scan_cases {P : Lexeme → Prop} (chars : List Char)
    (int : ∀ value text, P (.plain (.int value) text))
    (float : ∀ value text, P (.plain (.float value) text))
    (fault : ∀ cause text, P (.faulty (.int 0) text (.number cause))) : P (scan chars).1 := by
  have hint : ∀ text value, P (intLexeme text value) := by
    intro text value
    cases value with
    | ok value => exact int value text
    | error cause => exact fault cause text
  have hdecimal : ∀ decimal : Decimal, P decimal.lexeme := by
    intro decimal
    unfold Decimal.lexeme
    split
    · exact float _ _
    · exact hint _ _
  unfold scan
  split
  · split
    · exact hint _ _
    · exact hdecimal _
  · exact hdecimal _

namespace Lexeme

/-- Every scanned lexeme is a literal, a name, a doc comment, a symbol, or a run of characters that
start no token. -/
theorem scan_cases {P : Lexeme → Prop} (c : Char) (rest : List Char)
    (string : P (StringLiteral.scan rest).1) (number : P (NumberLiteral.scan (c :: rest)).1)
    (name : P (scanName (c :: rest)).1)
    (doc : ∀ mark body text, P (plain (docKind mark body) text))
    (operator : ∀ op text, P (plain (.operator op) text))
    (mark : ∀ mark text, P (plain (.punctuation mark) text))
    (unknown : ∀ text, P (faulty .unknown text (.unexpected text))) : P (scan c rest).1 := by
  have hsymbol : P (scanSymbol c rest).1 := by
    unfold scanSymbol symbol?
    dsimp only
    cases Operator.ofSpelling? (String.ofList ([c] ++ rest.take 1)) with
    | some op => exact operator op _
    | none =>
        cases Operator.ofSpelling? (String.ofList [c]) with
        | some op => exact operator op _
        | none =>
            cases Punctuation.ofSpelling? (String.ofList [c]) with
            | some found => exact mark found _
            | none => exact unknown _
  unfold scan
  split
  · exact string
  · split
    · exact number
    · split
      · exact name
      · split
        · cases hdoc : scanDoc? rest with
          | none => exact hsymbol
          | some scanned =>
              unfold scanDoc? at hdoc
              split at hdoc
              · obtain ⟨marked, -, rfl⟩ := Option.map_eq_some_iff.mp hdoc
                exact doc _ _ _
              · cases hdoc
        · exact hsymbol

/-- A lexeme does not end the file, and one that starts no token has a fault. -/
def Accounted (lexeme : Lexeme) : Prop :=
  lexeme.kind ≠ .endOfFile ∧ (lexeme.kind = .unknown → lexeme.faults ≠ [])

theorem Accounted.of_kind {lexeme : Lexeme} (hend : lexeme.kind ≠ .endOfFile)
    (hunknown : lexeme.kind ≠ .unknown) : lexeme.Accounted :=
  ⟨hend, fun h => absurd h hunknown⟩

theorem accounted_scanName (chars : List Char) : (scanName chars).1.Accounted := by
  simp only [scanName, plain, kindOfName]
  split
  · exact .of_kind (by simp) (by simp)
  · exact .of_kind (by simp) (by simp)
  · exact .of_kind (by simp) (by simp)

theorem accounted_scanNumber (chars : List Char) : (NumberLiteral.scan chars).1.Accounted := by
  apply NumberLiteral.scan_cases
  case int => exact fun value text => .of_kind (by simp [plain]) (by simp [plain])
  case float => exact fun value text => .of_kind (by simp [plain]) (by simp [plain])
  case fault => exact fun cause text => .of_kind (by simp [faulty]) (by simp [faulty])

theorem accounted_scan (c : Char) (rest : List Char) : (scan c rest).1.Accounted := by
  apply scan_cases
  case string => exact .of_kind (by simp [StringLiteral.scan]) (by simp [StringLiteral.scan])
  case number => exact accounted_scanNumber _
  case name => exact accounted_scanName _
  case doc =>
    intro mark body text
    cases mark with
    | item => exact .of_kind (by simp [plain, docKind]) (by simp [plain, docKind])
    | module => exact .of_kind (by simp [plain, docKind]) (by simp [plain, docKind])
  case operator => exact fun op text => .of_kind (by simp [plain]) (by simp [plain])
  case mark => exact fun mark text => .of_kind (by simp [plain]) (by simp [plain])
  case unknown => exact fun text => ⟨by simp [faulty], fun _ => by simp [faulty]⟩

end Lexeme

theorem byteLength_pos {chars : List Char} (hsome : chars ≠ []) : 0 < byteLength chars := by
  cases chars with
  | nil => exact absurd rfl hsome
  | cons c rest =>
      have hc := c.utf8Size_pos
      rw [byteLength_cons]
      omega

theorem LexicalFault.code_report (fault : LexicalFault) (range : SourceRange) :
    (fault.report range).code = some fault.code := by
  cases fault with
  | escape fault =>
      unfold report
      dsimp only
      split <;> rfl
  | _ => rfl

/-! ### Streams -/

/-- Tokens that stand one behind the other from an offset of a file, the last one at its end. -/
inductive Placed (file : FileId) : Nat → List Token → Prop
  | last {offset : Nat} {token : Token} : token.isEndOfFile = true → token.range.file = file →
    offset ≤ token.range.start → Placed file offset [token]
  | cons {offset : Nat} {token : Token} {rest : List Token} : token.isEndOfFile = false →
    token.range.file = file → offset ≤ token.range.start →
    token.range.start < token.range.stop → Placed file token.range.stop rest →
    Placed file offset (token :: rest)

theorem Placed.ended {file : FileId} {offset : Nat} {tokens : List Token}
    (h : Placed file offset tokens) : ∃ before last, tokens = before ++ [last] ∧
      last.isEndOfFile = true ∧ ∀ token ∈ before, token.isEndOfFile = false := by
  induction h with
  | @last offset token hend _ _ => exact ⟨[], token, rfl, hend, by simp⟩
  | @cons offset token rest htoken _ _ _ _ ih =>
      obtain ⟨before, last, rfl, hend, hbefore⟩ := ih
      refine ⟨token :: before, last, rfl, hend, ?_⟩
      rintro other (_ | ⟨_, hmem⟩)
      · exact htoken
      · exact hbefore other hmem

theorem Placed.file_eq {file : FileId} {offset : Nat} {tokens : List Token}
    (h : Placed file offset tokens) : ∀ token ∈ tokens, token.range.file = file := by
  induction h with
  | last _ hfile _ => simpa using hfile
  | cons _ hfile _ _ _ ih => simpa using ⟨hfile, ih⟩

theorem Placed.offset_le {file : FileId} {offset : Nat} {tokens : List Token}
    (h : Placed file offset tokens) : ∀ token ∈ tokens, offset ≤ token.range.start := by
  induction h with
  | last _ _ hstart => simpa using hstart
  | cons _ _ hstart hlt _ ih =>
      rintro token (_ | ⟨_, hmem⟩)
      · exact hstart
      · have := ih token hmem
        omega

/-- No two tokens start at the same offset. -/
theorem Placed.nodup_starts {file : FileId} {offset : Nat} {tokens : List Token}
    (h : Placed file offset tokens) : (tokens.map fun token => token.range.start).Nodup := by
  induction h with
  | last => simp
  | @cons offset token rest _ _ _ hlt hrest ih =>
      rw [List.map_cons, List.nodup_cons]
      refine ⟨?_, ih⟩
      intro hmem
      obtain ⟨other, hother, hsame⟩ := List.mem_map.mp hmem
      have := hrest.offset_le other hother
      omega

namespace TokenStream

/-- The stream of a text that is nothing but a gap. -/
theorem scanFrom_of_rest_nil (file : FileId) (offset : Nat) {chars : List Char}
    (hrest : (Gap.scan chars).rest = []) :
    scanFrom file offset chars =
      ⟨[endOfFile file (offset + byteLength (Gap.scan chars).text) (Gap.scan chars).hasNewline],
        reports (Gap.scan chars).faults file offset⟩ := by
  rw [scanFrom.eq_def]
  dsimp only
  split
  · rfl
  · rename_i hsome
    rw [hrest] at hsome
    cases hsome

/-- The stream of a text in which a lexeme follows the first gap. -/
theorem scanFrom_of_rest_cons (file : FileId) (offset : Nat) {chars rest : List Char} {c : Char}
    (hrest : (Gap.scan chars).rest = c :: rest) :
    let start := offset + byteLength (Gap.scan chars).text
    let scanned := Lexeme.scan c rest
    let later := scanFrom file (start + byteLength scanned.1.text) scanned.2
    scanFrom file offset chars =
      ⟨scanned.1.token file start (Gap.scan chars).hasNewline :: later.tokens,
        reports (Gap.scan chars).faults file offset ++ reports scanned.1.faults file start ++
          later.diagnostics⟩ := by
  rw [scanFrom.eq_def]
  dsimp only
  split
  · rename_i hnone
    rw [hrest] at hnone
    cases hnone
  · rename_i hsome
    rw [hrest] at hsome
    cases hsome
    rfl

theorem placed_scanFrom (file : FileId) (offset : Nat) (chars : List Char) :
    Placed file offset (scanFrom file offset chars).tokens := by
  fun_induction scanFrom file offset chars with
  | case1 offset chars gap start gapReports hrest =>
      exact .last rfl rfl (Nat.le_add_right _ _)
  | case2 offset chars gap start gapReports c rest hrest scanned stop later ih =>
      have hkind := (Lexeme.accounted_scan c rest).1
      have hlength := byteLength_pos (Lexeme.scan_text_ne_nil c rest)
      refine .cons (by simpa [Lexeme.token, Token.isEndOfFile] using hkind) rfl
        (Nat.le_add_right _ _) ?_ ih
      exact Nat.lt_add_of_pos_right hlength

/-- Where nothing is reported every character belongs to a token or to a gap. -/
theorem known_scanFrom (file : FileId) (offset : Nat) (chars : List Char)
    (hsilent : (scanFrom file offset chars).diagnostics = []) :
    ∀ token ∈ (scanFrom file offset chars).tokens, token.kind ≠ .unknown := by
  fun_induction scanFrom file offset chars with
  | case1 offset chars gap start gapReports hrest =>
      intro token hmem
      cases List.mem_singleton.mp hmem
      simp [endOfFile]
  | case2 offset chars gap start gapReports c rest hrest scanned stop later ih =>
      simp only [List.append_eq_nil_iff] at hsilent
      obtain ⟨⟨-, hfaults⟩, hlater⟩ := hsilent
      rintro token (_ | ⟨_, hmem⟩)
      · intro hkind
        have hsome := (Lexeme.accounted_scan c rest).2 hkind
        exact hsome (List.map_eq_nil_iff.mp hfaults)
      · exact ih hlater token hmem

end TokenStream

end BehaviorTree
