import BehaviorTree.Lexical.Gap
import BehaviorTree.Lexical.Number
import BehaviorTree.Lexical.StringLiteral

/-!
The tokens of a source text. Reading is total: what starts no token becomes an unknown token with a
report. The stream ends with one token for the end of the file.
-/

namespace BehaviorTree

namespace Lexeme

def isNameStart (c : Char) : Bool := c.isAlpha || c == '_'

def isNamePart (c : Char) : Bool := c.isAlphanum || c == '_'

/-- Characters other than letters and digits that a token starts with. -/
def symbolStarts : List Char := "+-*/%=!<>&|^,:;?@#()[]\x7b\x7d".toList

/-- Whether a character starts a token or separates two. -/
def endsUnknown (c : Char) : Bool :=
  isBlank c || isNamePart c || c == '"' || symbolStarts.contains c

/-- The kind of a name: the wildcard, a reserved word, or an identifier. -/
def kindOfName (text : List Char) : TokenKind :=
  match Keyword.ofSpelling? (String.ofList text) with
  | some .infer => .infer
  | some word => .keyword word
  | none => .identifier

def scanName (chars : List Char) : Lexeme × List Char :=
  (plain (kindOfName (chars.takeWhile isNamePart)) (chars.takeWhile isNamePart),
    chars.dropWhile isNamePart)

def isCarriageReturn (c : Char) : Bool := c == '\r'

/-- The documentation in the body of a doc comment: one space in front and carriage returns at the
end do not belong to it. -/
def docText (body : List Char) : List Char :=
  let text := (body.reverse.dropWhile isCarriageReturn).reverse
  if text.head? = some ' ' then text.drop 1 else text

def docKind (mark : DocMark) (body : List Char) : TokenKind :=
  match mark with
  | .item => .docComment (String.ofList (docText body))
  | .module => .moduleDoc (String.ofList (docText body))

def isInLine (c : Char) : Bool := c != '\n'

/-- The operator or mark with the longest spelling that a text starts with. -/
def symbol? (c : Char) (rest : List Char) : Option (Lexeme × List Char) :=
  let pair := [c] ++ rest.take 1
  match Operator.ofSpelling? (String.ofList pair) with
  | some op => some (plain (.operator op) pair, rest.drop 1)
  | none =>
    match Operator.ofSpelling? (String.ofList [c]) with
    | some op => some (plain (.operator op) [c], rest)
    | none =>
      (Punctuation.ofSpelling? (String.ofList [c])).map fun mark =>
        (plain (.punctuation mark) [c], rest)

/-- A symbol, or else the characters up to the next one that may start a token. -/
def scanSymbol (c : Char) (rest : List Char) : Lexeme × List Char :=
  match symbol? c rest with
  | some scanned => scanned
  | none =>
    let text := c :: rest.takeWhile fun c => !endsUnknown c
    (faulty .unknown text (.unexpected text), rest.dropWhile fun c => !endsUnknown c)

/-- A doc comment, if the text behind a slash makes it one. -/
def scanDoc? : List Char → Option (Lexeme × List Char)
  | '/' :: rest =>
    (docMark? rest).map fun (mark, body) =>
      (plain (docKind mark (body.takeWhile isInLine)) ('/' :: '/' :: rest.takeWhile isInLine),
        body.dropWhile isInLine)
  | _ => none

/-- The lexeme that a text starts with, given that no gap comes first. -/
def scan (c : Char) (rest : List Char) : Lexeme × List Char :=
  if c = '"' then StringLiteral.scan rest
  else if c.isDigit then NumberLiteral.scan (c :: rest)
  else if isNameStart c then scanName (c :: rest)
  else if c = '/' then (scanDoc? rest).getD (scanSymbol c rest)
  else scanSymbol c rest

theorem docMark?_append {chars body : List Char} {mark : DocMark}
    (marked : docMark? chars = some (mark, body)) :
    ∃ c, chars = c :: body ∧ isInLine c = true := by
  unfold docMark? at marked
  split at marked
  · cases marked
    exact ⟨_, rfl, rfl⟩
  · split at marked
    · cases marked
    · cases marked
      exact ⟨_, rfl, rfl⟩
  · cases marked

theorem scanSymbol_append (c : Char) (rest : List Char) :
    (scanSymbol c rest).1.text ++ (scanSymbol c rest).2 = c :: rest := by
  unfold scanSymbol symbol?
  dsimp only
  cases Operator.ofSpelling? (String.ofList ([c] ++ rest.take 1)) with
  | some op =>
    change ([c] ++ rest.take 1) ++ rest.drop 1 = c :: rest
    rw [List.append_assoc, List.take_append_drop, List.singleton_append]
  | none =>
    cases Operator.ofSpelling? (String.ofList [c]) with
    | some op => rfl
    | none =>
      cases Punctuation.ofSpelling? (String.ofList [c]) with
      | some mark => rfl
      | none => simp [faulty, List.takeWhile_append_dropWhile]

theorem scanDoc?_append {chars : List Char} {scanned : Lexeme × List Char}
    (doc : scanDoc? chars = some scanned) : scanned.1.text ++ scanned.2 = '/' :: chars := by
  unfold scanDoc? at doc
  split at doc
  · obtain ⟨⟨mark, body⟩, marked, rfl⟩ := Option.map_eq_some_iff.1 doc
    obtain ⟨c, rfl, inLine⟩ := docMark?_append marked
    simp [plain, inLine, List.takeWhile_append_dropWhile]
  · cases doc

theorem scan_append (c : Char) (rest : List Char) :
    (scan c rest).1.text ++ (scan c rest).2 = c :: rest := by
  unfold scan
  split
  · rename_i quote
    rw [quote, StringLiteral.scan_append]
  · split
    · exact NumberLiteral.scan_append _
    · split
      · exact List.takeWhile_append_dropWhile
      · split
        · rename_i slash
          subst slash
          cases doc : scanDoc? rest with
          | none => exact scanSymbol_append _ _
          | some scanned => exact scanDoc?_append doc
        · exact scanSymbol_append c rest

theorem isNamePart_of_isNameStart {c : Char} (start : isNameStart c = true) :
    isNamePart c = true := by
  simp only [isNameStart, isNamePart, Char.isAlphanum, Bool.or_eq_true] at start ⊢
  exact start.imp_left Or.inl

theorem scanSymbol_text_ne_nil (c : Char) (rest : List Char) :
    (scanSymbol c rest).1.text ≠ [] := by
  unfold scanSymbol symbol?
  dsimp only
  cases Operator.ofSpelling? (String.ofList ([c] ++ rest.take 1)) with
  | some op => exact List.cons_ne_nil _ _
  | none =>
    cases Operator.ofSpelling? (String.ofList [c]) with
    | some op => exact List.cons_ne_nil _ _
    | none =>
      cases Punctuation.ofSpelling? (String.ofList [c]) with
      | some mark => exact List.cons_ne_nil _ _
      | none => exact List.cons_ne_nil _ _

theorem scanDoc?_text_ne_nil {chars : List Char} {scanned : Lexeme × List Char}
    (doc : scanDoc? chars = some scanned) : scanned.1.text ≠ [] := by
  unfold scanDoc? at doc
  split at doc
  · obtain ⟨marked, _, rfl⟩ := Option.map_eq_some_iff.1 doc
    exact List.cons_ne_nil _ _
  · cases doc

theorem scan_text_ne_nil (c : Char) (rest : List Char) : (scan c rest).1.text ≠ [] := by
  unfold scan
  split
  · exact List.cons_ne_nil _ _
  · split
    · rename_i digit
      exact NumberLiteral.scan_text_ne_nil digit rest
    · split
      · rename_i start
        simp [scanName, plain, isNamePart_of_isNameStart start]
      · split
        · cases doc : scanDoc? rest with
          | none => exact scanSymbol_text_ne_nil _ _
          | some scanned => exact scanDoc?_text_ne_nil doc
        · exact scanSymbol_text_ne_nil c rest

theorem length_scan_lt (c : Char) (rest : List Char) :
    (scan c rest).2.length < (c :: rest).length := by
  have whole := congrArg List.length (scan_append c rest)
  have positive := List.length_pos_iff.2 (scan_text_ne_nil c rest)
  rw [List.length_append] at whole
  omega

end Lexeme

/-- The tokens of a text, and what was reported while they were read. -/
structure TokenStream where
  tokens : List Token
  diagnostics : List Diagnostic
  deriving DecidableEq

namespace TokenStream

def endOfFile (file : FileId) (offset : Nat) (newlineBefore : Bool) : Token :=
  ⟨.endOfFile, "", .emptyAt file offset, newlineBefore⟩

def reports (faults : List LocatedFault) (file : FileId) (base : Nat) : List Diagnostic :=
  faults.map fun fault => fault.report file base

/-- The tokens of a text that starts at an offset of a file. -/
def scanFrom (file : FileId) (offset : Nat) (chars : List Char) : TokenStream :=
  let gap := Gap.scan chars
  let start := offset + byteLength gap.text
  let gapReports := reports gap.faults file offset
  match _remaining : gap.rest with
  | [] => ⟨[endOfFile file start gap.hasNewline], gapReports⟩
  | c :: rest =>
    let scanned := Lexeme.scan c rest
    let stop := start + byteLength scanned.1.text
    let later := scanFrom file stop scanned.2
    ⟨scanned.1.token file start gap.hasNewline :: later.tokens,
      gapReports ++ reports scanned.1.faults file start ++ later.diagnostics⟩
  termination_by chars.length
  decreasing_by
    have shorter := Lexeme.length_scan_lt c rest
    have inside := Gap.length_rest_scan_le chars
    rw [show (Gap.scan chars).rest = c :: rest from _remaining] at inside
    exact Nat.lt_of_lt_of_le shorter inside

/-- The tokens of the text of a file. -/
def ofText (file : FileId) (text : String) : TokenStream :=
  scanFrom file 0 text.toList

end TokenStream

end BehaviorTree
