import BehaviorTree.Token

/-!
Skipping over tokens after an error. Bracketed groups are skipped as a whole, so that recovery never
stops inside one. Every function here counts how many of the coming tokens to skip; none skips the
token for the end of the file.
-/

namespace BehaviorTree

/-- Tokens that recovery can stop at. -/
inductive Stop
  | semi
  | rBrace
  | rParen
  | rBracket
  | comma
  | lBrace
  | greater
  /-- A word that opens a top-level construct. -/
  | opener
  deriving DecidableEq

def Stop.ofKind? : TokenKind → Option Stop
  | .punctuation .semi => some semi
  | .punctuation .rBrace => some rBrace
  | .punctuation .rParen => some rParen
  | .punctuation .rBracket => some rBracket
  | .punctuation .comma => some comma
  | .punctuation .lBrace => some lBrace
  | .operator .gt => some greater
  | .keyword word => if word.isOpener then some opener else none
  | _ => none

abbrev RecoverySet := List Stop

namespace RecoverySet

/-- Recovery inside a tree body. -/
def statement : RecoverySet := [.semi, .rBrace, .opener]

/-- Recovery between top-level declarations. -/
def top : RecoverySet := [.semi, .opener]

/-- Recovery inside a type. -/
def type : RecoverySet := [.comma, .rParen, .rBracket, .greater, .lBrace] ++ statement

/-- Whether recovery stops at a token. The end of the file is in every set. -/
def stopsAt (set : RecoverySet) (token : Token) : Bool :=
  token.isEndOfFile || (Stop.ofKind? token.kind).any (set.contains ·)

end RecoverySet

namespace Token

def punctuation? (token : Token) : Option Punctuation := token.kind.punctuation?

def operator? (token : Token) : Option Operator := token.kind.operator?

def keyword? (token : Token) : Option Keyword := token.kind.keyword?

/-- The bracket that closes the group this token opens. -/
def closer? (token : Token) : Option Punctuation := token.punctuation?.bind Punctuation.closer?

/-- The closing bracket that this token is. -/
def closing? (token : Token) : Option Punctuation := token.punctuation?.filter Punctuation.isCloser

def isOpenerWord (token : Token) : Bool := token.keyword?.any Keyword.isOpener

def isAssignment (token : Token) : Bool := token.operator?.any Operator.isAssignment

variable {token opening : Token} {mark : Punctuation}

theorem isEndOfFile_of_closer? (hopens : token.closer? = some mark) : token.isEndOfFile = false := by
  cases hend : token.isEndOfFile with
  | false => rfl
  | true =>
      have hkind : token.kind = .endOfFile := by simpa [isEndOfFile] using hend
      simp [closer?, punctuation?, TokenKind.punctuation?, hkind] at hopens

theorem closing?_eq_some_iff :
    token.closing? = some mark ↔ token.kind = .punctuation mark ∧ mark.isCloser = true := by
  cases hkind : token.kind <;>
    simp [closing?, punctuation?, TokenKind.punctuation?, hkind, Option.filter_eq_some_iff]

/-- No bracket both closes a group and opens one. -/
theorem closer?_eq_none_of_closing? (hcloses : token.closing? = some mark) :
    token.closer? = none := by
  obtain ⟨hkind, hmark⟩ := closing?_eq_some_iff.mp hcloses
  rw [closer?, punctuation?, hkind]
  cases mark <;> first | rfl | cases hmark

/-- The mark that closes a group is a closing bracket. -/
theorem closing?_of_closer? (hopens : opening.closer? = some mark)
    (hcloses : token.kind = .punctuation mark) : token.closing? = some mark := by
  obtain ⟨bracket, -, hbracket⟩ := Option.bind_eq_some_iff.mp hopens
  exact closing?_eq_some_iff.mpr ⟨hcloses, Punctuation.isCloser_iff.mpr ⟨bracket, hbracket⟩⟩

end Token

namespace Skip

/-- The closers that are pending behind a token of a group, innermost first, if they were the given
ones in front of it. There are none where the token lies in no group or breaks its group off, as a
closer does that is not the innermost pending one. -/
def pendingBehind? : List Punctuation → Token → Option (List Punctuation)
  | [], _ => none
  | innermost :: outer, token =>
    match token.closer?, token.closing? with
    | some closer, _ => some (closer :: innermost :: outer)
    | none, some closer => if closer = innermost then some outer else none
    | none, none => some (innermost :: outer)

@[simp]
theorem pendingBehind?_nil (token : Token) : pendingBehind? [] token = none := rfl

/-- The tokens up to the end of a group in which the given closers are pending. -/
def groupRest (pending : List Punctuation) : List Token → Nat
  | [] => 0
  | token :: rest =>
    if token.isEndOfFile then 0
    else match pendingBehind? pending token with
      | some pending => groupRest pending rest + 1
      | none => 0

/-- The tokens of the group that starts here, or none where no bracket opens one. -/
def group : List Token → Nat
  | [] => 0
  | token :: rest =>
    match token.closer? with
    | some closer => groupRest [closer] rest + 1
    | none => 0

/-- The tokens in front of the first one outside all groups that recovery stops at. Stray closers
are stepped over. The list holds the closers of the group that the scan is in. -/
def untilStopIn (set : RecoverySet) (pending : List Punctuation) : List Token → Nat
  | [] => 0
  | token :: rest =>
    if token.isEndOfFile then 0
    else match pendingBehind? pending token with
      | some pending => untilStopIn set pending rest + 1
      | none => if set.stopsAt token then 0 else untilStopIn set token.closer?.toList rest + 1

def untilStop (set : RecoverySet) (tokens : List Token) : Nat := untilStopIn set [] tokens

/-- Whether the header of a construct ends in front of a token. -/
def endsHeader (token : Token) : Bool :=
  token.isEndOfFile || token.isPunctuation .lBrace || token.isPunctuation .semi ||
    token.isPunctuation .rBrace || token.isOpenerWord

/-- The tokens of a header, up to its block or its end; parentheses and brackets are skipped as
groups. The list holds the closers of the group that the scan is in. -/
def headerIn (pending : List Punctuation) : List Token → Nat
  | [] => 0
  | token :: rest =>
    if token.isEndOfFile then 0
    else match pendingBehind? pending token with
      | some pending => headerIn pending rest + 1
      | none => if endsHeader token then 0 else headerIn token.closer?.toList rest + 1

def header (tokens : List Token) : Nat := headerIn [] tokens

/-- The tokens up to the end of a block with the given number of braces open; only braces count. -/
def blockRest : Nat → List Token → Nat
  | _, [] => 0
  | depth, token :: rest =>
    if token.isEndOfFile then 0
    else if token.isPunctuation .lBrace then blockRest (depth + 1) rest + 1
    else if token.isPunctuation .rBrace then
      match depth with
      | 0 | 1 => 1
      | depth + 1 => blockRest depth rest + 1
    else blockRest depth rest + 1

/-- The tokens of the block that starts here. -/
def block (tokens : List Token) : Nat := blockRest 0 tokens

/-- Whether an assignment operator follows the index groups at hand. One inside an index that is
not closed counts too; the scan ends at `;` and at braces. The number counts open brackets. -/
def assignmentFollows : Nat → List Token → Bool
  | _, [] => false
  | 0, token :: rest =>
    if token.isPunctuation .lBracket then assignmentFollows 1 rest else token.isAssignment
  | depth + 1, token :: rest =>
    if token.isEndOfFile || token.isPunctuation .semi || token.isPunctuation .lBrace ||
        token.isPunctuation .rBrace then false
    else if token.isPunctuation .lBracket then assignmentFollows (depth + 2) rest
    else if token.isPunctuation .rBracket then assignmentFollows depth rest
    else token.isAssignment || assignmentFollows (depth + 1) rest

/-- What a count says that goes up to a token of some kind, and over whole groups on the way. -/
structure Counts (stops : Token → Bool) (countIn : List Punctuation → List Token → Nat) : Prop where
  ended : ∀ token, token.isEndOfFile = true → stops token = true
  nil : ∀ pending, countIn pending [] = 0
  cons : ∀ pending token rest, countIn pending (token :: rest) =
    if token.isEndOfFile then 0
    else match pendingBehind? pending token with
      | some behind => countIn behind rest + 1
      | none => if stops token then 0 else countIn token.closer?.toList rest + 1

theorem counts_untilStop (set : RecoverySet) : Counts set.stopsAt (untilStopIn set) where
  ended token hend := by simp [RecoverySet.stopsAt, hend]
  nil _ := rfl
  cons _ _ _ := rfl

theorem counts_header : Counts endsHeader headerIn where
  ended token hend := by simp [endsHeader, hend]
  nil _ := rfl
  cons _ _ _ := rfl

end Skip

end BehaviorTree
