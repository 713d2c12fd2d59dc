import BehaviorTree.Binary64
import BehaviorTree.Source
import BehaviorTree.Vocabulary.Keyword
import BehaviorTree.Vocabulary.Operator
import BehaviorTree.Vocabulary.Punctuation

/-!
Tokens: what the characters of a source text mean to the parser.
-/

namespace BehaviorTree

inductive TokenKind
  | keyword (word : Keyword)
  | operator (op : Operator)
  | punctuation (mark : Punctuation)
  | identifier
  | infer
  | int (value : Nat)
  | float (value : Binary64)
  | string (value : String)
  | docComment (text : String)
  | moduleDoc (text : String)
  | unknown
  | endOfFile
  deriving DecidableEq

namespace TokenKind

def name : TokenKind → String
  | keyword _ => "Keyword"
  | operator _ => "Operator"
  | punctuation _ => "Punctuation"
  | identifier => "Ident"
  | infer => "Infer"
  | int _ => "Int"
  | float _ => "Float"
  | string _ => "String"
  | docComment _ => "DocComment"
  | moduleDoc _ => "ModuleDoc"
  | unknown => "Error"
  | endOfFile => "Eof"

def keyword? : TokenKind → Option Keyword
  | keyword word => some word
  | _ => none

def operator? : TokenKind → Option Operator
  | operator op => some op
  | _ => none

def punctuation? : TokenKind → Option Punctuation
  | punctuation mark => some mark
  | _ => none

def isDoc : TokenKind → Bool
  | docComment _ | moduleDoc _ => true
  | _ => false

end TokenKind

structure Token where
  kind : TokenKind
  text : String
  range : SourceRange
  /-- A line feed lies between the previous token and this one. -/
  newlineBefore : Bool
  deriving DecidableEq

namespace Token

def isKeyword (token : Token) (word : Keyword) : Bool := token.kind == .keyword word

def isOperator (token : Token) (op : Operator) : Bool := token.kind == .operator op

def isPunctuation (token : Token) (mark : Punctuation) : Bool := token.kind == .punctuation mark

def isIdentifier (token : Token) : Bool := token.kind == .identifier

def isEndOfFile (token : Token) : Bool := token.kind == .endOfFile

/-- The same token as the first of a line. -/
def onNewLine (token : Token) : Token := { token with newlineBefore := true }

/-- The words for a token in messages of the form "expected this, found that". -/
def describe (token : Token) : String :=
  match token.kind with
  | .keyword word => "keyword `" ++ word.spelling ++ "`"
  | .operator op => "`" ++ op.spelling ++ "`"
  | .punctuation mark => "`" ++ mark.spelling ++ "`"
  | .identifier => "identifier `" ++ token.text ++ "`"
  | .infer => "`_`"
  | .int _ | .float _ => "number `" ++ token.text ++ "`"
  | .string _ => "string literal"
  | .docComment _ | .moduleDoc _ => "doc comment"
  | .unknown => "`" ++ token.text ++ "`"
  | .endOfFile => "end of file"

end Token

end BehaviorTree
