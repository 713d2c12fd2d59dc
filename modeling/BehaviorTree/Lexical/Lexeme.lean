import BehaviorTree.Lexical.Fault
import BehaviorTree.Token

/-!
A lexeme: the text of one token, its kind, and the faults in it, without its place in a file.
-/

namespace BehaviorTree

structure Lexeme where
  kind : TokenKind
  text : List Char
  faults : List LocatedFault
  deriving DecidableEq

namespace Lexeme

def plain (kind : TokenKind) (text : List Char) : Lexeme := ⟨kind, text, []⟩

/-- A lexeme that is wrong as a whole. -/
def faulty (kind : TokenKind) (text : List Char) (fault : LexicalFault) : Lexeme :=
  ⟨kind, text, [⟨0, byteLength text, fault⟩]⟩

def token (lexeme : Lexeme) (file : FileId) (offset : Nat) (newlineBefore : Bool) : Token where
  kind := lexeme.kind
  text := String.ofList lexeme.text
  range := ⟨file, offset, offset + byteLength lexeme.text⟩
  newlineBefore := newlineBefore

end Lexeme

end BehaviorTree
