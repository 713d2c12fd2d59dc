import BehaviorTree.Binary64.Shortest
import BehaviorTree.Text.Dump
import BehaviorTree.Token

/-!
Tokens as dumps show them.
-/

namespace BehaviorTree

/-- What a kind of token carries. -/
def TokenKind.contents : TokenKind → List Dump
  | keyword word => [.atom word.name]
  | operator op => [.atom op.name]
  | punctuation mark => [.atom mark.name]
  | int value => [.atom (toString value)]
  | float value => [.atom value.toText]
  | string text | docComment text | moduleDoc text => [.text text]
  | identifier | infer | unknown | endOfFile => []

def TokenKind.dump (kind : TokenKind) : Dump :=
  if kind.contents.isEmpty then .atom kind.name else .call kind.name kind.contents

/-- The line of a token: where it starts, what it is and how it is written. -/
def Token.dumpLine (token : Token) (sources : Sources) : String :=
  let (line, column) := sources.lineCol token.range.file token.range.start
  toString line ++ ":" ++ toString column ++ "\t" ++ token.kind.dump.oneLine ++ "\t" ++
    (Dump.text token.text).oneLine ++ "\n"

/-- The lines of a stream up to the end of the file. -/
def Token.dumpLines (tokens : List Token) (sources : Sources) : String :=
  String.join ((tokens.takeWhile fun token => !token.isEndOfFile).map (·.dumpLine sources))

end BehaviorTree
