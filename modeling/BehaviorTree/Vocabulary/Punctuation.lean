/-!
Punctuation marks: brackets, separators and markers.
-/

namespace BehaviorTree

inductive Punctuation
  | comma
  | colon
  | semi
  | question
  | at
  | hash
  | lParen
  | rParen
  | lBracket
  | rBracket
  | lBrace
  | rBrace
  deriving DecidableEq

namespace Punctuation

inductive Category
  | delimiter
  | separator
  | marker
  deriving DecidableEq

def Category.name : Category → String
  | delimiter => "Delimiter"
  | separator => "Separator"
  | marker => "Marker"

def all : List Punctuation :=
  [comma, colon, semi, question, .at, hash, lParen, rParen, lBracket, rBracket, lBrace, rBrace]

def spelling : Punctuation → String
  | comma => ","
  | colon => ":"
  | semi => ";"
  | question => "?"
  | .at => "@"
  | hash => "#"
  | lParen => "("
  | rParen => ")"
  | lBracket => "["
  | rBracket => "]"
  | lBrace => "\x7b"
  | rBrace => "\x7d"

def name : Punctuation → String
  | comma => "Comma"
  | colon => "Colon"
  | semi => "Semi"
  | question => "Question"
  | .at => "At"
  | hash => "Hash"
  | lParen => "LParen"
  | rParen => "RParen"
  | lBracket => "LBracket"
  | rBracket => "RBracket"
  | lBrace => "LBrace"
  | rBrace => "RBrace"

def category : Punctuation → Category
  | comma | colon | semi => .separator
  | question | .at | hash => .marker
  | lParen | rParen | lBracket | rBracket | lBrace | rBrace => .delimiter

/-- The mark with exactly this spelling. -/
def ofSpelling? (spelling : String) : Option Punctuation :=
  all.find? fun mark => mark.spelling == spelling

/-- The bracket that closes the group an opening bracket starts. -/
def closer? : Punctuation → Option Punctuation
  | lParen => some rParen
  | lBracket => some rBracket
  | lBrace => some rBrace
  | _ => none

def isCloser (mark : Punctuation) : Bool :=
  mark == rParen || mark == rBracket || mark == rBrace

theorem ofSpelling?_spelling (mark : Punctuation) : ofSpelling? mark.spelling = some mark := by
  cases mark <;> rfl

theorem spelling_eq_of_ofSpelling? {text : String} {mark : Punctuation}
    (found : ofSpelling? text = some mark) : mark.spelling = text := by
  simpa using List.find?_some found

theorem isCloser_iff {mark : Punctuation} : mark.isCloser = true ↔ ∃ o : Punctuation, o.closer? = some mark := by
  constructor
  · intro h
    cases mark <;> first
      | exact ⟨lParen, rfl⟩
      | exact ⟨lBracket, rfl⟩
      | exact ⟨lBrace, rfl⟩
      | simp [isCloser] at h
  · rintro ⟨o, h⟩
    cases o <;> simp [closer?] at h <;> subst h <;> rfl

end Punctuation

end BehaviorTree
