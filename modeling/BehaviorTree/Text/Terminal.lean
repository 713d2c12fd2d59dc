/-!
Text for terminals. Control sequences select the style of the text behind them, or tell a terminal
to do something else; the plain text is what is left without them.
-/

namespace BehaviorTree

/-- The text styles of terminals. -/
inductive Style
  | bold
  | red
  | yellow
  | cyan
  | green
  | blue
  deriving DecidableEq

/-- The number that an escape sequence selects a style by. -/
def Style.parameter : Style → String
  | bold => "1"
  | red => "31"
  | yellow => "33"
  | cyan => "36"
  | green => "32"
  | blue => "34"

def escapeSequence (parameter : String) : String := "\x1b[" ++ parameter ++ "m"

/-- Puts a text between the sequences that select styles and the one that resets them. -/
def paint (color : Bool) (styles : List Style) (text : String) : String :=
  if color then
    String.join (styles.map fun style => escapeSequence style.parameter) ++ text ++
      escapeSequence "0"
  else text

/-- What a terminal takes the next character for. -/
inductive TerminalState
  | shown
  /-- Behind an escape. -/
  | escape
  /-- Inside an escape sequence of more than one character. -/
  | escapeMore
  /-- Inside a sequence with parameters, which a letter ends. -/
  | parameters
  /-- Inside a string for the terminal itself, which an escape or, in some, a bell ends. -/
  | string (endsAtBell : Bool)
  deriving DecidableEq

namespace TerminalState

def isBetween (low high c : Char) : Bool := low.toNat ≤ c.toNat && c.toNat ≤ high.toNat

/-- The controls that move to another column or line. -/
def isSpacing (c : Char) : Bool := c = '\t' || c = '\n' || c = '\x0c' || c = '\r'

/-- The state behind a character that comes right behind an escape. -/
def afterEscape (c : Char) : TerminalState :=
  if c = '[' then parameters
  else if c = ']' then string true
  else if c = 'P' || c = 'X' || c = '^' || c = '_' then string false
  else if isBetween ' ' '/' c then escapeMore
  else if isBetween '0' '~' c then shown
  else escape

/-- The state behind a character. Cancel and substitute break every sequence off. -/
def next (state : TerminalState) (c : Char) : TerminalState :=
  if c = '\x1b' then escape
  else if c = '\x18' || c = '\x1a' then shown
  else match state with
    | shown => shown
    | escape => afterEscape c
    | escapeMore => if isBetween '0' '~' c then shown else escapeMore
    | parameters => if isBetween '@' '~' c then shown else parameters
    | string endsAtBell => if endsAtBell && c = '\x07' then shown else string endsAtBell

/-- Whether a character shows. Spacing is obeyed inside sequences too, but not inside strings. -/
def shows (state : TerminalState) (c : Char) : Bool :=
  match state with
  | shown => isSpacing c || (' '.toNat ≤ c.toNat && c != '\x7f')
  | string _ => false
  | escape | escapeMore | parameters => isSpacing c

/-- The characters that show, from a state on. -/
def showing : TerminalState → List Char → List Char
  | _, [] => []
  | state, c :: rest =>
    if state.shows c then c :: showing (state.next c) rest else showing (state.next c) rest

end TerminalState

/-- A text without control sequences and without controls other than spacing. -/
def plainText (text : String) : String :=
  String.ofList (TerminalState.shown.showing text.toList)

example : plainText (paint true [.bold, .red] "a\tb\x07" ++ "\x1b]2;c\x07d\x7f") = "a\tbd" := by
  decide +kernel

end BehaviorTree
