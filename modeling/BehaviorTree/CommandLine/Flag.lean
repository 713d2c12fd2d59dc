/-!
The words that the command line knows: the commands and the flags, with the values that flags take.
-/

namespace BehaviorTree.CommandLine

def programName : String := "btdsl"

def version : String := "0.1.0-alpha.1"

inductive CommandName
  | check
  | lex
  | parse
  deriving DecidableEq

def CommandName.ofWord? : String → Option CommandName
  | "check" => some check
  | "lex" => some lex
  | "parse" => some parse
  | _ => none

/-- The word that asks for help where a command can stand. -/
def helpWord : String := "help"

/-- The words that can stand in place of a command. -/
def commandWords : List String := ["check", "lex", "parse", helpWord]

/-- How diagnostics are written. -/
inductive DiagnosticFormat
  | human
  | json
  | fancy
  deriving DecidableEq

def DiagnosticFormat.ofWord? : String → Option DiagnosticFormat
  | "human" => some human
  | "json" => some json
  | "fancy" => some fancy
  | _ => none

inductive ColorChoice
  | auto
  | always
  | never
  deriving DecidableEq

namespace ColorChoice

def ofWord? : String → Option ColorChoice
  | "auto" => some auto
  | "always" => some always
  | "never" => some never
  | _ => none

/-- Whether to write colors, where `auto` goes by what the output is. -/
def enabled (choice : ColorChoice) (byDefault : Bool) : Bool :=
  match choice with
  | auto => byDefault
  | always => true
  | never => false

end ColorChoice

inductive Flag
  | format
  | color
  | package
  | stdlib
  deriving DecidableEq

namespace Flag

def all : List Flag := [format, color, package, stdlib]

def spelling : Flag → String
  | format => "--format"
  | color => "--color"
  | package => "--package"
  | stdlib => "--stdlib"

def placeholder : Flag → String
  | format => "<FORMAT>"
  | color => "<COLOR>"
  | package => "<NAME=DIR>"
  | stdlib => "<DIR>"

def usage (flag : Flag) : String := flag.spelling ++ " " ++ flag.placeholder

/-- Whether a flag may stand with a command, or in front of one. -/
def allowedWith (flag : Flag) (command : Option CommandName) : Bool :=
  match flag with
  | format | color => true
  | package | stdlib => command == some .check

def ofSpelling? (command : Option CommandName) (text : String) : Option Flag :=
  all.find? fun flag => flag.spelling == text && flag.allowedWith command

end Flag

end BehaviorTree.CommandLine
