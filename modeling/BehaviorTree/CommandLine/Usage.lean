import BehaviorTree.CommandLine.Flag
import BehaviorTree.Text.Terminal

/-!
Why arguments ask for no command. What an error quotes of them is painted, so that control
sequences in it end where it ends; the message is the plain text of that.
-/

namespace BehaviorTree.CommandLine

inductive UsageError
  | noInput
  | missingFile
  | unexpected (argument : String)
  /-- A word much like that of a command, where only a command could stand. -/
  | unknownCommand (word : String)
  | missingValue (usage : String)
  | needlessValue (spelling : String) (value : String)
  | invalidValue (flag : Flag) (value : String) (reason : Option String)
  | repeated (flag : Flag)
  deriving DecidableEq

namespace UsageError

/-- A word of the arguments in quotes. -/
def cited (word : String) : String := "'" ++ paint true [.yellow] word ++ "'"

def text : UsageError → String
  | noInput => "no input file; run `" ++ programName ++ " --help` for usage"
  | missingFile => "error: the following required arguments were not provided:"
  | unexpected argument => "error: unexpected argument " ++ cited argument ++ " found"
  | unknownCommand word => "error: unrecognized subcommand " ++ cited word
  | missingValue usage => "error: a value is required for '" ++ usage ++ "' but none was supplied"
  | needlessValue spelling value =>
    "error: unexpected value " ++ cited value ++ " for '" ++ spelling ++
      "' found; no more were expected"
  | invalidValue flag value reason =>
    "error: invalid value " ++ cited value ++ " for '" ++ flag.usage ++ "'" ++
      ((reason.map (": " ++ ·)).getD "")
  | repeated flag => "error: the argument '" ++ flag.usage ++ "' cannot be used multiple times"

def message (error : UsageError) : String := plainText error.text

/-- What the arguments bring along does not reach the terminal as a control sequence. -/
example : (unexpected "-\x1b[31m").message = "error: unexpected argument '-' found" := by
  decide +kernel

end UsageError

inductive Stop
  | version
  | help
  | usage (error : UsageError)
  deriving DecidableEq

end BehaviorTree.CommandLine
