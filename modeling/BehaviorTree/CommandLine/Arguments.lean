import BehaviorTree.CommandLine.Usage
import BehaviorTree.Path
import BehaviorTree.Text.Likeness

/-!
The arguments of the command line. Words are read from left to right: the name of a command, a file,
and flags, each with a value behind it or behind a `=`. Some flags belong to every command. After
`--` every word is a file. The name of a command opens the arguments of that command, which are read
to the end before those in front of it are settled.

A value behind a `=` is taken at once. A word of its own, a file or the value of a flag, is pending
until the next file or known flag or the end, and only then is it looked at.
-/

namespace BehaviorTree.CommandLine

/-- Splits at the first `=`. -/
def splitAssignment (text : String) : String × Option String :=
  let chars := text.toList
  let name := String.ofList (chars.takeWhile (· != '='))
  match chars.dropWhile (· != '=') with
  | [] => (name, none)
  | _ :: value => (name, some (String.ofList value))

/-- The name and the directory of a package, or what is wrong with them. -/
def parsePackage (raw : String) : Except String (String × Path) :=
  match splitAssignment raw with
  | (name, some directory) =>
    if name.isEmpty || directory.isEmpty then .error ("expected NAME=DIR, got `" ++ raw ++ "`")
    else if name.toList.any fun c => c == '/' || c == '\\' then
      .error ("package name `" ++ name ++ "` must not contain a path separator")
    else .ok (name, ⟨directory⟩)
  | (_, none) => .error ("expected NAME=DIR, got `" ++ raw ++ "`")

/-- What is not settled yet. -/
inductive Pending
  /-- A flag with its value, or one that waits for it. -/
  | flag (flag : Flag) (value : Option String)
  | file (word : String)
  deriving DecidableEq

/-- What has been read of the arguments of a command, or of those in front of any command. -/
structure Arguments where
  command : Option CommandName
  file : Option Path
  format : Option DiagnosticFormat
  color : Option ColorChoice
  packages : List (String × Path)
  stdlib : Option Path
  pending : Option Pending
  deriving DecidableEq

/-- What reading a word leads to. -/
inductive Turn
  | onward (filesOnly : Bool) (arguments : Arguments)
  /-- The arguments of a command begin. -/
  | enter (command : CommandName)
  /-- Help is asked for, maybe on the words behind. -/
  | help

namespace Arguments

def ofCommand (command : Option CommandName) : Arguments :=
  ⟨command, none, none, none, [], none, none⟩

/-- Whether a flag must not be given again. -/
def isTaken (arguments : Arguments) : Flag → Bool
  | .format => arguments.format.isSome
  | .color => arguments.color.isSome
  | .package => false
  | .stdlib => arguments.stdlib.isSome

/-- Why a flag does not take a value. -/
def refusal (flag : Flag) (value : String) (reason : Option String) : Stop :=
  if value.isEmpty && reason.isNone then .usage (.missingValue flag.usage)
  else .usage (.invalidValue flag value reason)

def setFlag (arguments : Arguments) (flag : Flag) (value : String) : Except Stop Arguments :=
  if arguments.isTaken flag then .error (.usage (.repeated flag))
  else match flag with
    | .format =>
      match DiagnosticFormat.ofWord? value with
      | some format => .ok { arguments with format := some format }
      | none => .error (refusal flag value none)
    | .color =>
      match ColorChoice.ofWord? value with
      | some color => .ok { arguments with color := some color }
      | none => .error (refusal flag value none)
    | .package =>
      match parsePackage value with
      | .ok package => .ok { arguments with packages := arguments.packages ++ [package] }
      | .error reason => .error (refusal flag value (some reason))
    | .stdlib =>
      if value.isEmpty then .error (refusal flag value none)
      else .ok { arguments with stdlib := some ⟨value⟩ }

def filePlaceholder (arguments : Arguments) : String :=
  if arguments.command.isSome then "<FILE>" else "[FILE]"

def setFile (arguments : Arguments) (word : String) : Except Stop Arguments :=
  if word.isEmpty then .error (.usage (.missingValue arguments.filePlaceholder))
  else .ok { arguments with file := some ⟨word⟩ }

/-- Takes what is pending. -/
def settle (arguments : Arguments) : Except Stop Arguments :=
  let settled : Arguments := { arguments with pending := none }
  match arguments.pending with
  | none => .ok settled
  | some (.flag flag none) => .error (.usage (.missingValue flag.usage))
  | some (.flag flag (some value)) => settled.setFlag flag value
  | some (.file word) => settled.setFile word

def await (arguments : Arguments) (pending : Pending) : Arguments :=
  { arguments with pending := some pending }

/-- The flag whose value comes next. -/
def waiting? (arguments : Arguments) : Option Flag :=
  match arguments.pending with
  | some (.flag flag none) => some flag
  | _ => none

/-- Whether there is a file, settled or not. -/
def hasFile (arguments : Arguments) : Bool :=
  match arguments.pending with
  | some (.file _) => true
  | _ => arguments.file.isSome

/-- Why there cannot be one more file. Where commands can stand, a word that is much like one is
taken for one. -/
def surplus (arguments : Arguments) (word : String) : Stop :=
  if arguments.command.isNone && !commandWords.contains word &&
      commandWords.any (Likeness.alike word) then .usage (.unknownCommand word)
  else .usage (.unexpected word)

def addFile (arguments : Arguments) (word : String) : Except Stop Arguments :=
  if arguments.hasFile then .error (arguments.surplus word)
  else arguments.settle.map (·.await (.file word))

/-- Settles the arguments in front of a request that ends the reading. -/
def finish (arguments : Arguments) (stop : Stop) : Stop :=
  match arguments.settle with
  | .ok _ => stop
  | .error error => error

/-- Reads a word that starts with `--`. -/
def addFlag (arguments : Arguments) (word : String) : Except Stop Arguments :=
  let (name, value) := splitAssignment word
  match Flag.ofSpelling? arguments.command name with
  | some flag => do
    let arguments ← arguments.settle
    match value with
    | some value => arguments.setFlag flag value
    | none => .ok (arguments.await (.flag flag none))
  | none =>
    if name == "--help" || (name == "--version" && arguments.command.isNone) then
      match value with
      | some value => .error (.usage (.needlessValue name value))
      | none => .error (arguments.finish (if name == "--help" then .help else .version))
    else .error (.usage (.unexpected name))

/-- Reads a word that starts with a single `-`, of which the next letter decides. -/
def addShort (arguments : Arguments) (word : String) : Stop :=
  let short := String.ofList (word.toList.take 2)
  if short == "-h" then arguments.finish .help
  else if short == "-V" && arguments.command.isNone then arguments.finish .version
  else .usage (.unexpected short)

def looksLikeFlag (word : String) : Bool :=
  word.toList.head? == some '-' && word != "-"

/-- Reads a word that may be a flag, the value of one, or a file. -/
def addWord (arguments : Arguments) (word : String) : Except Stop Turn :=
  if word == "--" then .ok (.onward true arguments)
  else if word.toList.take 2 == ['-', '-'] then (arguments.addFlag word).map (.onward false)
  else if looksLikeFlag word then .error (arguments.addShort word)
  else match arguments.waiting? with
    | some flag => .ok (.onward false (arguments.await (.flag flag (some word))))
    | none => (arguments.addFile word).map (.onward false)

/-- Reads a word. It names a command only if none was named yet, and not as the value of a flag. -/
def step (arguments : Arguments) (filesOnly : Bool) (word : String) : Except Stop Turn :=
  if filesOnly then (arguments.addFile word).map (.onward true)
  else if arguments.command.isSome || arguments.waiting?.isSome then arguments.addWord word
  else match CommandName.ofWord? word with
    | some command => .ok (.enter command)
    | none => if word == helpWord then .ok .help else arguments.addWord word

end Arguments

/-- Help can be on one command, and on nothing inside it. -/
def helpOn : List String → Stop
  | [] => .help
  | word :: rest =>
    if commandWords.contains word then
      match rest with
      | [] => .help
      | inner :: _ => .usage (.unknownCommand inner)
    else .usage (.unknownCommand word)

namespace Arguments

/-- Reads words up to the name of a command, if one comes, which is left with the words behind. -/
def readFrom (arguments : Arguments) :
    (filesOnly : Bool) → List String → Except Stop (Arguments × Option (CommandName × List String))
  | _, [] => .ok (arguments, none)
  | filesOnly, word :: rest =>
    match arguments.step filesOnly word with
    | .ok (.onward filesOnly arguments) => readFrom arguments filesOnly rest
    | .ok (.enter command) => .ok (arguments, some (command, rest))
    | .ok .help => .error (helpOn rest)
    | .error stop => .error stop

end Arguments

inductive Request
  | check (file : Path) (packages : List (String × Path)) (stdlib : Option Path)
  | lex (file : Path)
  | parse (file : Path)

/-- A command with the settings for its output. -/
structure Invocation where
  request : Request
  format : DiagnosticFormat
  color : ColorChoice

/-- What settled arguments ask for. A file without a command asks for a check. -/
def Arguments.request (arguments : Arguments) : Except Stop Request :=
  match arguments.command, arguments.file with
  | none, none => .error (.usage .noInput)
  | some _, none => .error (.usage .missingFile)
  | some .lex, some file => .ok (.lex file)
  | some .parse, some file => .ok (.parse file)
  | some .check, some file => .ok (.check file arguments.packages arguments.stdlib)
  | none, some file => .ok (.check file [] none)

/-- The words of a command, read and settled. -/
def Arguments.ofWords (command : CommandName) (words : List String) :
    Except Stop (Arguments × Request) := do
  let (arguments, _) ← readFrom (ofCommand (some command)) false words
  let arguments ← arguments.settle
  let request ← arguments.request
  .ok (arguments, request)

/-- The command that arguments ask for. A setting given with the command counts before one in front
of it. -/
def Invocation.ofArguments (words : List String) : Except Stop Invocation := do
  let (outer, entered) ← Arguments.readFrom (.ofCommand none) false words
  match entered with
  | none =>
    let outer ← outer.settle
    let request ← outer.request
    .ok ⟨request, outer.format.getD .human, outer.color.getD .auto⟩
  | some (command, rest) =>
    let (inner, request) ← Arguments.ofWords command rest
    let outer ← outer.settle
    .ok ⟨request, (inner.format.or outer.format).getD .human,
      (inner.color.or outer.color).getD .auto⟩

end BehaviorTree.CommandLine
