import BehaviorTree.CommandLine.Arguments
import BehaviorTree.Compilation
import BehaviorTree.Diagnostic.Graphic
import BehaviorTree.Diagnostic.Printer
import BehaviorTree.Diagnostic.Record
import BehaviorTree.Program.Dump
import BehaviorTree.Token.Dump

/-!
The commands. `check` compiles a program and tells how many modules are in order or how many errors
there are; `lex` and `parse` read one file and dump its tokens or its program. A command fails if an
error was reported.

What commands write is a text for either output. That writing it can fail is left out, and so are the
log lines below a warning.
-/

namespace BehaviorTree.CommandLine

/-- What a command leaves: the text on either output and the exit code. -/
structure Outcome where
  exitCode : Nat
  output : String
  errors : String
  deriving DecidableEq

def exitSuccess : Nat := 0

def exitFailure : Nat := 1

def exitUsage : Nat := 2

/-- Where commands run and how they write. The display draws the diagnostics in the `fancy` format. -/
structure Setting where
  system : FileSystem
  directory : Path
  format : DiagnosticFormat
  color : Bool
  display : GraphicDisplay

/-- The text of all diagnostics in the chosen format. -/
def Setting.diagnosticsText (setting : Setting) (diagnostics : List Diagnostic)
    (sources : Sources) : String :=
  match setting.format with
  | .json => Diagnostics.toJsonText diagnostics sources ++ "\n"
  | .human => Diagnostics.render diagnostics sources setting.color
  | .fancy => setting.display.render diagnostics sources setting.color

/-- The outcome of a command that dumps something besides its diagnostics. -/
def Setting.dumped (setting : Setting) (dump : String) (diagnostics : List Diagnostic)
    (sources : Sources) : Outcome where
  exitCode := if Diagnostics.hasErrors diagnostics then exitFailure else exitSuccess
  output := dump
  errors := setting.diagnosticsText diagnostics sources

/-- Runs a command on the text of one file. -/
def Setting.withFile (setting : Setting) (file : Path) (run : String → Sources → Outcome) :
    Outcome :=
  match setting.system.readSource file with
  | .ok text => run text ((Sources.inDirectory setting.directory).add file text)
  | .error error => ⟨exitFailure, "", "error: " ++ error.message ++ "\n"⟩

/-- The only file that is read. -/
def soleFile : FileId := .registered 0

def lexCommand (setting : Setting) (file : Path) : Outcome :=
  setting.withFile file fun text sources =>
    let stream := TokenStream.ofText soleFile text
    setting.dumped (Token.dumpLines stream.tokens sources) stream.diagnostics sources

def parseCommand (setting : Setting) (file : Path) : Outcome :=
  setting.withFile file fun text sources =>
    let parsed := Parsed.ofText soleFile text .empty
    setting.dumped (parsed.program.dumpText parsed.arena) parsed.diagnostics sources

/-- A character of a warning. Those that command a terminal are written by their number. -/
def warningChar (c : Char) : List Char :=
  if c = '\x1b' then "\\x1b".toList
  else if c = '\x07' then "\\x07".toList
  else if c = '\x08' then "\\x08".toList
  else if c = '\x0c' then "\\x0c".toList
  else if c = '\x7f' then "\\x7f".toList
  else if 0x80 ≤ c.toNat && c.toNat < 0xA0 then
    ['\\', 'u', '\x7b'] ++ Nat.toDigits 16 c.toNat ++ ['\x7d']
  else [c]

def warningLine (message : String) : String :=
  "WARN: " ++ String.ofList (message.toList.flatMap warningChar) ++ "\n"

def entryWarning (entry : Path) : String :=
  if entry.extension? == some sourceExtension then ""
  else warningLine ("entry file " ++ entry.text ++ " does not have the ." ++ sourceExtension ++
    " extension")

def packageWarning (system : FileSystem) (package : String × Path) : String :=
  if system.isDirectory package.2 then ""
  else warningLine ("package " ++ quoted package.1 ++ " root " ++ package.2.text ++
    " is not a directory")

/-- A count with a noun in the number that fits. -/
def counted (count : Nat) (noun : String) : String :=
  toString count ++ " " ++ noun ++ (if count = 1 then "" else "s")

def warningCountText (count : Nat) : String :=
  if count = 0 then "" else ", " ++ counted count "warning"

def summary (result : Compilation) : String :=
  let warnings := warningCountText (Diagnostics.warningCount result.diagnostics)
  if result.succeeded then "✓ checked " ++ counted result.graph.size "module" ++ warnings ++ "\n"
  else "✗ " ++ counted (Diagnostics.errorCount result.diagnostics) "error" ++ warnings ++ "\n"

def checkOptions (packages : List (String × Path)) (stdlib : Option Path) : CompileOptions :=
  let options := CompileOptions.mk packages []
  match stdlib with
  | some directory => options.withStandardLibrary directory
  | none => options

def checkCommand (setting : Setting) (file : Path) (options : CompileOptions) : Outcome :=
  let warnings := entryWarning file ++
    String.join (options.packages.map (packageWarning setting.system))
  let result := compile setting.system setting.directory options file
  let text := setting.diagnosticsText result.diagnostics result.sources
  let exitCode := if result.succeeded then exitSuccess else exitFailure
  if setting.format = .json then ⟨exitCode, text, warnings⟩
  else ⟨exitCode, "", warnings ++ text ++ summary result⟩

def Invocation.run (invocation : Invocation) (display : GraphicDisplay) (system : FileSystem)
    (directory : Path) (colorByDefault : Bool) : Outcome :=
  let setting : Setting :=
    ⟨system, directory, invocation.format, invocation.color.enabled colorByDefault, display⟩
  match invocation.request with
  | .check file packages stdlib => checkCommand setting file (checkOptions packages stdlib)
  | .lex file => lexCommand setting file
  | .parse file => parseCommand setting file

def helpText : String :=
  "Check BT-DSL behavior tree programs\n\n" ++
  "Usage: " ++ programName ++ " [OPTIONS] [FILE]\n" ++
  "       " ++ programName ++ " [OPTIONS] <check|lex|parse> <FILE>\n\n" ++
  "Options:\n" ++
  String.join (Flag.all.map fun flag => "  " ++ flag.usage ++ "\n")

def Stop.outcome : Stop → Outcome
  | version => ⟨exitSuccess, programName ++ " " ++ CommandLine.version ++ "\n", ""⟩
  | help => ⟨exitSuccess, helpText, ""⟩
  | usage error => ⟨exitUsage, "", error.message ++ "\n"⟩

/-- Reads arguments and runs the command that they ask for. -/
def runWith (display : GraphicDisplay) (system : FileSystem) (directory : Path)
    (colorByDefault : Bool) (words : List String) : Outcome :=
  match Invocation.ofArguments words with
  | .ok invocation => invocation.run display system directory colorByDefault
  | .error stop => stop.outcome

/-- The program where nothing can be drawn. -/
def run (system : FileSystem) (directory : Path) (colorByDefault : Bool) (words : List String) :
    Outcome :=
  runWith .plain system directory colorByDefault words

end BehaviorTree.CommandLine
