import BehaviorTree.Module.Loading
import BehaviorTree.Names.Resolution
import BehaviorTree.Text.Dump

/-!
Compiling a program: loading it from its entry file, looking at its names and, if nothing was found
wrong, running the analyses that were asked for.
-/

namespace BehaviorTree

/-- The package that the standard library is known as. -/
def standardPackage : String := "std"

/-- What an analysis sees: the modules with the meaning of their names, and the entry among them. -/
structure AnalysisContext where
  graph : ModuleGraph
  arena : Arena
  sources : Sources
  entry : Nat

/-- An analysis of a program without errors: whether the next one may run, and its reports. -/
structure Pass where
  name : String
  run : AnalysisContext → Bool × List Diagnostic

/-- Runs passes up to the first one that fails; tells the names of those that ran and their reports. -/
def runPasses (context : AnalysisContext) : List Pass → List String × List Diagnostic
  | [] => ([], [])
  | pass :: rest =>
    let (succeeded, diagnostics) := pass.run context
    if succeeded then
      let (names, others) := runPasses context rest
      (pass.name :: names, diagnostics ++ others)
    else ([pass.name], diagnostics)

structure CompileOptions where
  /-- Package directories in the order in which they are registered. -/
  packages : List (String × Path)
  passes : List Pass

namespace CompileOptions

def default : CompileOptions := ⟨[], []⟩

def withPackage (options : CompileOptions) (name : String) (directory : Path) : CompileOptions :=
  { options with packages := options.packages ++ [(name, directory)] }

def withStandardLibrary (options : CompileOptions) (directory : Path) : CompileOptions :=
  options.withPackage standardPackage directory

def withPass (options : CompileOptions) (pass : Pass) : CompileOptions :=
  { options with passes := options.passes ++ [pass] }

/-- The packages that imports can name. -/
def registered (options : CompileOptions) : Packages :=
  options.packages.foldl (fun packages package => Packages.register packages package.1 package.2)
    .empty

def dump (options : CompileOptions) : Dump :=
  .record "CompileOptions"
    [("packages", .list (options.packages.map fun package =>
        .call "" [.text package.1, .text package.2.text])),
      ("passes", .list (options.passes.map fun pass => .text pass.name))]

end CompileOptions

structure Compilation where
  sources : Sources
  arena : Arena
  graph : ModuleGraph
  entry : Option Nat
  diagnostics : List Diagnostic
  /-- The names of the passes that ran. -/
  passesRun : List String

namespace Compilation

/-- The entry was read and no error was reported. -/
def succeeded (compilation : Compilation) : Bool :=
  compilation.entry.isSome && !Diagnostics.hasErrors compilation.diagnostics

def entryModule? (compilation : Compilation) : Option Module :=
  compilation.entry.bind compilation.graph.get?

/-- Compiles a loaded program that has an entry. -/
def ofEntry (options : CompileOptions) (entry : Nat) (loaded : Loading) : Compilation :=
  let (graph, named) := loaded.graph.resolveNames
  let session := loaded.session.reportAll named
  let (ran, found) :=
    if Diagnostics.hasErrors session.diagnostics then ([], [])
    else runPasses ⟨graph, session.arena, session.sources, entry⟩ options.passes
  { sources := session.sources
    arena := session.arena
    graph
    entry := some entry
    diagnostics := session.diagnostics ++ found
    passesRun := ran }

end Compilation

/-- Compiles the program that starts at `entry`. -/
def compile (system : FileSystem) (directory : Path) (options : CompileOptions) (entry : Path) :
    Compilation :=
  match Loading.loadEntry ⟨system, options.registered⟩ entry (.initial directory) with
  | (some id, loaded) => .ofEntry options id loaded
  | (none, loaded) =>
    { sources := loaded.session.sources
      arena := loaded.session.arena
      graph := loaded.graph
      entry := none
      diagnostics := loaded.session.diagnostics
      passesRun := [] }

end BehaviorTree
