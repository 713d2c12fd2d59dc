import BehaviorTree.Module.Graph
import BehaviorTree.Module.Report
import BehaviorTree.Session

/-!
Loading a program: the entry file and, depth first, every file that it leads to by imports. A file
is read once. An import that leads back to a module whose own imports are still being followed would
close a cycle, so it is reported and not recorded.
-/

namespace BehaviorTree

/-- Where files come from and what packages are called. -/
structure ImportContext where
  system : FileSystem
  packages : Packages

/-- What has been loaded so far. -/
structure Loading where
  session : Session
  graph : ModuleGraph
  /-- The modules whose imports are being followed, outermost first. -/
  path : List Nat

namespace Loading

def initial (directory : Path) : Loading := ⟨.inDirectory directory, .empty, []⟩

def report (state : Loading) (diagnostic : Diagnostic) : Loading :=
  { state with session := state.session.report diagnostic }

/-- The names of the modules on the way from `target` back to itself. -/
def cycleFrom (state : Loading) (target : Nat) : List String :=
  ((state.path.dropWhile (· != target)) ++ [target]).filterMap fun id =>
    (state.graph.get? id).map Module.displayName

/-- Enters a module whose text has been read and starts to follow its imports. -/
def enter (state : Loading) (path : Path) (text : String) : Program × Loading :=
  let (program, session) := state.session.parse path text
  (program,
    { session
      graph := state.graph.insert { Module.ofProgram path program with state := .resolving }
      path := state.path ++ [state.graph.size] })

/-- Ends a module. It failed if an error was reported since there were `errors` of them. -/
def leave (state : Loading) (id errors : Nat) : Loading :=
  let outcome := if errors < state.session.errorCount then ModuleState.failed else .resolved
  { state with graph := state.graph.setState id outcome, path := state.path.dropLast }

/-- A way to load the file at a canonical path. -/
abbrev Loader := Path → Loading → Except SourceError Nat × Loading

/-- Loads the module at a canonical path that an import leads to. -/
def followTo (load : Loader) (request : ImportRequest) (canonical : Path) (state : Loading) :
    Option Nat × Loading :=
  match state.graph.find? canonical with
  | some target =>
    if state.graph.state target = .resolving then
      (none, state.report (ImportReport.cycle request (state.cycleFrom target)))
    else (some target, state)
  | none =>
    match load canonical state with
    | (.ok target, state) => (some target, state)
    | (.error error, state) => (none, state.report (ImportReport.unreadable request error))

/-- Finds and loads what an import leads to, or reports why it leads nowhere. -/
def follow (context : ImportContext) (load : Loader) (directory : Path) (request : ImportRequest)
    (state : Loading) : Option Nat × Loading :=
  match resolveImportPath context.packages directory request.path with
  | .error error => (none, state.report (ImportReport.brokenRule request error))
  | .ok candidate =>
    match context.system.canonical candidate with
    | .error _ => (none, state.report (ImportReport.notFound request candidate))
    | .ok canonical => followTo load request canonical state

/-- Records that the module `id` imports `target`, unless it does so already. -/
def link (state : Loading) (id : Nat) (request : ImportRequest) (target : Nat) : Loading :=
  let known := ((state.graph.get? id).map Module.imports).getD []
  match known.find? fun edge => edge.target == target with
  | some first => state.report (ImportReport.duplicateImport request first.pathRange)
  | none =>
    { state with
      graph := state.graph.addImport id ⟨target, request.path, request.pathRange, request.decl⟩ }

/-- Follows the imports of the module `id` one after another. -/
def followAll (context : ImportContext) (load : Loader) (id : Nat) (directory : Path)
    (requests : List ImportRequest) (state : Loading) : Loading :=
  requests.foldl
    (fun state request =>
      match follow context load directory request state with
      | (some target, state) => state.link id request target
      | (none, state) => state)
    state

/-- Loads the file at a canonical path and what it imports, along at most `depth` imports. -/
def loadUpTo (context : ImportContext) : (depth : Nat) → Loader
  | 0, path, state => (.error ⟨path, .unreadable .notFound⟩, state)
  | depth + 1, path, state =>
    match state.graph.find? path with
    | some id => (.ok id, state)
    | none =>
      match context.system.contents path with
      | .error fault => (.error ⟨path, fault⟩, state)
      | .ok text =>
        let errors := state.session.errorCount
        let id := state.graph.size
        let (program, entered) := state.enter path text
        let followed :=
          followAll context (loadUpTo context depth) id path.parent program.importRequests entered
        (.ok id, followed.leave id errors)

/-- Loads the file at a canonical path and all that it leads to. Each file on the way there is
another one, so there are no more of them than files. -/
def load (context : ImportContext) : Loader := loadUpTo context (context.system.entries.length + 1)

/-- Loads an entry file. There is no module if the file cannot be read. -/
def loadEntry (context : ImportContext) (entry : Path) (state : Loading) : Option Nat × Loading :=
  match context.system.canonical entry with
  | .error fault => (none, state.report (ImportReport.unreadableEntry ⟨entry, .unreadable fault⟩))
  | .ok canonical =>
    match load context canonical state with
    | (.ok id, state) => (some id, state)
    | (.error error, state) => (none, state.report (ImportReport.unreadableEntry error))

end Loading

end BehaviorTree
