import BehaviorTree.CommandLine.Command
import BehaviorTree.Proofs.Module.Built
import BehaviorTree.Proofs.Module.Loading

/-!
# Stages of a check

Lexing, parsing and checking a file report more from one stage to the next, and what an earlier stage
reports stays as it is. The commands for the stages go different ways: `lex` and `parse` read one file
by itself, `check` loads it with all that it imports. On either way reports are only ever appended.
-/

namespace BehaviorTree

namespace Diagnostics

theorem hasErrors_of_prefix {earlier later : List Diagnostic} (hgrown : earlier <+: later)
    (herrors : hasErrors earlier = true) : hasErrors later = true := by
  obtain ⟨more, rfl⟩ := hgrown
  unfold hasErrors at herrors ⊢
  rw [List.any_append, herrors, Bool.true_or]

theorem hasErrors_eq_false_iff {diagnostics : List Diagnostic} :
    hasErrors diagnostics = false ↔ ∀ diagnostic ∈ diagnostics, diagnostic.isError = false := by
  simp [hasErrors]

end Diagnostics

/-! ### Loading -/

namespace Loading

variable {context : ImportContext} {state : Loading} {entry path : Path}
  {text : String}

/-- Nothing is taken back that was reported before. -/
def Appends (before after : Loading) : Prop :=
  before.session.diagnostics <+: after.session.diagnostics

theorem Appends.refl (state : Loading) : Appends state state := List.prefix_rfl

theorem Appends.trans {before middle after : Loading} (hfirst : Appends before middle)
    (hsecond : Appends middle after) : Appends before after :=
  List.IsPrefix.trans hfirst hsecond

theorem Appends.report (state : Loading) (diagnostic : Diagnostic) :
    Appends state (state.report diagnostic) :=
  List.prefix_append _ _

theorem Appends.link (state : Loading) (id : Nat) (request : ImportRequest) (target : Nat) :
    Appends state (state.link id request target) := by
  unfold Loading.link
  dsimp only
  split
  · exact .report _ _
  · exact .refl _

/-- Each step of loading appends to what was reported before. -/
theorem kept_appends (start : Loading) : Kept (Appends start) where
  report := fun hstate _ _ _ => hstate.trans (.report _ _)
  enter := fun _ hstate _ => hstate.trans (List.prefix_append _ _)
  link := fun id target hstate _ _ => hstate.trans (.link _ id _ target)
  leave := fun _ _ hstate => hstate

/-- A module that is not there yet is read, and then its imports are followed. -/
theorem loadUpTo_succ (depth : Nat) (hfind : state.graph.find? path = none)
    (hcontents : context.system.contents path = .ok text) :
    loadUpTo context (depth + 1) path state =
      (.ok state.graph.size,
        (followAll context (loadUpTo context depth) state.graph.size path.parent
          (state.enter path text).1.importRequests (state.enter path text).2).leave
          state.graph.size state.session.errorCount) := by
  rw [loadUpTo, hfind]
  dsimp only
  rw [hcontents]

/-- The first reports of a fresh session are those on the text of its entry file. -/
theorem loadEntry_of_contents (context : ImportContext) (directory : Path)
    (hcanonical : context.system.canonical entry = .ok path)
    (hcontents : context.system.contents path = .ok text) :
    ∃ loaded, loadEntry context entry (.initial directory) = (some 0, loaded) ∧
      (Parsed.ofText (.registered 0) text .empty).diagnostics <+: loaded.session.diagnostics := by
  have hempty : (Loading.initial directory).graph.find? path = none := rfl
  have hrun := loadUpTo_succ context.system.entries.length hempty hcontents
  unfold loadEntry
  rw [hcanonical]
  dsimp only
  rw [load, hrun]
  refine ⟨_, rfl, ?_⟩
  have hfollowed : Appends ((Loading.initial directory).enter path text).2
      (followAll context (loadUpTo context context.system.entries.length) 0 path.parent
        ((Loading.initial directory).enter path text).1.importRequests
        ((Loading.initial directory).enter path text).2) :=
    (kept_appends _).followEntered (fun _ hkept _ _ hstate => hkept.loadUpTo _ hstate) hempty text
      (.refl _)
  exact hfollowed

end Loading

/-! ### Compiling -/

/-- Looking at the names and running the analyses takes back nothing that loading reported. -/
theorem Compilation.prefix_ofEntry (options : CompileOptions) (entry : Nat) (loaded : Loading) :
    loaded.session.diagnostics <+: (Compilation.ofEntry options entry loaded).diagnostics :=
  (List.prefix_append _ _).trans (List.prefix_append _ _)

theorem compile_of_contents {system : FileSystem} {entry path : Path} {text : String}
    (directory : Path) (options : CompileOptions) (hcanonical : system.canonical entry = .ok path)
    (hcontents : system.contents path = .ok text) :
    (compile system directory options entry).entry = some 0 ∧
      (Parsed.ofText (.registered 0) text .empty).diagnostics <+:
        (compile system directory options entry).diagnostics := by
  obtain ⟨loaded, hloaded, hreports⟩ := Loading.loadEntry_of_contents
    ⟨system, options.registered⟩ directory hcanonical hcontents
  have hcompile : compile system directory options entry = .ofEntry options 0 loaded := by
    unfold compile
    rw [hloaded]
  rw [hcompile]
  exact ⟨rfl, hreports.trans (Compilation.prefix_ofEntry options 0 loaded)⟩

/-- A file that can be read has a canonical path with a text. -/
theorem FileSystem.contents_of_readSource {system : FileSystem} {file : Path} {text : String}
    (hread : system.readSource file = .ok text) :
    ∃ path, system.canonical file = .ok path ∧ system.contents path = .ok text := by
  unfold readSource at hread
  cases hopened : system.opened file with
  | error fault =>
      rw [hopened] at hread
      cases hread
  | ok path =>
      rw [hopened] at hread
      have hcanonical : system.canonical file = .ok path := by
        unfold opened at hopened
        split at hopened
        · cases hopened
        · split at hopened
          · cases hopened
          · exact hopened
      refine ⟨path, hcanonical, ?_⟩
      cases hcontents : system.contents path with
      | error fault => simp [hcontents] at hread
      | ok found => simpa [hcontents] using hread

/-! ### Commands -/

namespace CommandLine

/-- The outcome shows the diagnostics in the chosen format, and it is a failure just if one of them
is an error. -/
structure Setting.Shows (setting : Setting) (outcome : Outcome) (diagnostics : List Diagnostic)
    (sources : Sources) : Prop where
  text : ∃ before after, outcome.output ++ outcome.errors =
    before ++ setting.diagnosticsText diagnostics sources ++ after
  exitCode : outcome.exitCode =
    if Diagnostics.hasErrors diagnostics then exitFailure else exitSuccess

variable {setting : Setting} {outcome : Outcome} {earlier later : Outcome}
  {diagnostics first second : List Diagnostic} {sources sources' : Sources}

theorem Setting.Shows.dumped (dump : String) (diagnostics : List Diagnostic) (sources : Sources) :
    setting.Shows (setting.dumped dump diagnostics sources) diagnostics sources where
  text := ⟨dump, "", by simp [Setting.dumped]⟩
  exitCode := rfl

theorem Setting.Shows.fails_iff (hshows : setting.Shows outcome diagnostics sources) :
    outcome.exitCode = exitFailure ↔ Diagnostics.hasErrors diagnostics = true := by
  rw [hshows.exitCode]
  cases Diagnostics.hasErrors diagnostics <;> decide

theorem Setting.Shows.succeeds_iff (hshows : setting.Shows outcome diagnostics sources) :
    outcome.exitCode = exitSuccess ↔ ∀ diagnostic ∈ diagnostics, diagnostic.isError = false := by
  rw [hshows.exitCode, ← Diagnostics.hasErrors_eq_false_iff]
  cases Diagnostics.hasErrors diagnostics <;> decide

/-- Where the one stage fails, the other one does that reports no less. -/
theorem Setting.Shows.fails (hearlier : setting.Shows earlier first sources)
    (hlater : setting.Shows later second sources') (hgrown : first <+: second)
    (hfails : earlier.exitCode = exitFailure) : later.exitCode = exitFailure :=
  hlater.fails_iff.mpr (Diagnostics.hasErrors_of_prefix hgrown (hearlier.fails_iff.mp hfails))

theorem Setting.Shows.check (setting : Setting) (file : Path) (options : CompileOptions)
    (hentry : (compile setting.system setting.directory options file).entry.isSome = true) :
    setting.Shows (checkCommand setting file options)
      (compile setting.system setting.directory options file).diagnostics
      (compile setting.system setting.directory options file).sources where
  text := by
    unfold checkCommand
    dsimp only
    split
    · exact ⟨"", _, by rw [String.empty_append]⟩
    · refine ⟨entryWarning file ++ String.join (options.packages.map (packageWarning setting.system)),
        summary (compile setting.system setting.directory options file), ?_⟩
      rw [String.empty_append]
  exitCode := by
    have hcode : (checkCommand setting file options).exitCode =
        if (compile setting.system setting.directory options file).succeeded then exitSuccess
        else exitFailure := by
      unfold checkCommand
      dsimp only
      split <;> rfl
    rw [hcode, Compilation.succeeded, hentry, Bool.true_and]
    cases Diagnostics.hasErrors (compile setting.system setting.directory options file).diagnostics <;>
      rfl

/-- **The commands agree.** Of a file that can be read, the diagnostics that `lex` shows are the first
of those that `parse` shows, and these are the first of those that `check` shows, whatever packages
are known. So what fails at one stage fails at the later ones, and `check` succeeds just if there is
no error among its diagnostics. -/
theorem commands_agree (setting : Setting) (file : Path) (options : CompileOptions) {text : String}
    (hread : setting.system.readSource file = .ok text) :
    let sources := (Sources.inDirectory setting.directory).add file text
    let lexed := (TokenStream.ofText soleFile text).diagnostics
    let parsed := (Parsed.ofText soleFile text .empty).diagnostics
    let compiled := compile setting.system setting.directory options file
    setting.Shows (lexCommand setting file) lexed sources ∧
      setting.Shows (parseCommand setting file) parsed sources ∧
      setting.Shows (checkCommand setting file options) compiled.diagnostics compiled.sources ∧
      lexed <+: parsed ∧ parsed <+: compiled.diagnostics ∧
      ((lexCommand setting file).exitCode = exitFailure →
        (parseCommand setting file).exitCode = exitFailure) ∧
      ((parseCommand setting file).exitCode = exitFailure →
        (checkCommand setting file options).exitCode = exitFailure) ∧
      ((checkCommand setting file options).exitCode = exitSuccess ↔
        ∀ diagnostic ∈ compiled.diagnostics, diagnostic.isError = false) := by
  intro sources lexed parsed compiled
  obtain ⟨path, hcanonical, hcontents⟩ := FileSystem.contents_of_readSource hread
  obtain ⟨hentry, hcompiled⟩ := compile_of_contents setting.directory options hcanonical hcontents
  have hlex : setting.Shows (lexCommand setting file) lexed sources := by
    unfold lexCommand Setting.withFile
    rw [hread]
    exact .dumped _ _ _
  have hparse : setting.Shows (parseCommand setting file) parsed sources := by
    unfold parseCommand Setting.withFile
    rw [hread]
    exact .dumped _ _ _
  have hcheck : setting.Shows (checkCommand setting file options) compiled.diagnostics
      compiled.sources :=
    .check setting file options (by rw [hentry]; rfl)
  have hlexed : lexed <+: parsed := List.prefix_append _ _
  exact ⟨hlex, hparse, hcheck, hlexed, hcompiled, hlex.fails hparse hlexed,
    hparse.fails hcheck hcompiled, hcheck.succeeds_iff⟩

/-- A stray character, a declaration without a name and an import that leads nowhere. -/
def threeFaults : String := "import \"./lost.bt\"; $ tree"

def faultyFile : Setting :=
  ⟨Loading.rootFiles [("main.bt", threeFaults)], ⟨"/"⟩, .human, false, .plain⟩

theorem commands_agree_of_faultyFile :
    let lexed := (TokenStream.ofText soleFile threeFaults).diagnostics
    let parsed := (Parsed.ofText soleFile threeFaults .empty).diagnostics
    let compiled := compile faultyFile.system faultyFile.directory .default ⟨"main.bt"⟩
    faultyFile.system.readSource ⟨"main.bt"⟩ = .ok threeFaults ∧
      lexed.length < parsed.length ∧ parsed.length < compiled.diagnostics.length ∧
      lexed <+: parsed ∧ parsed <+: compiled.diagnostics ∧
      (lexCommand faultyFile ⟨"main.bt"⟩).exitCode = exitFailure ∧
      (parseCommand faultyFile ⟨"main.bt"⟩).exitCode = exitFailure ∧
      (checkCommand faultyFile ⟨"main.bt"⟩ .default).exitCode = exitFailure := by
  intro lexed parsed compiled
  have hread : faultyFile.system.readSource ⟨"main.bt"⟩ = .ok threeFaults := by decide +kernel
  have hfails : (lexCommand faultyFile ⟨"main.bt"⟩).exitCode = exitFailure := by decide +kernel
  have hmore : lexed.length < parsed.length := by decide +kernel
  have hmost : parsed.length < compiled.diagnostics.length := by decide +kernel
  obtain ⟨-, -, -, hlexed, hparsed, hlex, hparse, -⟩ :=
    commands_agree faultyFile ⟨"main.bt"⟩ .default hread
  exact ⟨hread, hmore, hmost, hlexed, hparsed, hfails, hlex hfails, hparse (hlex hfails)⟩

end CommandLine

end BehaviorTree
