import BehaviorTree.Proofs.Parsing.ProgramsRespect

/-!
# Runs step by step

A run of a parser is a sequence of steps, each of which moves on, enlarges the arena or makes a
report, and each is entered in a log with the position at which it was taken. The positions in a log
never decrease, and the gate lets through one report at each of them, so the positions of gated
reports increase from one to the next. Every parser makes such a run, from whatever state on.
-/

namespace BehaviorTree

/-! ### Places -/

namespace ParserState

variable {s t u : ParserState} {count more : Nat}

/-- The two states are in front of the same tokens, at the same position. -/
structure Beside (s t : ParserState) : Prop where
  file : s.file = t.file
  rest : s.rest = t.rest
  final : s.final = t.final
  position : s.position = t.position
  lastRange : s.lastRange = t.lastRange

theorem Beside.refl (s : ParserState) : s.Beside s := ⟨rfl, rfl, rfl, rfl, rfl⟩

theorem Beside.trans (h : s.Beside t) (hnext : t.Beside u) : s.Beside u :=
  ⟨h.file.trans hnext.file, h.rest.trans hnext.rest, h.final.trans hnext.final,
    h.position.trans hnext.position, h.lastRange.trans hnext.lastRange⟩

theorem Beside.current (h : s.Beside t) : s.current = t.current := by
  unfold ParserState.current tokenAt
  rw [h.rest, h.final]

theorem Beside.skip (h : s.Beside t) (count : Nat) : (s.skip count).Beside (t.skip count) where
  file := h.file
  rest := congrArg (List.drop count) h.rest
  final := h.final
  position := congrArg (· + count) h.position
  lastRange := by
    unfold ParserState.skip
    rw [h.rest, h.lastRange]

theorem Beside.passes (h : s.Beside t) (hpasses : s.Passes count) : t.Passes count := by
  unfold Passes at hpasses ⊢
  rw [← h.rest]
  exact hpasses

theorem beside_withArena (s : ParserState) (later : Arena) :
    { s with arena := later }.Beside s := ⟨rfl, rfl, rfl, rfl, rfl⟩

theorem beside_report (s : ParserState) (diagnostic : Diagnostic) :
    (s.report diagnostic).Beside s := ⟨rfl, rfl, rfl, rfl, rfl⟩

theorem beside_reportOnce (s : ParserState) (diagnostic : Diagnostic) :
    (s.reportOnce diagnostic).Beside s := by
  unfold reportOnce
  split
  · exact .refl s
  · exact ⟨rfl, rfl, rfl, rfl, rfl⟩

theorem passes_zero (s : ParserState) : s.Passes 0 := fun _ h => by simp at h

theorem skip_skip (s : ParserState) (count more : Nat) :
    (s.skip count).skip more = s.skip (count + more) := by
  unfold skip
  simp only [List.drop_drop, Nat.add_assoc, List.take_add, List.getLast?_append]
  congr 1
  cases ((s.rest.drop count).take more).getLast? with
  | none => rfl
  | some token => rfl

theorem Passes.add (h : s.Passes count) (hmore : (s.skip count).Passes more) :
    s.Passes (count + more) := by
  intro token htoken
  rw [List.take_add] at htoken
  rcases List.mem_append.mp htoken with hfirst | hlater
  · exact h token hfirst
  · exact hmore token hlater

/-- What passes no end of the file leaves one to come. -/
theorem Passes.lt_length (h : s.Passes count) (hend : ∃ token ∈ s.rest, token.isEndOfFile = true) :
    count < s.rest.length := by
  obtain ⟨token, htoken, hended⟩ := hend
  by_contra hle
  rw [Passes, List.take_of_length_le (Nat.not_lt.mp hle)] at h
  exact absurd hended (by simp [h token htoken])

end ParserState

theorem SyntaxReport.Gated.beside {s t : ParserState} {diagnostic : Diagnostic}
    (h : Gated s diagnostic) (hplace : s.Beside t) : Gated t diagnostic := by
  cases h with
  | expected what =>
      rw [hplace.current]
      exact .expected what
  | expectedWithHelp what help =>
      rw [hplace.current]
      exact .expectedWithHelp what help
  | missing what context =>
      rw [hplace.current]
      exact .missing what context
  | missingAtLineEnd what context insertion =>
      rw [hplace.file, hplace.lastRange]
      exact .missingAtLineEnd what context insertion
  | unclosedBlock opening =>
      rw [hplace.current]
      exact .unclosedBlock opening
  | foreignWord word =>
      rw [hplace.current]
      exact .foreignWord word

namespace Parser

open SyntaxReport

/-! ### Logs -/

/-- What a parser does in a step. -/
inductive Act
  | move
  | build
  | report (gated : Bool) (diagnostic : Diagnostic)

def Act.report? : Act → Option Diagnostic
  | .report _ diagnostic => some diagnostic
  | _ => none

def Act.isGated : Act → Bool
  | .report gated _ => gated
  | _ => false

/-- A step and the position of the parser when it was taken. -/
structure Step where
  position : Nat
  act : Act

/-- The reports of a log. -/
def reports (log : List Step) : List Diagnostic := log.filterMap fun step => step.act.report?

/-- The positions of the gated reports of a log. -/
def gatedPositions (log : List Step) : List Nat :=
  (log.filter fun step => step.act.isGated).map Step.position

/-- The parser gets from the first state to the last in the steps of the log. -/
inductive Run (start : ParserState) : List Step → ParserState → Prop
  | nothing : Run start [] start
  | move {log : List Step} {s : ParserState} {count : Nat} :
      Run start log s → s.Passes count → Run start (log ++ [⟨s.position, .move⟩]) (s.skip count)
  | build {log : List Step} {s : ParserState} {later : Arena} :
      Run start log s → Run start (log ++ [⟨s.position, .build⟩]) { s with arena := later }
  | report {log : List Step} {s : ParserState} {diagnostic : Diagnostic} :
      Run start log s → Ungated diagnostic →
        Run start (log ++ [⟨s.position, .report false diagnostic⟩]) (s.report diagnostic)
  | reportOnce {log : List Step} {s : ParserState} {diagnostic : Diagnostic} :
      Run start log s → Gated s diagnostic → s.reportedAt ≠ some s.position →
        Run start (log ++ [⟨s.position, .report true diagnostic⟩]) (s.reportOnce diagnostic)

variable {start s t : ParserState} {log log' : List Step}

/-! ### Positions -/

/-- The positions of a run in order: where it starts, those of its steps, and where it ends. -/
def path (start : ParserState) (log : List Step) (s : ParserState) : List Nat :=
  (start.position :: log.map Step.position) ++ [s.position]

theorem pairwise_le_snoc {positions : List Nat} {position next : Nat}
    (h : (positions ++ [position]).Pairwise (· ≤ ·)) (hle : position ≤ next) :
    (positions ++ [position] ++ [next]).Pairwise (· ≤ ·) := by
  refine List.pairwise_append.mpr ⟨h, List.pairwise_singleton _ _, fun earlier hearlier last hlast => ?_⟩
  rw [List.mem_singleton] at hlast
  subst hlast
  rcases List.mem_append.mp hearlier with hbefore | hhere
  · exact Nat.le_trans ((List.pairwise_append.mp h).2.2 earlier hbefore position (by simp)) hle
  · exact List.mem_singleton.mp hhere ▸ hle

/-- **A parser never moves back.** -/
theorem Run.monotone (h : Run start log s) : (path start log s).Pairwise (· ≤ ·) := by
  have hstep : ∀ {log : List Step} {s : ParserState} {act : Act} {next : Nat},
      (path start log s).Pairwise (· ≤ ·) → s.position ≤ next →
        ((start.position :: (log ++ [Step.mk s.position act]).map Step.position) ++ [next]).Pairwise
          (· ≤ ·) := by
    intro log s act next hpath hle
    rw [List.map_append, List.map_singleton, ← List.cons_append]
    exact pairwise_le_snoc hpath hle
  induction h with
  | nothing => simp [path]
  | move _ _ ih => exact hstep ih (Nat.le_add_right _ _)
  | build _ ih => exact hstep ih (Nat.le_refl _)
  | report _ _ ih => exact hstep ih (Nat.le_refl _)
  | @reportOnce _ s diagnostic _ _ _ ih =>
      exact hstep ih (Nat.le_of_eq (s.position_reportOnce diagnostic).symm)

/-- A run ends in front of some of the tokens that it started in front of. -/
theorem Run.skipped (h : Run start log s) :
    ∃ count, start.Passes count ∧ s.Beside (start.skip count) := by
  induction h with
  | nothing => exact ⟨0, start.passes_zero, .refl start⟩
  | @move _ s more _ hpasses ih =>
      obtain ⟨count, hcount, hplace⟩ := ih
      refine ⟨count + more, hcount.add (hplace.passes hpasses), ?_⟩
      rw [← start.skip_skip]
      exact hplace.skip more
  | @build _ s later _ ih =>
      obtain ⟨count, hcount, hplace⟩ := ih
      exact ⟨count, hcount, (s.beside_withArena later).trans hplace⟩
  | @report _ s diagnostic _ _ ih =>
      obtain ⟨count, hcount, hplace⟩ := ih
      exact ⟨count, hcount, (s.beside_report diagnostic).trans hplace⟩
  | @reportOnce _ s diagnostic _ _ _ ih =>
      obtain ⟨count, hcount, hplace⟩ := ih
      exact ⟨count, hcount, (s.beside_reportOnce diagnostic).trans hplace⟩

/-- The step is taken where a number of tokens have been consumed. A gated report is about the token
behind these, and what else is reported is ungated. -/
def Step.Fits (start : ParserState) (step : Step) : Prop :=
  ∃ count, start.Passes count ∧ step.position = start.position + count ∧
    ∀ gated diagnostic, step.act = .report gated diagnostic →
      (gated = true ∧ Gated (start.skip count) diagnostic) ∨ (gated = false ∧ Ungated diagnostic)

theorem Run.fits (h : Run start log s) : ∀ step ∈ log, step.Fits start := by
  have hmore : ∀ {log : List Step} {step : Step}, (∀ step ∈ log, step.Fits start) →
      step.Fits start → ∀ other ∈ log ++ [step], other.Fits start := by
    intro log step hlog hstep other hother
    rcases List.mem_append.mp hother with hold | hnew
    · exact hlog other hold
    · exact List.mem_singleton.mp hnew ▸ hstep
  induction h with
  | nothing => exact fun _ h => by cases h
  | move hrun _ ih =>
      obtain ⟨count, hcount, hplace⟩ := hrun.skipped
      exact hmore ih ⟨count, hcount, hplace.position, fun _ _ h => by cases h⟩
  | build hrun ih =>
      obtain ⟨count, hcount, hplace⟩ := hrun.skipped
      exact hmore ih ⟨count, hcount, hplace.position, fun _ _ h => by cases h⟩
  | report hrun hungated ih =>
      obtain ⟨count, hcount, hplace⟩ := hrun.skipped
      refine hmore ih ⟨count, hcount, hplace.position, fun gated diagnostic h => ?_⟩
      obtain ⟨rfl, rfl⟩ := Act.report.inj h
      exact .inr ⟨rfl, hungated⟩
  | reportOnce hrun hgated _ ih =>
      obtain ⟨count, hcount, hplace⟩ := hrun.skipped
      refine hmore ih ⟨count, hcount, hplace.position, fun gated diagnostic h => ?_⟩
      obtain ⟨rfl, rfl⟩ := Act.report.inj h
      exact .inl ⟨rfl, hgated.beside hplace⟩

/-! ### Reports -/

theorem Run.diagnostics (h : Run start log s) :
    s.diagnostics = start.diagnostics ++ reports log := by
  induction h with
  | nothing => exact (List.append_nil _).symm
  | move _ _ ih => simpa [reports, Act.report?, ParserState.skip] using ih
  | build _ ih => simpa [reports, Act.report?] using ih
  | report _ _ ih => simp [reports, Act.report?, ParserState.report, ih]
  | reportOnce _ _ hopen ih =>
      simp [reports, Act.report?, ParserState.reportOnce, ParserState.report, hopen, ih]

/-- **One gated report for each position.** The state remembers the last of them. -/
theorem Run.gated (h : Run start log s) : (gatedPositions log).Pairwise (· < ·) ∧
    ∀ position ∈ gatedPositions log,
      position ≤ s.position ∧ (position = s.position → s.reportedAt = some s.position) := by
  have hsame : ∀ (log : List Step) (step : Step), step.act.isGated = false →
      gatedPositions (log ++ [step]) = gatedPositions log := by
    intro log step hstep
    simp [gatedPositions, hstep]
  induction h with
  | nothing => exact ⟨.nil, fun _ h => by cases h⟩
  | @move _ s count _ _ ih =>
      rw [hsame _ _ rfl]
      refine ⟨ih.1, fun position hposition => ?_⟩
      obtain ⟨hle, hlast⟩ := ih.2 position hposition
      refine ⟨Nat.le_add_right_of_le hle, fun heq => ?_⟩
      -- The run is still at the position of a report only if it has not moved.
      have hcount : count = 0 := by
        have : position = s.position + count := heq
        omega
      subst hcount
      exact hlast heq
  | build _ ih =>
      rw [hsame _ _ rfl]
      exact ih
  | report _ _ ih =>
      rw [hsame _ _ rfl]
      exact ih
  | @reportOnce log s diagnostic _ _ hopen ih =>
      have hlast : (s.reportOnce diagnostic).reportedAt = some s.position := by
        simp [ParserState.reportOnce, hopen]
      have hbefore : ∀ position ∈ gatedPositions log, position < s.position := by
        intro position hposition
        obtain ⟨hle, hlast⟩ := ih.2 position hposition
        exact Nat.lt_of_le_of_ne hle fun heq => hopen (hlast heq)
      have hlog : gatedPositions (log ++ [⟨s.position, .report true diagnostic⟩]) =
          gatedPositions log ++ [s.position] := by
        simp [gatedPositions, Act.isGated]
      rw [hlog, s.position_reportOnce, hlast]
      constructor
      · refine List.pairwise_append.mpr ⟨ih.1, List.pairwise_singleton _ _, ?_⟩
        intro position hposition last hmem
        rw [List.mem_singleton] at hmem
        exact hmem ▸ hbefore position hposition
      · intro position hposition
        rcases List.mem_append.mp hposition with hold | hnew
        · exact ⟨Nat.le_of_lt (hbefore position hold), fun _ => rfl⟩
        · exact ⟨Nat.le_of_eq (List.mem_singleton.mp hnew), fun _ => rfl⟩

/-! ### Every parser makes a run -/

/-- An invariant that is about states only. -/
def Invariant.ofStates (holds : ParserState → Prop)
    (skip : ∀ {s : ParserState} {count : Nat}, holds s → s.Passes count → holds (s.skip count))
    (report : ∀ {s : ParserState} {diagnostic : Diagnostic}, holds s → Ungated diagnostic →
      holds (s.report diagnostic))
    (reportOnce : ∀ {s : ParserState} {diagnostic : Diagnostic}, holds s → Gated s diagnostic →
      holds (s.reportOnce diagnostic))
    (withArena : ∀ {s : ParserState} {later : Arena}, holds s → holds { s with arena := later }) :
    Invariant where
  state := holds
  good _ := True
  token _ _ := ⟨trivial, trivial⟩
  merge _ _ := trivial
  since _ _ := trivial
  here _ := trivial
  behind _ := trivial
  whole _ := trivial
  skip := skip
  report h hungated _ := report h hungated
  reportOnce h hgated _ := reportOnce h hgated
  withArena h _ := withArena h

/-- A run has led from the first state to the second. -/
def Reached (start s : ParserState) : Prop := ∃ log, Run start log s

theorem Reached.skip {count : Nat} (h : Reached start s) (hpasses : s.Passes count) :
    Reached start (s.skip count) := by
  obtain ⟨log, hrun⟩ := h
  exact ⟨_, hrun.move hpasses⟩

theorem Reached.report {diagnostic : Diagnostic} (h : Reached start s)
    (hungated : Ungated diagnostic) : Reached start (s.report diagnostic) := by
  obtain ⟨log, hrun⟩ := h
  exact ⟨_, hrun.report hungated⟩

theorem Reached.reportOnce {diagnostic : Diagnostic} (h : Reached start s)
    (hgated : Gated s diagnostic) : Reached start (s.reportOnce diagnostic) := by
  by_cases hopen : s.reportedAt = some s.position
  · rw [ParserState.reportOnce, if_pos hopen]
    exact h
  · obtain ⟨log, hrun⟩ := h
    exact ⟨_, hrun.reportOnce hgated hopen⟩

theorem Reached.withArena {later : Arena} (h : Reached start s) :
    Reached start { s with arena := later } := by
  obtain ⟨log, hrun⟩ := h
  exact ⟨_, hrun.build⟩

/-- The states that a run gets to. -/
def Invariant.reached (start : ParserState) : Invariant :=
  .ofStates (Reached start) Reached.skip Reached.report Reached.reportOnce Reached.withArena

/-- What respects every invariant makes a run from every state on. -/
theorem reached_of_respects {α : Type} [Marked α] {p : Parser α} (hp : ∀ inv, Respects inv p)
    (s : ParserState) : Reached s (p s).2 :=
  (hp (.reached s) s ⟨[], .nothing⟩).2

end Parser

end BehaviorTree
