import BehaviorTree.Proofs.Parsing.Acceptance
import BehaviorTree.Proofs.Parsing.Enough
import BehaviorTree.Proofs.Parsing.Reflow

/-!
# Acceptance anywhere

Acceptance is about states in which all tokens stand on one line. A parser that looks at neither line
breaks nor earlier reports as long as nothing is wrong accepts the same terminals from every state:
the run is compared with one on the flat tokens by way of one that has no reports behind it.
-/

namespace BehaviorTree

namespace ParserState

/-- From one state to another just the next tokens were consumed, and nothing was reported. -/
structure Took (state : ParserState) (count : Nat) (state' : ParserState) : Prop where
  rest : state'.rest = state.rest.drop count
  final : state'.final = state.final
  position : state'.position = state.position + count
  diagnostics : state'.diagnostics = state.diagnostics
  reportedAt : state'.reportedAt = state.reportedAt

namespace Took

variable {s s' s'' : ParserState} {count more : Nat}

theorem trans (hfirst : s.Took count s') (hsecond : s'.Took more s'') : s.Took (count + more) s'' where
  rest := by rw [hsecond.rest, hfirst.rest, List.drop_drop]
  final := hsecond.final.trans hfirst.final
  position := by rw [hsecond.position, hfirst.position, Nat.add_assoc]
  diagnostics := hsecond.diagnostics.trans hfirst.diagnostics
  reportedAt := hsecond.reportedAt.trans hfirst.reportedAt

theorem ended (htook : s.Took count s') (hended : s.Ended) : s'.Ended := by
  rw [Ended, htook.final]
  exact hended

/-- Behind the terminals that were consumed come the others. -/
theorem coming {ts us : List Terminal} (htook : s.Took ts.length s')
    (hcoming : s.rest.map Token.terminal = ts ++ us) : s'.rest.map Token.terminal = us := by
  rw [htook.rest, List.map_drop, hcoming, List.drop_left]

end Took

/-- The current token is the first one to come. -/
theorem terminal_current {s : ParserState} {t : Terminal} {us : List Terminal}
    (hcoming : s.rest.map Token.terminal = t :: us) : s.current.terminal = t := by
  obtain ⟨token, rest, hrest, rfl, -⟩ := List.map_eq_cons_iff.mp hcoming
  simp [current, tokenAt, hrest]

/-- A state without what was reported before. -/
def unreported (state : ParserState) : ParserState :=
  { state with diagnostics := [], reportedAt := none }

@[simp]
theorem flat_flat (state : ParserState) : state.flat.flat = state.flat := by
  have hflat : Token.flat ∘ Token.flat = Token.flat := rfl
  simp [flat, Token.flat, hflat]

variable {s t : ParserState}

theorem level_flat (hended : s.Ended) : s.flat.Level where
  final := hended
  lastLine := rfl
  lines token htoken := by
    obtain ⟨other, -, rfl⟩ := List.mem_map.mp htoken
    rfl

theorem map_terminal_flat (s : ParserState) :
    s.flat.rest.map Token.terminal = s.rest.map Token.terminal := by
  have hflat : Token.terminal ∘ Token.flat = Token.terminal := rfl
  simp [flat, hflat]

end ParserState

open ParserState

/-- As long as the first run has no reports, the second one adds none to those it had. -/
def Books.quiet (diagnostics : List Diagnostic) (gate : Option Nat) : Books where
  related s t := s.position = t.position ∧
    (s.Silent → s.reportedAt = none ∧ t.diagnostics = diagnostics ∧ t.reportedAt = gate)
  lead := 0
  position hquiet := hquiet.1
  begun hquiet _ := by rw [hquiet.1]
  skip hquiet count := ⟨congrArg (· + count) hquiet.1, hquiet.2⟩
  report hquiet _ := ⟨hquiet.1, fun hsilent => (not_silent_report _ hsilent).elim⟩
  reportOnce {s t d d'} hquiet _ := by
    have hhonest : s.Honest := fun hsilent => (hquiet.2 hsilent).1
    refine ⟨?_, fun hsilent => (hhonest.not_silent_reportOnce d hsilent).elim⟩
    rw [position_reportOnce, position_reportOnce]
    exact hquiet.1
  withArena hquiet _ _ := hquiet

namespace Parser

variable {α : Type} {p : Parser α} {rel : α → α → Prop} {good : α → Prop} {ts us : List Terminal}
  {s : ParserState}

/-- **Acceptance anywhere.** Terminals that are accepted are accepted from every state where they
come, however the tokens are laid out in lines, whatever was reported before and wherever the gate
for reports stands. -/
theorem Accepts.anywhere (hp : Accepts p ts us good) (hflows : Flows p) (hagrees : Agrees p p rel)
    (hgood : ∀ a a', good a → rel a a' → good a') (hended : s.Ended)
    (hcoming : s.rest.map Token.terminal = ts ++ us) : good (p s).1 ∧ s.Took ts.length (p s).2 := by
  have hflat := hp s.unreported.flat (level_flat hended) ((map_terminal_flat s).trans hcoming)
  obtain ⟨hvalue, hreached⟩ := hflat
  have hsilent : (p s.unreported.flat).2.Silent := hreached.diagnostics
  have hguarded : s.unreported.flat.Guarded := ⟨hended, fun _ => rfl⟩
  have herrorless : (p s.unreported.flat).2.Errorless := by
    rw [Errorless, hsilent]
    rfl
  obtain ⟨hsame, hreflowed⟩ :=
    hflows.run s.unreported.flat s.unreported hguarded (flat_flat _) herrorless
  have hsilent' : (p s.unreported).2.Silent := (hreflowed.congr (·.diagnostics)).symm.trans hsilent
  have htwins : Twins (.quiet s.diagnostics s.reportedAt) s.unreported s :=
    ⟨rfl, rfl, rfl, fun _ => ⟨rfl, rfl, rfl⟩⟩
  obtain ⟨hrel, hends⟩ := hagrees _ _ _ htwins
  obtain ⟨-, hdiagnostics, hgate⟩ := hends.related.2 hsilent'
  have hposition : (p s).2.position = s.position + ts.length := by
    have hflatPosition := hreached.position
    have hcount := congrArg List.length hcoming
    have hleft := congrArg List.length hreached.coming
    have hlength : s.unreported.flat.rest.length = s.rest.length := List.length_map _
    have hsamePosition : (p s.unreported.flat).2.position = (p s.unreported).2.position :=
      hreflowed.congr (·.position)
    have hstart : s.unreported.flat.position = s.position := rfl
    rw [← hends.related.1, ← hsamePosition]
    simp only [List.length_map, List.length_append] at hcount hleft
    omega
  have hreaches := hagrees.reaches s
  obtain ⟨count, hrest, hmoved⟩ := hreaches.moved
  obtain rfl : count = ts.length := by omega
  refine ⟨hgood _ _ hvalue (by rw [← hsame]; exact hrel), hrest, hreaches.final, hposition,
    hdiagnostics, hgate⟩

end Parser

end BehaviorTree
