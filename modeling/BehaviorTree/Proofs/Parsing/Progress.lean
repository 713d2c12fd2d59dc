import BehaviorTree.Proofs.Parsing.Agreement
import BehaviorTree.Proofs.Parsing.Silence

/-!
# What every run does

A parser moves on over the coming tokens and adds to its reports, nothing else. That is a relation
between the states in front of a run and behind it which every step keeps, so it follows from the
agreement of a parser with itself, once and for all parsers.
-/

namespace BehaviorTree

namespace ParserState

/-- The next token is a `;`. -/
def AtSemi (state : ParserState) : Prop := state.current.kind = .punctuation .semi

/-- A gated report has left its trace. -/
def Honest (state : ParserState) : Prop := state.Silent → state.reportedAt = none

variable {start s : ParserState}

theorem Honest.not_silent_reportOnce (hhonest : s.Honest) (diagnostic : Diagnostic) :
    ¬(s.reportOnce diagnostic).Silent := by
  unfold reportOnce
  split
  · rename_i hgate
    intro hsilent
    rw [hhonest hsilent] at hgate
    cases hgate
  · exact not_silent_report diagnostic

/-- What a run from one state to another may have done. -/
structure Reaches (start s : ParserState) : Prop where
  moved : ∃ count, s.rest = start.rest.drop count ∧ s.position = start.position + count
  final : s.final = start.final
  honest : start.Honest → s.Honest
  silent : start.Honest → s.Silent → start.Silent

namespace Reaches

theorem refl (s : ParserState) : Reaches s s :=
  ⟨⟨0, rfl, rfl⟩, rfl, id, fun _ hsilent => hsilent⟩

theorem skip (hreaches : Reaches start s) (count : Nat) : Reaches start (s.skip count) where
  moved := by
    obtain ⟨passed, hrest, hposition⟩ := hreaches.moved
    refine ⟨passed + count, ?_, ?_⟩
    · show s.rest.drop count = _
      rw [hrest, List.drop_drop]
    · show s.position + count = _
      rw [hposition, Nat.add_assoc]
  final := hreaches.final
  honest := hreaches.honest
  silent := hreaches.silent

theorem report (hreaches : Reaches start s) (diagnostic : Diagnostic) :
    Reaches start (s.report diagnostic) where
  moved := hreaches.moved
  final := hreaches.final
  honest _ hsilent := (not_silent_report diagnostic hsilent).elim
  silent _ hsilent := (not_silent_report diagnostic hsilent).elim

theorem reportOnce (hreaches : Reaches start s) (diagnostic : Diagnostic) :
    Reaches start (s.reportOnce diagnostic) where
  moved := by
    rw [rest_reportOnce, position_reportOnce]
    exact hreaches.moved
  final := by
    rw [final_reportOnce]
    exact hreaches.final
  honest hstart hsilent :=
    ((hreaches.honest hstart).not_silent_reportOnce diagnostic hsilent).elim
  silent hstart hsilent :=
    ((hreaches.honest hstart).not_silent_reportOnce diagnostic hsilent).elim

theorem length_le (hreaches : Reaches start s) : s.rest.length ≤ start.rest.length := by
  obtain ⟨count, hrest, -⟩ := hreaches.moved
  rw [hrest, List.length_drop]
  omega

/-- A run that has moved on has fewer tokens in front of it. -/
theorem length_lt (hreaches : Reaches start s) (hmoved : s.position ≠ start.position)
    (hsome : start.rest ≠ []) : s.rest.length < start.rest.length := by
  obtain ⟨count, hrest, hposition⟩ := hreaches.moved
  have hpositive := List.length_pos_iff.mpr hsome
  rw [hrest, List.length_drop]
  omega

end Reaches

end ParserState

open ParserState

/-- A run and the same run, both from one state on. -/
def Books.since (start : ParserState) : Books where
  related s t := Reaches start s ∧ s.position = t.position
  lead := 0
  position hsince := hsince.2
  begun hsince _ := by rw [hsince.2]
  skip hsince count := ⟨hsince.1.skip count, congrArg (· + count) hsince.2⟩
  report hsince _ := ⟨hsince.1.report _, hsince.2⟩
  reportOnce hsince _ := by
    rw [position_reportOnce, position_reportOnce]
    exact ⟨hsince.1.reportOnce _, hsince.2⟩
  withArena hsince _ _ := ⟨⟨hsince.1.moved, hsince.1.final, hsince.1.honest, hsince.1.silent⟩,
    hsince.2⟩

namespace Parser

variable {α β : Type} {p q : Parser α} {f : α → Parser β} {rel : α → α → Prop}

/-- **What every run does.** -/
theorem Agrees.reaches (hp : Agrees p q rel) (s : ParserState) : s.Reaches (p s).2 :=
  (hp (Books.since s) s s ⟨rfl, rfl, Reaches.refl s, rfl⟩).2.related.1

/-- The parser takes no report back. -/
def Grows (p : Parser α) : Prop :=
  ∀ s, s.Honest → (p s).2.Honest ∧ ((p s).2.Silent → s.Silent)

theorem Agrees.grows (hp : Agrees p q rel) : Grows p :=
  fun s hhonest => ⟨(hp.reaches s).honest hhonest, (hp.reaches s).silent hhonest⟩

theorem Grows.pure (a : α) : Grows (Pure.pure a : Parser α) :=
  fun _ hhonest => ⟨hhonest, id⟩

theorem Grows.bind (hp : Grows p) (hf : ∀ a, Grows (f a)) : Grows (p >>= f) := by
  intro s hhonest
  obtain ⟨hhonest₁, hsilent₁⟩ := hp s hhonest
  obtain ⟨hhonest₂, hsilent₂⟩ := hf (p s).1 (p s).2 hhonest₁
  exact ⟨hhonest₂, fun hsilent => hsilent₁ (hsilent₂ hsilent)⟩

theorem Grows.peek {f : Token → Parser β} (hf : ∀ token, Grows (f token)) :
    Grows (Parser.peek >>= f) := fun s => hf s.current s

theorem Grows.map {g : α → β} (hp : Grows p) : Grows (g <$> p) := hp

theorem agrees_advance : Agrees advance advance fun _ _ => True :=
  Agrees.advance (f := Pure.pure) (g := Pure.pure) fun _ _ _ _ _ => Agrees.pure trivial

theorem Grows.advance : Grows advance := agrees_advance.grows

/-- The parser always reports. -/
def Loud (p : Parser α) : Prop := ∀ s, s.Honest → ¬(p s).2.Silent

/-- The parser reports where a `;` stands. -/
def Refuses (p : Parser α) : Prop :=
  ∀ s, s.Honest → s.AtSemi → ¬(p s).2.Silent

theorem Loud.refuses (hloud : Loud p) : Refuses p := fun s hhonest _ => hloud s hhonest

theorem Loud.bind (hp : Loud p) (hgrows : Grows p) (hf : ∀ a, Grows (f a)) : Loud (p >>= f) :=
  fun s hhonest hsilent => hp s hhonest ((hf _ _ (hgrows s hhonest).1).2 hsilent)

theorem Refuses.bind (hp : Refuses p) (hgrows : Grows p) (hf : ∀ a, Grows (f a)) :
    Refuses (p >>= f) :=
  fun s hhonest hsemi hsilent => hp s hhonest hsemi ((hf _ _ (hgrows s hhonest).1).2 hsilent)

theorem Loud.report (diagnostic : Diagnostic) : Loud (report diagnostic) :=
  fun _ _ => not_silent_report diagnostic

theorem Loud.reportOnce (diagnostic : Diagnostic) : Loud (reportOnce diagnostic) :=
  fun _ hhonest => hhonest.not_silent_reportOnce diagnostic

theorem Grows.expected (what : String) : Grows (expected what) := (Same.expected what what).grows

theorem Grows.expectedWithHelp (what help : String) : Grows (expectedWithHelp what help) :=
  (Same.expectedWithHelp what help what help).grows

theorem Grows.missing (what context : String) (insertion : Option String) :
    Grows (missing what context insertion) :=
  (Same.missing what context what context insertion).grows

theorem Grows.synchronize (set : RecoverySet) : Grows (synchronize set) :=
  (Same.synchronize set).grows

theorem Grows.acceptPunctuation (mark : Punctuation) : Grows (acceptPunctuation mark) :=
  (Same.acceptPunctuation mark).grows

theorem Grows.rangeSince (start : SourceRange) : Grows (rangeSince start) :=
  fun _ hhonest => ⟨hhonest, id⟩

theorem Grows.newType (range : SourceRange) (build : Origin → TypeExpr) :
    Grows (newType range build) := fun _ hhonest => ⟨hhonest, id⟩

theorem Grows.newStmt (range : SourceRange) (build : Origin → Stmt) :
    Grows (newStmt range build) := fun _ hhonest => ⟨hhonest, id⟩

theorem Grows.newDecl (range : SourceRange) (build : Origin → Decl) :
    Grows (newDecl range build) := fun _ hhonest => ⟨hhonest, id⟩

theorem Grows.nameOf (token : Token) : Grows (nameOf token) := fun _ hhonest => ⟨hhonest, id⟩

section Reports

variable {f : Unit → Parser β} (hf : ∀ a, Grows (f a))

include hf

theorem Loud.report_bind (diagnostic : Diagnostic) : Loud (Parser.report diagnostic >>= f) :=
  (Loud.report diagnostic).bind (Same.report diagnostic diagnostic rfl).grows hf

theorem Loud.reportOnce_bind (diagnostic : Diagnostic) : Loud (Parser.reportOnce diagnostic >>= f) :=
  (Loud.reportOnce diagnostic).bind (Same.reportOnce diagnostic diagnostic rfl).grows hf

theorem Loud.expected_bind (what : String) : Loud (Parser.expected what >>= f) :=
  Loud.bind (fun s hhonest => Loud.reportOnce _ s hhonest) (Grows.expected what) hf

theorem Loud.expectedWithHelp_bind (what help : String) :
    Loud (Parser.expectedWithHelp what help >>= f) :=
  Loud.bind (fun s hhonest => Loud.reportOnce _ s hhonest) (Grows.expectedWithHelp what help) hf

end Reports

theorem Loud.missing_bind {f : Recovery → Parser β} (hf : ∀ a, Grows (f a))
    (what context : String) (insertion : Option String) :
    Loud (Parser.missing what context insertion >>= f) := by
  refine Loud.bind (fun s hhonest => ?_) (Grows.missing what context insertion) hf
  unfold Parser.missing
  dsimp only
  split
  · exact hhonest.not_silent_reportOnce _
  · exact hhonest.not_silent_reportOnce _

theorem atPunctuation_bind (mark : Punctuation) (f : Bool → Parser β) :
    (atPunctuation mark >>= f) =
      (peek >>= fun token => if token.isPunctuation mark then f true else f false) := by
  funext s
  show f (s.current.isPunctuation mark) s =
    (if s.current.isPunctuation mark then f true else f false) s
  cases s.current.isPunctuation mark <;> rfl

theorem accept_bind (test : Token → Bool) (f : Bool → Parser β) :
    (accept test >>= f) =
      (peek >>= fun token => if test token then advance >>= fun _ => f true else f false) := by
  funext s
  show ((if test s.current then (do let _ ← advance; Pure.pure true) else Pure.pure false) >>= f) s =
    (if test s.current then advance >>= fun _ => f true else f false) s
  split <;> rfl

/-- A loop that ends with its first turn. -/
theorem iterate_done {body : α → Parser (Turn α)} {v last : α} {s : ParserState}
    (hdone : (body v s).1 = .done last) : iterate body v s = (last, (body v s).2) := by
  have hrun : ∀ h : Turn α → Parser α, h (.done last) = Pure.pure last →
      (body v >>= h) s = (last, (body v s).2) := by
    intro h hlast
    show h (body v s).1 (body v s).2 = _
    rw [hdone, hlast]
    rfl
  show iterateAlong body s.rest v s = _
  cases s.rest with
  | nil => exact hrun _ rfl
  | cons token turns => exact hrun _ rfl

/-- Behind a look at the current token. -/
theorem Refuses.peek {f : Token → Parser β}
    (hf : ∀ text range line, Refuses (f ⟨.punctuation .semi, text, range, line⟩)) :
    Refuses (peek >>= f) := by
  intro s hhonest hsemi
  have hrun := hf s.current.text s.current.range s.current.newlineBefore s hhonest hsemi
  rwa [← show s.current.kind = .punctuation .semi from hsemi] at hrun

theorem accept_passes {test : Token → Bool} {s : ParserState} (hpass : test s.current = true) :
    accept test s = (true, (advance s).2) := by
  show (if test s.current then (do let _ ← advance; Pure.pure true) else Pure.pure false :
    Parser Bool) s = _
  rw [hpass]
  rfl

theorem accept_fails {test : Token → Bool} {s : ParserState} (hfail : test s.current = false) :
    accept test s = (false, s) := by
  show (if test s.current then (do let _ ← advance; Pure.pure true) else Pure.pure false :
    Parser Bool) s = _
  rw [hfail]
  rfl

theorem peek_bind (f : Token → Parser β) (s : ParserState) : (peek >>= f) s = f s.current s := rfl

theorem advance_bind {s : ParserState} (hgoes : s.current.isEndOfFile = false) (f : Token → Parser β) :
    (advance >>= f) s = f s.current (s.skip 1) := by
  show f s.current (if s.current.isEndOfFile then s else s.skip 1) = _
  rw [hgoes]
  rfl

theorem acceptPunctuation_bind {s : ParserState} {mark : Punctuation}
    (hother : s.current.kind ≠ .punctuation mark) (f : Bool → Parser β) :
    (acceptPunctuation mark >>= f) s = f false s := by
  have haccept : acceptPunctuation mark s = (false, s) :=
    accept_fails (by simpa [Token.isPunctuation] using hother)
  show f (acceptPunctuation mark s).1 (acceptPunctuation mark s).2 = _
  rw [haccept]

/-- Nothing but a `;` is accepted where a `;` stands. -/
theorem accept_atSemi {test : Token → Bool} {f : Bool → Parser β} {s : ParserState}
    (htest : ∀ text range line, test ⟨.punctuation .semi, text, range, line⟩ = false)
    (hsemi : s.AtSemi) : (accept test >>= f) s = f false s := by
  have hfails := htest s.current.text s.current.range s.current.newlineBefore
  rw [← show s.current.kind = .punctuation .semi from hsemi] at hfails
  change test s.current = false at hfails
  show f (accept test s).1 (accept test s).2 = f false s
  rw [accept_fails hfails]

/-- Behind a token that is not there. -/
theorem Refuses.accept {test : Token → Bool} {f : Bool → Parser β}
    (htest : ∀ text range line, test ⟨.punctuation .semi, text, range, line⟩ = false)
    (hf : Refuses (f false)) : Refuses (accept test >>= f) := by
  intro s hhonest hsemi
  rw [accept_atSemi htest hsemi]
  exact hf s hhonest hsemi

end Parser

end BehaviorTree
