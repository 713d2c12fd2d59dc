import BehaviorTree.Proofs.Parsing.Enough
import BehaviorTree.Proofs.Parsing.OneReport

/-!
# Turns that consume tokens

Every loop of the parser asks for another turn only behind a token that it has consumed. So a loop
comes to its end, and the number of turns that it is given makes no difference. `Drives` is the
judgement for it: from a state on a parser makes a run, and it consumes a token if what it returns
asks for more.
-/

namespace BehaviorTree

/-- The end of the file is behind the tokens that it is not among. -/
theorem exists_end_behind {before later : List Token}
    (hgoes : ∀ token ∈ before, token.isEndOfFile = false)
    (hend : ∃ token ∈ before ++ later, token.isEndOfFile = true) :
    ∃ token ∈ later, token.isEndOfFile = true := by
  obtain ⟨last, hlast, hended⟩ := hend
  rcases List.mem_append.mp hlast with hbefore | hlater
  · rw [hgoes last hbefore] at hended
    cases hended
  · exact ⟨last, hlater, hended⟩

namespace ParserState

variable {s t u : ParserState} {count : Nat}

/-- The end of the file is among the tokens to come, and it is what is seen behind them. -/
structure Sealed (state : ParserState) : Prop where
  ended : state.Ended
  closed : ∃ token ∈ state.rest, token.isEndOfFile = true

/-- From one state to the other at least one token was consumed. All of them were at hand, and none
of them is the end of the file. -/
def Advances (start s : ParserState) : Prop :=
  ∃ count, 0 < count ∧ count < start.rest.length ∧ start.Passes count ∧ s.Beside (start.skip count)

theorem Sealed.rest_ne_nil (h : s.Sealed) : s.rest ≠ [] := by
  obtain ⟨token, htoken, -⟩ := h.closed
  exact List.ne_nil_of_mem htoken

theorem Sealed.rest_eq (h : s.Sealed) : s.rest = s.current :: s.rest.drop 1 := by
  obtain ⟨token, rest, hrest⟩ := List.exists_cons_of_ne_nil h.rest_ne_nil
  simp [ParserState.current, tokenAt, hrest]

theorem Sealed.skip (h : s.Sealed) (hpasses : s.Passes count) : (s.skip count).Sealed := by
  have hclosed := h.closed
  rw [← List.take_append_drop count s.rest] at hclosed
  exact ⟨h.ended, exists_end_behind hpasses hclosed⟩

theorem Sealed.beside (h : s.Sealed) (hbeside : t.Beside s) : t.Sealed where
  ended := by
    rw [Ended, hbeside.final]
    exact h.ended
  closed := by
    rw [hbeside.rest]
    exact h.closed

theorem Advances.length_lt (h : s.Advances t) : t.rest.length < s.rest.length := by
  obtain ⟨count, hpositive, hcount, -, hbeside⟩ := h
  have hrest : t.rest.length = s.rest.length - count := by
    rw [hbeside.rest]
    exact List.length_drop
  omega

end ParserState

namespace Parser

open ParserState SyntaxReport

variable {α β : Type} {s t u : ParserState} {p : Parser α} {f : α → Parser β}

/-! ### Runs put together -/

theorem Reached.refl (s : ParserState) : Reached s s := ⟨[], .nothing⟩

theorem Reached.trans (hfirst : Reached s t) (hsecond : Reached t u) : Reached s u := by
  obtain ⟨log, hrun⟩ := hsecond
  induction hrun with
  | nothing => exact hfirst
  | move _ hpasses ih => exact ih.skip hpasses
  | build _ ih => exact ih.withArena
  | report _ hungated ih => exact ih.report hungated
  | reportOnce _ hgated _ ih => exact ih.reportOnce hgated

/-- Some of the tokens at hand were consumed, perhaps none. -/
theorem Reached.passed (h : Reached s t) :
    ∃ count, s.Passes count ∧ t.Beside (s.skip count) := by
  obtain ⟨log, hrun⟩ := h
  exact hrun.skipped

theorem Reached.position_le (h : Reached s t) : s.position ≤ t.position := by
  obtain ⟨count, -, hbeside⟩ := h.passed
  rw [hbeside.position]
  exact Nat.le_add_right s.position count

theorem Reached.sealed (h : Reached s t) (hsealed : s.Sealed) : t.Sealed := by
  obtain ⟨count, hpasses, hbeside⟩ := h.passed
  exact (hsealed.skip hpasses).beside hbeside

theorem Reached.advances (h : Reached s t) (hsealed : s.Sealed) (hmoved : s.position < t.position) :
    s.Advances t := by
  obtain ⟨count, hpasses, hbeside⟩ := h.passed
  have hposition : t.position = s.position + count := hbeside.position
  exact ⟨count, by omega, hpasses.lt_length hsealed.closed, hpasses, hbeside⟩

/-- A run that has not moved on is in front of the same token. -/
theorem Reached.beside (h : Reached s t) (hposition : t.position = s.position) : t.Beside s := by
  obtain ⟨count, -, hbeside⟩ := h.passed
  have hcount : t.position = s.position + count := hbeside.position
  obtain rfl : count = 0 := by omega
  have hnone : s.skip 0 = s := by simp [ParserState.skip]
  rwa [hnone] at hbeside

/-- The parser makes a run from every state on. -/
def Runs (p : Parser α) : Prop := ∀ s, Reached s (p s).2

theorem Runs.ofRespects [Marked α] (hp : ∀ inv, Respects inv p) : Runs p := reached_of_respects hp

theorem Runs.pure (a : α) : Runs (Pure.pure a : Parser α) := Reached.refl

theorem Runs.bind (hp : Runs p) (hf : ∀ a, Runs (f a)) : Runs (p >>= f) :=
  fun s => (hp s).trans (hf (p s).1 (p s).2)

/-- What is read off the state. -/
theorem Runs.read (value : ParserState → α) : Runs fun state => (value state, state) := Reached.refl

theorem Runs.peek : Runs peek := .read _

theorem Runs.rangeSince (start : SourceRange) : Runs (rangeSince start) := .read _

/-- What makes a tree. -/
theorem Runs.ofArena (make : Arena → α × Arena) :
    Runs fun s => ((make s.arena).1, { s with arena := (make s.arena).2 }) :=
  fun s => (Reached.refl s).withArena

theorem Runs.newExpr (range : SourceRange) (build : Origin → Expr) : Runs (newExpr range build) :=
  .ofArena fun arena => arena.addExpr range build

theorem Runs.newStmt (range : SourceRange) (build : Origin → Stmt) : Runs (newStmt range build) :=
  .ofArena fun arena => arena.addStmt range build

theorem Runs.advance : Runs advance := .ofRespects fun _ => .advance

theorem Runs.report {diagnostic : Diagnostic} (hungated : Ungated diagnostic) :
    Runs (report diagnostic) := fun s => (Reached.refl s).report hungated

theorem Runs.acceptPunctuation (mark : Punctuation) : Runs (acceptPunctuation mark) :=
  .ofRespects fun _ => .acceptPunctuation mark

theorem Runs.atPunctuation (mark : Punctuation) : Runs (atPunctuation mark) := .read _

theorem Runs.expectPunctuation (mark : Punctuation) (context : String) (set : RecoverySet) :
    Runs (expectPunctuation mark context set) :=
  .ofRespects fun _ => .expectPunctuation mark context set

theorem Runs.expression : Runs expression := .ofRespects fun _ => .expression

/-! ### Consuming a token -/

/-- The parser makes a run from the state on, and it consumes a token if it returns what meets the
goal. -/
structure Drives (s : ParserState) (goal : α → Prop) (p : Parser α) : Prop where
  reached : Reached s (p s).2
  moves : s.Sealed → goal (p s).1 → s.position < (p s).2.position

variable {goal : β → Prop} {goal' : α → Prop}

theorem Drives.pure {a : α} (hnot : ¬goal' a) : Drives s goal' (Pure.pure a) :=
  ⟨.refl s, fun _ hgoal => (hnot hgoal).elim⟩

/-- The token is consumed later. -/
theorem Drives.later (hp : Runs p) (hf : ∀ a s', Drives s' goal (f a)) : Drives s goal (p >>= f) where
  reached := (hp s).trans (hf (p s).1 (p s).2).reached
  moves hsealed hgoal := Nat.lt_of_le_of_lt (hp s).position_le
    ((hf (p s).1 (p s).2).moves ((hp s).sealed hsealed) hgoal)

/-- The token is consumed at once, unless that is seen from what is returned. -/
theorem Drives.sooner (hp : Drives s goal' p) (hyes : ∀ a, goal' a → Runs (f a))
    (hno : ∀ a s', ¬goal' a → Drives s' goal (f a)) : Drives s goal (p >>= f) := by
  by_cases hnow : goal' (p s).1
  · have hbehind : Reached (p s).2 ((p >>= f) s).2 := hyes _ hnow (p s).2
    exact ⟨hp.reached.trans hbehind,
      fun hsealed _ => Nat.lt_of_lt_of_le (hp.moves hsealed hnow) hbehind.position_le⟩
  · have hbehind : Drives (p s).2 goal (f (p s).1) := hno _ _ hnow
    exact ⟨hp.reached.trans hbehind.reached, fun hsealed hgoal =>
      Nat.lt_of_le_of_lt hp.reached.position_le (hbehind.moves (hp.reached.sealed hsealed) hgoal)⟩

/-- Behind a look at the state. -/
theorem Drives.read {value : ParserState → α} (hf : Drives s goal (f (value s))) :
    Drives s goal ((fun state => (value state, state)) >>= f) := ⟨hf.reached, hf.moves⟩

theorem Drives.peek {f : Token → Parser β} (hf : Drives s goal (f s.current)) :
    Drives s goal (Parser.peek >>= f) := .read hf

theorem Drives.peekSecond {f : Token → Parser β} (hf : Drives s goal (f (s.tokenAt 1))) :
    Drives s goal (Parser.peekSecond >>= f) := .read hf

theorem Drives.report {diagnostic : Diagnostic} {f : Unit → Parser β} (hungated : Ungated diagnostic)
    (hf : Drives (s.report diagnostic) goal (f ())) :
    Drives s goal (Parser.report diagnostic >>= f) :=
  ⟨((Reached.refl s).report hungated).trans hf.reached,
    fun hsealed => hf.moves (hsealed.beside (s.beside_report diagnostic))⟩

theorem Drives.advance {f : Token → Parser β} (hgoes : s.current.isEndOfFile = false)
    (hf : ∀ token, Runs (f token)) : Drives s goal (Parser.advance >>= f) := by
  have hmoved : Drives s (fun _ => True) Parser.advance := by
    refine ⟨Runs.advance s, fun _ _ => ?_⟩
    rw [advance_of_goes hgoes]
    exact Nat.lt_succ_self s.position
  exact hmoved.sooner (fun token _ => hf token) fun _ _ hnot => (hnot trivial).elim

theorem Drives.accept {test : Token → Bool} {f : Bool → Parser β}
    (htest : ∀ token, test token = true → token.isEndOfFile = false) (hyes : Runs (f true))
    (hno : ∀ s', Drives s' goal (f false)) : Drives s goal (Parser.accept test >>= f) := by
  rw [accept_bind]
  refine .peek ?_
  split
  · rename_i hpass
    exact .advance (htest _ hpass) fun _ => hyes
  · exact hno s

theorem Drives.acceptPunctuation {mark : Punctuation} {f : Bool → Parser β} (hyes : Runs (f true))
    (hno : ∀ s', Drives s' goal (f false)) : Drives s goal (Parser.acceptPunctuation mark >>= f) :=
  .accept (fun _ hpass => isEndOfFile_of_isPunctuation hpass) hyes hno

theorem isEndOfFile_of_kind {kind : TokenKind} (hkind : s.current.kind = kind)
    (hother : kind ≠ .endOfFile) : s.current.isEndOfFile = false := by
  simp [Token.isEndOfFile, hkind, hother]

/-- A parser that begins with a token consumes it. -/
theorem Drives.begins [Marked α] (hp : Begins (.reached (Parser.advance s).2) p)
    (hgoes : s.current.isEndOfFile = false) : Drives s goal' p := by
  have hbehind : Reached (Parser.advance s).2 (p s).2 :=
    (hp s ⟨trivial, trivial⟩ (Reached.refl _)).2
  refine ⟨(Runs.advance s).trans hbehind, fun _ _ => ?_⟩
  have hmoved := hbehind.position_le
  rw [advance_of_goes hgoes] at hmoved
  exact Nat.lt_of_lt_of_le (Nat.lt_succ_self s.position) hmoved

/-! ### Loops -/

/-- The turn asks for another one. -/
def Turn.GoesOn : Turn α → Prop
  | .again _ => True
  | .done _ => False

/-- Every turn makes a run, and one that asks for another turn consumes a token. -/
abbrev Driven (body : α → Parser (Turn α)) : Prop := ∀ v s, Drives s Turn.GoesOn (body v)

theorem Driven.advances {body : α → Parser (Turn α)} (hbody : Driven body) {v next : α}
    (hsealed : s.Sealed) (hagain : (body v s).1 = .again next) : s.Advances (body v s).2 := by
  refine (hbody v s).reached.advances hsealed ((hbody v s).moves hsealed ?_)
  rw [hagain]
  trivial

/-- A loop whose turns nobody counts gets from a value and a state to the last ones. -/
inductive Loop (body : α → Parser (Turn α)) : α → ParserState → α → ParserState → Prop
  | last {v last : α} {s : ParserState} :
      (body v s).1 = .done last → Loop body v s last (body v s).2
  | turn {v next last : α} {s s' : ParserState} :
      (body v s).1 = .again next → Loop body next (body v s).2 last s' → Loop body v s last s'

variable {body : α → Parser (Turn α)} {v last last' : α}

/-- A loop can get to one end only. -/
theorem Loop.unique (h : Loop body v s last t) (h' : Loop body v s last' u) :
    last = last' ∧ t = u := by
  induction h with
  | last hdone =>
      cases h' with
      | last hdone' => exact ⟨Turn.done.inj (hdone.symm.trans hdone'), rfl⟩
      | turn hagain' _ => cases hdone.symm.trans hagain'
  | turn hagain _ ih =>
      cases h' with
      | last hdone' => cases hagain.symm.trans hdone'
      | turn hagain' hlater =>
          obtain rfl := Turn.again.inj (hagain.symm.trans hagain')
          exact ih hlater

theorem Loop.along (hbody : Driven body) (turns : List Token) (hsealed : s.Sealed)
    (hturns : s.rest.length ≤ turns.length) :
    Loop body v s (iterateAlong body turns v s).1 (iterateAlong body turns v s).2 := by
  induction turns generalizing v s with
  | nil => exact (hsealed.rest_ne_nil (List.length_eq_zero_iff.mp (Nat.le_zero.mp hturns))).elim
  | cons token turns ih =>
      rw [iterateAlong_cons]
      cases hturn : (body v s).1 with
      | done last => exact .last hturn
      | again next =>
          have hshorter := (hbody.advances hsealed hturn).length_lt
          rw [List.length_cons] at hturns
          exact .turn hturn (ih ((hbody v s).reached.sealed hsealed) (by omega))

/-- **Loops end.** However many turns that takes, a loop whose turns consume tokens is given enough. -/
theorem Loop.iterate (hbody : Driven body) (hsealed : s.Sealed) :
    Loop body v s (iterate body v s).1 (iterate body v s).2 :=
  Loop.along hbody s.rest hsealed (Nat.le_refl _)

/-- What a loop does is what it does behind its first turn. -/
theorem iterate_eq (hbody : Driven body) (hsealed : s.Sealed) :
    iterate body v s = (body v s).1.goOn (iterate body) (body v s).2 := by
  cases hturn : (body v s).1 with
  | done last => exact iterate_done hturn
  | again next =>
      have hbehind : (body v s).2.Sealed := (hbody v s).reached.sealed hsealed
      obtain ⟨hvalue, hstate⟩ := (Loop.iterate (v := v) hbody hsealed).unique
        (.turn hturn (Loop.iterate hbody hbehind))
      exact Prod.ext hvalue hstate

/-! ### The loops of the parser -/

theorem Driven.docTurn : Driven docTurn := by
  intro docs s
  unfold Parser.docTurn
  refine .peek ?_
  split
  · rename_i hkind
    exact .advance (isEndOfFile_of_kind hkind nofun) fun _ => .pure _
  · rename_i hkind
    exact .report (.misplacedModuleDoc _)
      (.advance (isEndOfFile_of_kind hkind nofun) fun _ => .pure _)
  · exact .pure id

theorem Driven.moduleDocTurn : Driven moduleDocTurn := by
  intro docs s
  unfold Parser.moduleDocTurn
  refine .peek ?_
  split
  · rename_i hkind
    exact .advance (isEndOfFile_of_kind hkind nofun) fun _ => .pure _
  · exact .pure id

/-- Where a list goes on, a comma was consumed. -/
theorem Drives.listContinues {context what : String} {inBody : Bool} {set : RecoverySet} :
    Drives s (· = true) (listContinues context what inBody set) := by
  have hlist : Runs (Parser.listGoesOn context inBody) := .ofRespects fun _ => .listGoesOn context inBody
  have hrecovers : Runs (Parser.expected what) := .ofRespects fun _ => .expected what
  have hskips : Runs (Parser.synchronize set) := .ofRespects fun _ => .synchronize set
  have hcloses : ∀ s', Drives s' (· = true) (do
      let _ ← Parser.acceptPunctuation .rParen
      Pure.pure false) := fun _ => .later (.acceptPunctuation _) fun _ _ => .pure (by simp)
  refine .acceptPunctuation (.pure true) fun s' => .later hlist fun more s' => ?_
  split
  · refine .later hrecovers fun _ s' => .later hskips fun _ s' => ?_
    exact .acceptPunctuation (.pure true) hcloses
  · exact .pure (by simp)

/-- A turn of a list of items asks for another one behind a comma. -/
theorem Drives.listed {context what : String} {inBody : Bool} {set : RecoverySet} {more done : α} :
    Drives s Turn.GoesOn (do
      if ← Parser.listContinues context what inBody set then Pure.pure (.again more)
      else Pure.pure (.done done)) := by
  refine .sooner .listContinues (fun continues hcontinues => ?_) fun continues s' hnot => ?_
  · rw [if_pos hcontinues]
    exact .pure _
  · rw [if_neg hnot]
    exact .pure id

theorem Driven.paramTurn (what : String) : Driven (paramTurn what) := by
  intro params s
  have hlist : ∀ context, Runs (Parser.listGoesOn context false) :=
    fun context => .ofRespects fun _ => .listGoesOn context false
  have hparam : ∀ set, Runs (Parser.param what set) := fun set => .ofRespects fun _ => .param what set
  unfold Parser.paramTurn
  refine .later (hlist _) fun more s' => ?_
  split
  · exact .later (hparam _) fun param s' => .listed
  · exact .pure id

theorem Driven.argumentTurn : Driven argumentTurn := by
  intro arguments s
  have hlist : ∀ context, Runs (Parser.listGoesOn context true) :=
    fun context => .ofRespects fun _ => .listGoesOn context true
  have hargument : Runs Parser.argument := .ofRespects fun _ => .argument
  unfold Parser.argumentTurn
  refine .later (hlist _) fun more s' => ?_
  split
  · exact .later hargument fun argument s' => .listed
  · exact .pure id

theorem Runs.preconditionBehind (found : List Precondition) (start : SourceRange)
    (kind : Option PreconditionKind) : Runs (preconditionBehind found start kind) := by
  refine .bind (.expectPunctuation _ _ _) fun entered => ?_
  split
  · refine .bind .expression fun condition => .bind (.expectPunctuation _ _ _) fun _ =>
      .bind (.rangeSince start) fun range => ?_
    split
    · exact .pure _
    · exact .pure _
  · exact .pure _

theorem Driven.preconditionTurn : Driven preconditionTurn := by
  intro found s
  have hname : ∀ what set, Runs (Parser.expectName what set) :=
    fun what set => .ofRespects fun _ => .expectName what set
  unfold Parser.preconditionTurn
  refine .peek (.acceptPunctuation ?_ fun s' => ?_)
  · rw [if_pos rfl]
    refine .bind (hname _ _) fun name => ?_
    cases name with
    | none => exact .bind (.acceptPunctuation _) fun _ => .pure _
    | some name =>
        have hbehind := Runs.preconditionBehind found s.current.range
          (PreconditionKind.ofSpelling? name.text)
        dsimp only
        split
        · exact .bind (.report (.unknownPrecondition _ _)) fun _ => hbehind
        · exact hbehind
  · exact .pure id

theorem Driven.indexTurn : Driven indexTurn := by
  intro indices s
  have hexpected : ∀ what, Runs (Parser.expected what) := fun what => .ofRespects fun _ => .expected what
  unfold Parser.indexTurn
  refine .acceptPunctuation ?_ fun s' => ?_
  · refine .bind .expression fun position => .bind (.acceptPunctuation _) fun closed => ?_
    split
    · exact .pure _
    · refine .bind .peek fun token => ?_
      split
      · exact .bind (hexpected _) fun _ => .pure _
      · exact .bind (.expectPunctuation _ _ _) fun _ => .pure _
  · exact .pure id

/-- Another part of a foreign construct starts behind an `else`. -/
theorem Driven.foreignPart (shape : ForeignShape) : Driven (foreignPart shape) := by
  intro value s
  have hheader : Runs (Parser.skip Skip.header) := .ofRespects fun _ => .skip Skip.stops_header
  have hblock : Runs (Parser.skip Skip.block) := .ofRespects fun _ => .skip Skip.stops_block
  unfold Parser.foreignPart
  refine .later hheader fun _ s' => .later (.atPunctuation _) fun opens s' => ?_
  split
  · refine .later hblock fun _ s' => .peek ?_
    split
    · rename_i helse
      have hkind : s'.current.kind = .identifier := by simpa [Token.isIdentifier] using helse.2.1
      exact .advance (isEndOfFile_of_kind hkind (by simp)) fun _ => .pure _
    · exact .pure id
  · exact .later (.acceptPunctuation _) fun _ _ => .pure id

section Nested

variable {nested : Nested}

theorem Driven.nextElement (hexpression : Runs nested.expression) : Driven (nextElement nested) := by
  intro elements s
  unfold Parser.nextElement
  refine .acceptPunctuation ?_ fun s' => .pure id
  refine .bind (.atPunctuation _) fun closes => ?_
  split
  · exact .pure _
  · exact .bind hexpression fun element => .pure _

theorem Driven.suffix (hexpression : Runs nested.expression) (htype : Runs nested.type) :
    Driven (suffix nested) := by
  intro base s
  unfold Parser.suffix
  refine .acceptPunctuation ?_ fun s' => .peek ?_
  · exact .bind hexpression fun position => .bind (.expectPunctuation _ _ _) fun _ =>
      .bind (.rangeSince _) fun range => .bind (.newExpr _ _) fun index => .pure _
  · split
    · rename_i hword
      have hkind : s'.current.kind = .keyword .asWord := by simpa [Token.isKeyword] using hword
      have hgoes : s'.current.isEndOfFile = false := by
        rw [Token.isEndOfFile, hkind]
        rfl
      exact .advance hgoes fun _ => .bind htype fun type => .bind (.rangeSince _) fun range =>
        .bind (.newExpr _ _) fun cast => .pure _
    · exact .pure id

theorem Driven.extendChain (layer : Nat) {tighter : Parser Chain} (htighter : Runs tighter) :
    Driven (extendChain layer tighter) := by
  intro chain s
  unfold Parser.extendChain
  refine .peek ?_
  split
  · rename_i op hop
    have hgoes : s.current.isEndOfFile = false := by
      cases hend : s.current.isEndOfFile with
      | false => rfl
      | true =>
          have hkind : s.current.kind = .endOfFile := by simpa [Token.isEndOfFile] using hend
          simp [Token.binaryOpOn?, Token.operator?, TokenKind.operator?, hkind] at hop
    refine .advance hgoes fun first => .bind htighter fun right => .bind (.newExpr _ _) fun whole =>
      .bind .peek fun next => ?_
    split
    · exact .bind (.report (.chainedComparison _ _)) fun _ => .pure _
    · exact .pure _
  · exact .pure id

end Nested

end Parser

end BehaviorTree
