import BehaviorTree.Proofs.Parsing.Braces

/-!
# Blocks of silent runs

A silent run through a block consumes its brace, the tokens of its statements and the brace that
closes it. What is made of the block behind it looks at the next token at most.
-/

namespace BehaviorTree.Parser

open ParserState

variable {s t u : ParserState} {stmts : List Stmt} {opening : SourceRange} {decls : List Decl}

/-! ### Turns of blocks and of programs -/

theorem blockTurn_closed (hclosing : s.current.kind = .punctuation .rBrace) :
    blockTurn (statement block) opening stmts s = (.done stmts, s.skip 1) := by
  rw [blockTurn_eq, if_pos (by simp [Token.isPunctuation, hclosing]),
    advance_of_goes (by simp [Token.isEndOfFile, hclosing])]

theorem blockTurn_broken (hopen : s.current.isPunctuation .rBrace = false)
    (hbreaks : breaksBlock s.current = true) : blockTurn (statement block) opening stmts s =
      (.done stmts, s.reportOnce (SyntaxReport.unclosedBlock s.current opening)) := by
  rw [blockTurn_eq, if_neg (by simp [hopen]), if_pos hbreaks]

theorem blockTurn_goes (hsealed : s.Sealed) (hopen : s.current.isPunctuation .rBrace = false)
    (hgoes : breaksBlock s.current = false) : blockTurn (statement block) opening stmts s =
      (.again (stmts ++ (statement block s).1.toList), (statement block s).2) := by
  rw [blockTurn_eq, if_neg (by simp [hopen]), if_neg (by simp [hgoes]),
    (Moves.statement (fun _ => .block) hopen hgoes).orStepOver hsealed]

/-- In a silent run a turn of a block takes its `}` or parses a statement. -/
theorem blockTurn_cases (hquiet : s.Quiet)
    (hsilent : (blockTurn (statement block) opening stmts s).2.Silent) :
    s.current.kind = .punctuation .rBrace ∨
      s.current.isPunctuation .rBrace = false ∧ breaksBlock s.current = false := by
  cases hopen : s.current.isPunctuation .rBrace with
  | true => exact .inl (by simpa [Token.isPunctuation] using hopen)
  | false =>
      cases hbreaks : breaksBlock s.current with
      | false => exact .inr ⟨rfl, rfl⟩
      | true =>
          rw [blockTurn_broken hopen hbreaks] at hsilent
          have hhonest : s.Honest := fun _ => hquiet.gate
          exact (hhonest.not_silent_reportOnce _ hsilent).elim

theorem programTurn_ended (hend : s.current.isEndOfFile = true) :
    programTurn decls s = (.done decls, s) := by
  rw [programTurn_eq, if_pos hend]

theorem programTurn_goes (hsealed : s.Sealed) (hgoes : s.current.isEndOfFile = false) :
    programTurn decls s = (.again (decls ++ (declaration s).1.toList), (declaration s).2) := by
  rw [programTurn_eq, if_neg (by simp [hgoes]), (Moves.declaration hgoes).orStepOver hsealed]

theorem Driven.statements (opening : SourceRange) :
    Driven (Parser.blockTurn (Parser.statement Parser.block) opening) :=
  .blockTurn (fun _ => .block) opening

theorem block_loop (hended : s.Ended) (hbrace : s.current.kind = .punctuation .lBrace) :
    block s = iterate (blockTurn (statement block) s.current.range) [] (s.skip 1) := by
  rw [block_eq hended]
  show iterate (blockTurn (statement block) s.current.range) [] (advance s).2 = _
  rw [advance_of_goes (by simp [Token.isEndOfFile, hbrace])]

theorem reached_opening (hbrace : s.current.kind = .punctuation .lBrace) : Reached s (s.skip 1) := by
  rw [← advance_of_goes (by simp [Token.isEndOfFile, hbrace])]
  exact Runs.advance s

/-! ### Behind a block -/

/-- How an item is finished behind its block: nothing is consumed, only whether a `;` comes next is
looked at, and what the children are makes no difference to that. -/
structure Finishes {α : Type} (shape : α → α) (finish : List Stmt → Parser (Option α)) : Prop where
  still : ∀ stmts s, s.Quiet → (finish stmts s).2.Silent → (finish stmts s).2.rest = s.rest
  idle : ∀ stmts s, s.current.isPunctuation .semi = false →
    ∃ arena, (finish stmts s).2 = { s with arena := arena }
  same : ∀ (k : Fork) stmts s, s.Quiet → (finish stmts s).2.Silent →
    (k.switch s).current.isPunctuation .semi = false →
      finish stmts (k.switch s) = ((finish stmts s).1, k.switch (finish stmts s).2)
  alike : ∀ stmts stmts', Alike Stmt.shapes stmts stmts' →
    Agrees (finish stmts) (finish stmts') (Alike (Option.map shape))
  agrees : ∀ stmts stmts', Agrees (finish stmts) (finish stmts') fun _ _ => True

theorem Finishes.grows {α : Type} {shape : α → α} {finish : List Stmt → Parser (Option α)}
    (h : Finishes shape finish) (stmts : List Stmt) : Grows (finish stmts) := (h.agrees stmts stmts).grows

theorem Delivers.semicolonAfterBlock_none :
    Delivers Parser.semicolonAfterBlock s fun _ _ => s.current.isPunctuation .semi = false := by
  unfold Parser.semicolonAfterBlock
  exact Delivers.peek (Delivers.acceptPunctuation
    (fun _ _ _ => Delivers.mono (Delivers.report rfl) fun _ _ h => h.elim) fun hno => Delivers.pure hno)

section Node

variable {finish : List Stmt → Parser (Option Stmt)} {children children' : List Stmt}

/-- A silent run meets no `;` behind the block of a node. -/
theorem FinishesStmt.no_semi (h : FinishesStmt finish) (hquiet : s.Quiet)
    (hsilent : (finish children s).2.Silent) : s.current.isPunctuation .semi = false := by
  obtain ⟨docs, preconditions, start, callee, arguments, rfl⟩ := h
  have hfinish : Delivers (finishNode callee arguments children >>= finishStmt docs preconditions start) s
      fun _ _ => s.current.isPunctuation .semi = false := by
    have hnode : Delivers (finishNode callee arguments children) s
        fun _ _ => s.current.isPunctuation .semi = false :=
      Delivers.bind Delivers.semicolonAfterBlock_none fun _ _ => Delivers.pure fun h => h
    refine Delivers.bind hnode fun build s' => ?_
    exact ((Heedless.finishStmt docs preconditions start build).still s').mono fun _ _ _ h => h
  exact hfinish.quietly hquiet hsilent

theorem FinishesStmt.finishes (h : FinishesStmt finish) : Finishes Stmt.shape finish := by
  have hno : ∀ {children s}, s.Quiet → (finish children s).2.Silent →
      s.current.isPunctuation .semi = false := h.no_semi
  obtain ⟨docs, preconditions, start, callee, arguments, rfl⟩ := h
  have hrun : ∀ children s, s.current.isPunctuation .semi = false →
      (finishNode callee arguments children >>= finishStmt docs preconditions start) s =
        finishStmt docs preconditions start (some (.compound · callee arguments children)) s := by
    intro children s hsemi
    simp only [finishNode, bind, StateT.bind, semicolonAfterBlock_none hsemi]
    rfl
  refine ⟨fun children s hquiet hsilent => ?_, fun children s hsemi => ?_,
    fun k children s hquiet hsilent hsemi => ?_, fun children children' hchildren => ?_,
    fun children children' => ?_⟩
  · have hsemi := hno hquiet hsilent
    simp only [hrun children s hsemi] at hsilent ⊢
    obtain ⟨_, hstretch⟩ := ((Heedless.finishStmt _ _ _ _).still s).quietly hquiet hsilent
    exact hstretch.rest.symm
  · simp only [hrun children s hsemi]
    exact ⟨_, rfl⟩
  · simp only [hrun children s (hno hquiet hsilent), hrun children _ hsemi]
    exact (Heedless.finishStmt _ _ _ _).same k s
  · exact .bind (.finishNode rfl rfl hchildren) fun build build' hbuild => .finishStmt _ _ rfl rfl hbuild
  · have hnode : Agrees (finishNode callee arguments children) (finishNode callee arguments children')
        fun build build' => build.isSome = true ∧ build'.isSome = true :=
      .next Same.semicolonAfterBlock fun _ => .pure ⟨rfl, rfl⟩
    refine .bind hnode ?_
    rintro (_ | build) (_ | build') ⟨hsome, hsome'⟩
    · cases hsome
    · cases hsome
    · cases hsome'
    · exact fun _ _ _ htwins => ⟨trivial, htwins.withArena _ _⟩

end Node

theorem TreePlan.finishes {tokens : List Token} {finish : List Stmt → Parser (Option Decl)}
    (h : TreePlan tokens finish) : Finishes Decl.shape finish := by
  obtain ⟨_, _, -, -, build, docs, start, ⟨word, name, _, params, -, -, -, -, rfl⟩, rfl⟩ := h
  refine ⟨fun body s hquiet hsilent => ?_, fun body s _ => ⟨_, rfl⟩, fun k body s _ _ _ => ?_,
    fun body body' hbody => ?_, fun body body' _ _ _ htwins => ⟨trivial, htwins.withArena _ _⟩⟩
  · obtain ⟨_, hstretch⟩ := ((Heedless.finishDecl
      (some (.tree · name.asName params body)) docs start none).still s).quietly hquiet hsilent
    exact hstretch.rest.symm
  · exact (Heedless.finishDecl (some (.tree · name.asName params body)) docs start none).same k s
  · have hshapes : body.map Stmt.shape = body'.map Stmt.shape := by
      rw [← Stmt.shapes_eq_map, ← Stmt.shapes_eq_map]
      exact hbody
    have hbuild : MayDeclareAlike (some (.tree · name.asName params body))
        (some (.tree · name.asName params body')) := by
      intro head head' hhead
      simp only [Decl.shape, hhead, hshapes]
    exact Agrees.finishDecl hbuild rfl

/-! ### The tokens of a block -/

/-- Between the states lies a block: two braces and the tokens of statements between them. -/
def Encloses (s s' : ParserState) : Prop :=
  ∃ inner closing, s.rest = s.current :: (inner ++ closing :: s'.rest) ∧ Items inner ∧
    closing.kind = .punctuation .rBrace

/-- The tokens of a statement, in front of those of others. -/
def Item (tokens : List Token) : Prop := ∀ later, Items later → Items (tokens ++ later)

theorem statement_item
    (hblock : ∀ t : ParserState, t.rest.length ≤ s.rest.length → t.Quiet → (block t).2.Silent →
      t.current.kind = .punctuation .lBrace → Encloses t (block t).2)
    (hquiet : s.Quiet) (hsilent : (statement block s).2.Silent)
    (hopen : s.current.isPunctuation .rBrace = false) (hgoes : breaksBlock s.current = false) :
    ∃ item, s.rest = item ++ (statement block s).2.rest ∧ Item item := by
  rcases (Crosses.statement hquiet hsilent hopen hgoes).quietly hquiet hsilent with
    ⟨-, hclosing⟩ | ⟨finish, t, tokens, made, ⟨hwalk, hends⟩, hstretch, hopening⟩
  · obtain ⟨tokens, semi, made, hstretch, hwalk, hsemi⟩ := hclosing.item
    refine ⟨tokens ++ [semi], hstretch.rest, fun later hlater => ?_⟩
    rw [List.append_assoc]
    exact .closed hwalk hsemi hlater
  · have hfinishes := hends.finishes
    have hquiet' := hopening.quiet hstretch hquiet hsilent hfinishes.grows
    rw [hopening.run] at hsilent ⊢
    have hbehind : (block t).2.Quiet :=
      Runs.quiet (.ofRespects fun _ => .block) hfinishes.grows hquiet' hsilent
    have hlength : t.rest.length ≤ s.rest.length := by
      rw [hstretch.rest, List.length_append]
      exact Nat.le_add_left _ _
    obtain ⟨inner, closing, hrest, hinner, hclosing⟩ :=
      hblock t hlength hquiet' hbehind.silent hopening.brace
    have hstill : ((block >>= finish) t).2.rest = (block t).2.rest :=
      hfinishes.still (block t).1 (block t).2 hbehind hsilent
    refine ⟨tokens ++ t.current :: (inner ++ [closing]), ?_, fun later hlater => ?_⟩
    · rw [hstretch.rest, hrest, hstill]
      simp
    · rw [List.append_assoc, List.cons_append, List.append_assoc]
      exact .nested hwalk hopening.brace hinner hclosing hlater

section Length

variable {n : Nat} (hblock : ∀ t : ParserState, t.rest.length ≤ n → t.Quiet → (block t).2.Silent →
  t.current.kind = .punctuation .lBrace → Encloses t (block t).2)

include hblock

/-- The tokens of the turns of a block that ask for more. -/
theorem Turns.items {stmts' : List Stmt}
    (h : Turns (blockTurn (statement block) opening) stmts s stmts' u) (hquiet : s.Quiet)
    (hsilent : u.Silent) (hlength : s.rest.length ≤ n) :
    ∃ items, s.rest = items ++ u.rest ∧ Items items := by
  induction h with
  | nothing stmts s => exact ⟨[], rfl, .nil⟩
  | @again stmts next _ s _ hagain hlater ih =>
      have hreached := (Driven.statements opening stmts s).reached
      have hbehind := hreached.quiet hquiet ((hlater.reached (.statements opening)).silent hsilent)
      have hshorter := ((Driven.statements opening).advances hquiet.sealed hagain).length_lt
      rcases blockTurn_cases hquiet hbehind.silent with hclosing | ⟨hopen, hgoes⟩
      · rw [blockTurn_closed hclosing] at hagain
        cases hagain
      · rw [blockTurn_goes hquiet.sealed hopen hgoes] at hbehind ih hshorter
        obtain ⟨item, hitem, hwhole⟩ := statement_item (fun t ht => hblock t (by omega)) hquiet
          hbehind.silent hopen hgoes
        obtain ⟨items, hrest, hitems⟩ := ih hbehind hsilent (by omega)
        refine ⟨item ++ items, ?_, hwhole items hitems⟩
        rw [hitem, List.append_assoc]
        exact congrArg (item ++ ·) hrest

theorem Loop.items {last : List Stmt}
    (hloop : Loop (blockTurn (statement block) opening) stmts s last t) (hquiet : s.Quiet)
    (hsilent : t.Silent) (hlength : s.rest.length ≤ n) :
    ∃ items closing, s.rest = items ++ closing :: t.rest ∧ Items items ∧
      closing.kind = .punctuation .rBrace := by
  obtain ⟨stmts', u, hturns, hdone, rfl⟩ := hloop.turns
  have hreached := hturns.reached (.statements opening)
  have hlast := (Driven.statements opening stmts' u).reached
  have hbehind := hreached.quiet hquiet (hlast.silent hsilent)
  obtain ⟨items, hrest, hitems⟩ := hturns.items hblock hquiet hbehind.silent hlength
  rcases blockTurn_cases hbehind hsilent with hclosing | ⟨hopen, hgoes⟩
  · refine ⟨items, u.current, ?_, hitems, hclosing⟩
    rw [blockTurn_closed hclosing, hrest]
    exact congrArg (items ++ ·) hbehind.sealed.rest_eq
  · rw [blockTurn_goes hbehind.sealed hopen hgoes] at hdone
    cases hdone

end Length

/-- **The tokens of a block.** -/
theorem block_items (hquiet : s.Quiet) (hsilent : (block s).2.Silent)
    (hbrace : s.current.kind = .punctuation .lBrace) : Encloses s (block s).2 := by
  have hall : ∀ (n : Nat) (s : ParserState), s.rest.length ≤ n → s.Quiet → (block s).2.Silent →
      s.current.kind = .punctuation .lBrace → Encloses s (block s).2 := by
    intro n
    induction n with
    | zero =>
        intro s hlength hquiet
        exact (hquiet.sealed.rest_ne_nil (List.length_eq_zero_iff.mp (Nat.le_zero.mp hlength))).elim
    | succ n ih =>
        intro s hlength hquiet hsilent hbrace
        have hrest := hquiet.sealed.rest_eq
        have hadvance := reached_opening hbrace
        rw [block_loop hquiet.sealed.ended hbrace] at hsilent ⊢
        have hloop := Loop.iterate (v := []) (.statements s.current.range) (hadvance.sealed hquiet.sealed)
        have hbehind := hadvance.quiet hquiet
          ((hloop.reached (.statements s.current.range)).silent hsilent)
        have hshorter : (s.skip 1).rest.length ≤ n := by
          rw [hrest, List.length_cons] at hlength
          exact Nat.le_of_succ_le_succ hlength
        obtain ⟨items, closing, hitems, hwhole, hclosing⟩ :=
          hloop.items ih hbehind hsilent hshorter
        exact ⟨items, closing, hrest.trans (congrArg (s.current :: ·) hitems), hwhole, hclosing⟩
  exact hall _ s (Nat.le_refl _) hquiet hsilent hbrace

end BehaviorTree.Parser

/-!
## Items and blocks across a fork

A silent run gets to a fork at the end of an item, at the end of a block or at its start. In front of
the fork the run is the same on both sides, whatever comes behind it.
-/

namespace BehaviorTree

/-! ### What the runs have reported -/

/-- The first run reports nothing, unless it does so later; by then the second one has made the given
reports. -/
structure Reported (reports : List Diagnostic) (s t : ParserState) : Prop where
  begun : 0 < s.position ∧ 0 < t.position
  honest : s.Honest
  reported : s.Silent → t.diagnostics = reports

namespace Reported

open ParserState

variable {reports : List Diagnostic} {s t : ParserState}

theorem skip (h : Reported reports s t) (count : Nat) : Reported reports (s.skip count) (t.skip count) :=
  ⟨h.begun.imp (Nat.lt_add_right count) (Nat.lt_add_right count), h.honest, h.reported⟩

theorem report (h : Reported reports s t) (diagnostic diagnostic' : Diagnostic) :
    Reported reports (s.report diagnostic) (t.report diagnostic') :=
  ⟨h.begun, fun hsilent => (not_silent_report _ hsilent).elim,
    fun hsilent => (not_silent_report _ hsilent).elim⟩

theorem reportOnce (h : Reported reports s t) (diagnostic diagnostic' : Diagnostic) :
    Reported reports (s.reportOnce diagnostic) (t.reportOnce diagnostic') := by
  have hloud := h.honest.not_silent_reportOnce diagnostic
  refine ⟨?_, fun hsilent => (hloud hsilent).elim, fun hsilent => (hloud hsilent).elim⟩
  rw [position_reportOnce, position_reportOnce]
  exact h.begun

theorem withArena (h : Reported reports s t) (arena arena' : Arena) :
    Reported reports { s with arena := arena } { t with arena := arena' } :=
  ⟨h.begun, h.honest, h.reported⟩

end Reported

namespace Books

open ParserState

/-- The silent run has consumed some tokens more than the one that has made the reports. -/
def ahead (reports : List Diagnostic) (lead : Nat) : Books where
  related s t := s.position = t.position + lead ∧ Reported reports s t
  lead := lead
  position h := h.1
  begun h _ := iff_of_true h.2.begun.1 h.2.begun.2
  skip h count := ⟨(congrArg (· + count) h.1).trans (Nat.add_right_comm _ _ _), h.2.skip count⟩
  report h _ := ⟨h.1, h.2.report _ _⟩
  reportOnce h _ := ⟨by rw [position_reportOnce, position_reportOnce, h.1], h.2.reportOnce _ _⟩
  withArena h _ _ := ⟨h.1, h.2.withArena _ _⟩

/-- The silent run, which is the second here, has consumed some tokens less. -/
def behind (reports : List Diagnostic) (lead : Nat) : Books where
  related s t := s.position = t.position + lead ∧ Reported reports t s
  lead := lead
  position h := h.1
  begun h _ := iff_of_true h.2.begun.2 h.2.begun.1
  skip h count := ⟨(congrArg (· + count) h.1).trans (Nat.add_right_comm _ _ _), h.2.skip count⟩
  report h _ := ⟨h.1, h.2.report _ _⟩
  reportOnce h _ := ⟨by rw [position_reportOnce, position_reportOnce, h.1], h.2.reportOnce _ _⟩
  withArena h _ _ := ⟨h.1, h.2.withArena _ _⟩

end Books

/-- The token in front of the fork is the next one, if no more is to come behind it. -/
theorem Fork.Before.skip_one {k : Fork} {s : ParserState} (hbefore : k.Before s)
    (hlength : (s.skip 1).rest.length ≤ k.left.length) : (s.skip 1).rest = k.left := by
  obtain ⟨coming, hcoming⟩ := hbefore.coming
  change (s.rest.drop 1).length ≤ _ at hlength
  show s.rest.drop 1 = k.left
  rw [hcoming] at hlength ⊢
  cases coming with
  | nil => rfl
  | cons token coming =>
      rw [List.cons_append, List.drop_succ_cons, List.drop_zero, List.length_append,
        List.length_cons] at hlength
      omega

/-- Where a run from in front of the fork gets to it, tokens have been consumed. -/
theorem Fork.Before.begun {k : Fork} {s t : ParserState} (hbefore : k.Before s)
    (hreached : Parser.Reached s t) (hrest : t.rest = k.left) : 0 < t.position := by
  obtain ⟨count, -, hbeside⟩ := hreached.passed
  have hposition : t.position = s.position + count := hbeside.position
  have hlength : t.rest.length = s.rest.length - count := by
    rw [hbeside.rest]
    exact List.length_drop
  have hbehind := hbefore.length_lt
  rw [hrest] at hlength
  omega

namespace Parser

open ParserState

variable {α : Type} {body : α → Parser (Turn α)} {v w : α} {s t u : ParserState} {k : Fork}

/-! ### At the fork -/

theorem quiet_switch (hquiet : u.Quiet) : (k.switch u).Sealed → (k.switch u).Quiet :=
  fun hsealed => ⟨hsealed, hquiet.silent, hquiet.gate⟩

/-- Where the fork is the tokens of the right are at hand. -/
theorem rest_switch (hrest : u.rest = k.left) : (k.switch u).rest = k.right :=
  Fork.switch_rest (show u.rest = [] ++ k.left from hrest)

theorem sealed_switch (hrest : u.rest = k.left) : (k.switch u).Sealed := by
  refine ⟨k.ended, ?_⟩
  rw [rest_switch hrest]
  exact k.rightClosed

/-! ### Loops -/

/-- Turns of a loop lead in front of the turn that passes the fork, and they are the same on both
sides. -/
structure MeetsFork (k : Fork) (body : α → Parser (Turn α)) (v : α) (s : ParserState) (w : α)
    (u : ParserState) : Prop where
  turns : Turns body v s w u
  left : iterate body v s = iterate body w u
  right : iterate body v (k.switch s) = iterate body w (k.switch u)
  quiet : u.Quiet
  before : k.Before u
  behind : (body w u).2.Quiet
  passed : (body w u).2.rest.length ≤ k.left.length

/-- A silent loop that passes the fork passes it in one of its turns. -/
theorem MeetsFork.iterate (hdriven : Driven body) (hbody : ∀ v, Nearsighted (body v)) (hquiet : s.Quiet)
    (hsilent : (iterate body v s).2.Silent) (hbefore : k.Before s)
    (hpassed : (iterate body v s).2.rest.length ≤ k.left.length) : ∃ w u, MeetsFork k body v s w u := by
  obtain ⟨coming, hcoming⟩ := hbefore.coming
  have hloop := Loop.iterate (v := v) hdriven hquiet.sealed
  obtain ⟨w, u, hturns, hlater, htarget, hlength⟩ := hloop.passing (k.last :: k.left) hbody
    ⟨coming, hcoming.symm⟩ (Nat.lt_succ_of_le hpassed)
  have hreached := hturns.reached hdriven
  have hthere : k.Before u := hbefore.behind (hturns.onward hbody) htarget.length_le
  have hbehind : Reached s (body w u).2 := hreached.trans (hdriven w u).reached
  have hturn : (body w u).2.Silent := (hlater.behind hdriven).silent hsilent
  exact ⟨w, u, hturns, hturns.iterate hdriven hquiet.sealed,
    (hturns.switch hbody hthere).iterate hdriven hbefore.switch_sealed,
    hreached.quiet hquiet ((hdriven w u).reached.silent hturn), hthere, hbehind.quiet hquiet hturn,
    Nat.le_of_lt_succ hlength⟩

/-! ### Items -/

/-- An item passes the fork in its block. -/
structure Within (k : Fork) (p : Parser α) (s : ParserState) (finish : List Stmt → Parser α)
    (t : ParserState) : Prop where
  left : p s = (block >>= finish) t
  right : p (k.switch s) = (block >>= finish) (k.switch t)
  brace : t.current.kind = .punctuation .lBrace
  quiet : t.Quiet
  behind : (block t).2.Quiet
  still : (p s).2.rest = (block t).2.rest
  onward : s.Onward t
  before : k.Before t
  between : k.Between t.rest

/-- An item that passes the fork ends there, and it is the same on both sides, or it passes the fork
in its block. -/
theorem Crosses.within {p : Parser (Option α)} {shape : α → α}
    {plan : List Token → (List Stmt → Parser (Option α)) → Prop} (hp : Crosses True plan p s)
    (hfinishes : ∀ tokens finish, plan tokens finish → Finishes shape finish)
    (hplan : ∀ tokens finish next behind, plan tokens finish → next.kind = .punctuation .lBrace →
      k.Between (tokens ++ next :: behind) → k.Between (next :: behind))
    (hquiet : s.Quiet) (hsilent : (p s).2.Silent) (hbefore : k.Before s) (hbetween : k.Between s.rest)
    (hpassed : (p s).2.rest.length ≤ k.left.length) :
    (p s).2.rest = k.left ∧ p (k.switch s) = ((p s).1, k.switch (p s).2) ∨
      ∃ tokens finish t, plan tokens finish ∧ Within k p s finish t := by
  rcases hp.quietly hquiet hsilent with
    ⟨-, hclosing⟩ | ⟨finish, t, tokens, made, htokens, hstretch, hopening⟩
  · refine .inl ((hclosing.crossing hbefore hbetween).resolve_right fun hlater => ?_)
    obtain ⟨coming, hcoming, -⟩ := hlater
    rw [hcoming, List.length_append, List.length_cons] at hpassed
    omega
  · have hfinish := hfinishes tokens finish htokens
    have hquiet' := hopening.quiet hstretch hquiet hsilent hfinish.grows
    have hthere : k.Between t.rest := by
      rw [hopening.rest_eq]
      refine hplan tokens finish _ _ htokens hopening.brace ?_
      rw [← hopening.rest_eq, ← hstretch.rest]
      exact hbetween
    have hlength : k.left.length < t.rest.length := by
      obtain ⟨coming, hcoming, -⟩ := hthere
      rw [hcoming, List.length_append, List.length_cons]
      omega
    have hthere' : k.Before t := hbefore.behind hstretch.onward hlength
    have hsilent' : ((Parser.block >>= finish) t).2.Silent := by
      rw [← hopening.run]
      exact hsilent
    have hbehind : (Parser.block t).2.Quiet :=
      Runs.quiet (.ofRespects fun _ => .block) hfinish.grows hquiet' hsilent'
    refine .inr ⟨tokens, finish, t, htokens, hopening.run, hopening.same k hthere', hopening.brace,
      hquiet', hbehind, ?_, hstretch.onward, hthere', hthere⟩
    rw [hopening.run]
    exact hfinish.still (Parser.block t).1 (Parser.block t).2 hbehind hsilent'

theorem Within.ofStatement (hquiet : s.Quiet) (hsilent : (statement block s).2.Silent)
    (hopen : s.current.isPunctuation .rBrace = false) (hgoes : breaksBlock s.current = false)
    (hbefore : k.Before s) (hbetween : k.Between s.rest)
    (hpassed : (statement block s).2.rest.length ≤ k.left.length) :
    (statement block s).2.rest = k.left ∧
        statement block (k.switch s) = ((statement block s).1, k.switch (statement block s).2) ∨
      ∃ finish t, FinishesStmt finish ∧ Within k (statement block) s finish t := by
  refine ((Crosses.statement hquiet hsilent hopen hgoes).within (fun _ _ h => h.2.finishes)
    (fun tokens finish next behind h hnext hbetween => ?_) hquiet hsilent hbefore hbetween hpassed).imp
    id fun ⟨_, finish, t, h, hwithin⟩ => ⟨finish, t, h.2, hwithin⟩
  exact hbetween.past h.1.balanced (hbetween.length_lt h.1 (by simp [hnext]))

theorem Within.ofDeclaration (hquiet : s.Quiet) (hsilent : (declaration s).2.Silent)
    (hgoes : s.current.isEndOfFile = false) (hbefore : k.Before s) (hbetween : k.Between s.rest)
    (hpassed : (declaration s).2.rest.length ≤ k.left.length) :
    (declaration s).2.rest = k.left ∧
        declaration (k.switch s) = ((declaration s).1, k.switch (declaration s).2) ∨
      ∃ tokens finish t, TreePlan tokens finish ∧ Within k declaration s finish t := by
  refine (Crosses.declaration hquiet hsilent hgoes).within (fun _ _ h => h.finishes)
    (fun tokens finish next behind h hnext hbetween => ?_) hquiet hsilent hbefore hbetween hpassed
  obtain ⟨ahead, _, rfl, hahead, _, _, _, ⟨word, name, header, _, rfl, hword, hname, hheader, -⟩, -⟩ := h
  -- What comes in front of the tree, its first two tokens, and the rest up to its block.
  simp only [List.append_assoc, List.cons_append] at hbetween
  have hword' := hbetween.past hahead.balanced (hbetween.length_lt hahead (by simp [hword]))
  have hname' := Fork.Between.step hword' (by simp [hword, TokenKind.isStop]) (by rw [hword]; rfl)
  have hheader' := hname'.step (by simp [hname, TokenKind.isStop]) (by rw [hname]; rfl)
  exact hheader'.past hheader.balanced (hheader'.length_lt hheader (by simp [hnext]))

/-! ### Blocks -/

theorem block_switch (hbefore : k.Before s) (hbrace : s.current.kind = .punctuation .lBrace) :
    block (k.switch s) =
      iterate (blockTurn (statement block) s.current.range) [] ((k.switch s).skip 1) := by
  rw [block_loop hbefore.switch_sealed.ended (by rw [hbefore.current, hbrace]), hbefore.current]

/-- In front of a fork at or in a block the turns of the block are the same on both sides. -/
theorem MeetsFork.block (hquiet : s.Quiet) (hsilent : (Parser.block s).2.Silent)
    (hbrace : s.current.kind = .punctuation .lBrace) (hbefore : k.Before s)
    (hinside : k.left.length < (s.skip 1).rest.length)
    (hpassed : (Parser.block s).2.rest.length ≤ k.left.length) :
    ∃ stmts u,
      MeetsFork k (blockTurn (Parser.statement Parser.block) s.current.range) [] (s.skip 1) stmts u := by
  have hthere : k.Before (s.skip 1) := hbefore.behind (s.onward_skip 1) hinside
  have hadvance := reached_opening hbrace
  rw [block_loop hquiet.sealed.ended hbrace] at hsilent hpassed
  have hloop := Loop.iterate (v := []) (.statements s.current.range) (hadvance.sealed hquiet.sealed)
  have hbehind := hadvance.quiet hquiet ((hloop.reached (.statements s.current.range)).silent hsilent)
  exact MeetsFork.iterate (.statements _) (Nearsighted.blockTurn .block _) hbehind hsilent hthere hpassed

/-- How a turn of a block gets past the fork: with the brace of the block, at the end of a statement or
in the block of one. -/
inductive GetsPast (k : Fork) (s u : ParserState) : Prop
  | closed : u.current.kind = .punctuation .rBrace → GetsPast k s u
  | behind : u.current.isPunctuation .rBrace = false → breaksBlock u.current = false →
      (statement Parser.block u).2.rest = k.left → (statement Parser.block u).2.Quiet →
      statement Parser.block (k.switch u) =
        ((statement Parser.block u).1, k.switch (statement Parser.block u).2) → GetsPast k s u
  | within {finish : List Stmt → Parser (Option Stmt)} {t : ParserState} :
      u.current.isPunctuation .rBrace = false → breaksBlock u.current = false →
      FinishesStmt finish → Within k (statement Parser.block) u finish t →
      (statement Parser.block u).2.Quiet → (Parser.block t).2.rest.length ≤ k.left.length →
      t.rest.length < s.rest.length → t.final = s.final → GetsPast k s u

theorem MeetsFork.getsPast (hquiet : s.Quiet) (hsilent : (Parser.block s).2.Silent)
    (hbrace : s.current.kind = .punctuation .lBrace) (hbefore : k.Before s)
    (hbetween : k.Between s.rest) (hinside : k.left.length < (s.skip 1).rest.length)
    (hpassed : (Parser.block s).2.rest.length ≤ k.left.length) :
    ∃ stmts u, MeetsFork k (blockTurn (statement Parser.block) s.current.range) [] (s.skip 1) stmts u ∧
      GetsPast k s u := by
  have hdriven := Driven.statements s.current.range
  obtain ⟨stmts, u, hmeets⟩ := MeetsFork.block hquiet hsilent hbrace hbefore hinside hpassed
  refine ⟨stmts, u, hmeets, ?_⟩
  have hbegun := (reached_opening hbrace).quiet hquiet
    ((hmeets.turns.reached hdriven).silent hmeets.quiet.silent)
  obtain ⟨items, hitems, hwhole⟩ := hmeets.turns.items (fun t _ => block_items) hbegun
    hmeets.quiet.silent (Nat.le_refl _)
  have hrest : s.rest = (s.current :: items) ++ u.rest :=
    hquiet.sealed.rest_eq.trans (congrArg (s.current :: ·) hitems)
  have hthere : k.Between u.rest := by
    rw [hrest] at hbetween
    refine hbetween.past ?_ hmeets.before.length_lt
    rw [Token.balanced_cons (by rw [hbrace]; rfl), hwhole.balanced]
  rcases blockTurn_cases hmeets.quiet hmeets.behind.silent with hclosing | ⟨hopen, hgoes⟩
  · exact .closed hclosing
  · have hpassed := hmeets.passed
    have hbehind := hmeets.behind
    rw [blockTurn_goes hmeets.quiet.sealed hopen hgoes] at hpassed hbehind
    rcases Within.ofStatement hmeets.quiet hbehind.silent hopen hgoes hmeets.before hthere hpassed with
      ⟨hleft, hsame⟩ | ⟨finish, t, hends, hwithin⟩
    · exact .behind hopen hgoes hleft hbehind hsame
    · have hlength := hwithin.onward.rest.length_le
      have hmore := congrArg List.length hrest
      rw [List.length_append, List.length_cons] at hmore
      refine .within hopen hgoes hends hwithin hbehind ?_ (by omega) ?_
      · rw [← hwithin.still]
        exact hpassed
      · rw [hwithin.onward.final, (hmeets.turns.onward (Nearsighted.blockTurn .block _)).final]
        rfl

/-- A block that ends where the fork is is parsed the same on both sides. -/
theorem block_exact (hquiet : s.Quiet) (hsilent : (block s).2.Silent)
    (hbrace : s.current.kind = .punctuation .lBrace) (hbefore : k.Before s)
    (hrest : (block s).2.rest = k.left) :
    block (k.switch s) = ((block s).1, k.switch (block s).2) := by
  obtain ⟨inner, closing, hinner, -, -⟩ := block_items hquiet hsilent hbrace
  have hinside : k.left.length < (s.skip 1).rest.length := by
    have hlength := congrArg (fun tokens => (List.drop 1 tokens).length) hinner
    simp only [List.drop_succ_cons, List.drop_zero, List.length_append, List.length_cons, hrest] at hlength
    show k.left.length < (s.rest.drop 1).length
    omega
  obtain ⟨stmts, u, hmeets⟩ :=
    MeetsFork.block hquiet hsilent hbrace hbefore hinside (Nat.le_of_eq (by rw [hrest]))
  have hthere : k.Before (s.skip 1) := hbefore.behind (s.onward_skip 1) hinside
  rw [block_switch hbefore hbrace, Fork.switch_skip hthere, hmeets.right]
  rw [block_loop hquiet.sealed.ended hbrace, hmeets.left] at hrest hsilent ⊢
  have hloop := Loop.iterate (v := stmts) (.statements s.current.range) hmeets.quiet.sealed
  rcases blockTurn_cases hmeets.quiet hmeets.behind.silent with hclosing | ⟨hopen, hgoes⟩
  · rw [iterate_done (congrArg Prod.fst (blockTurn_closed hclosing)), blockTurn_closed hclosing] at hrest ⊢
    rw [iterate_done (congrArg Prod.fst (blockTurn_closed (by rw [hmeets.before.current, hclosing]))),
      blockTurn_closed (by rw [hmeets.before.current, hclosing]), hmeets.before.switch_skip hrest]
  · -- Behind a statement the loop would not stop in front of the fork.
    have hturn : blockTurn (statement block) s.current.range stmts u = _ :=
      blockTurn_goes hmeets.quiet.sealed hopen hgoes
    obtain ⟨items, closing, hitems, -, -⟩ := (Loop.iterate (v := stmts ++ (statement block u).1.toList)
      (.statements s.current.range) hmeets.behind.sealed).items (fun t _ => block_items) hmeets.behind
      (by
        rw [iterate_eq (.statements _) hmeets.quiet.sealed, hturn] at hsilent
        rw [hturn]
        exact hsilent) (Nat.le_refl _)
    have hpassed := hmeets.passed
    rw [iterate_eq (.statements _) hmeets.quiet.sealed, hturn] at hrest
    rw [hturn] at hitems hpassed
    rw [hitems, List.length_append, List.length_cons] at hpassed
    have hlength := congrArg List.length hrest
    change (iterate _ _ (statement block u).2).2.rest.length = k.left.length at hlength
    dsimp only at hpassed
    omega

/-! ### Programs -/

/-- A run that ends at the end of the file has consumed the tokens in front of that. -/
theorem Onward.passed {before left : List Token} (h : s.Onward t) (hrest : s.rest = before ++ left)
    (hunended : ∀ token ∈ before, token.isEndOfFile = false) (hend : t.current.isEndOfFile = true) :
    t.rest.length ≤ left.length := by
  refine Nat.le_of_not_lt fun hlength => ?_
  have hsuffix := h.rest
  rw [hrest] at hsuffix
  obtain ⟨more, hmore⟩ := List.suffix_of_suffix_length_le (List.suffix_append before left) hsuffix
    (Nat.le_of_lt hlength)
  obtain ⟨passed, hpassed⟩ := hsuffix
  rw [← hmore, ← List.append_assoc] at hpassed
  have hbefore := List.append_cancel_right hpassed
  cases more with
  | nil =>
      rw [← hmore] at hlength
      exact Nat.lt_irrefl _ hlength
  | cons token more =>
      rw [current_of_rest hmore.symm, hunended token (by rw [← hbefore]; simp)] at hend
      cases hend

theorem moduleDocTurn_cases (docs : List String) (s : ParserState) :
    (∃ line, s.current.kind = .moduleDoc line) ∧ (moduleDocTurn docs s).2 = s.skip 1 ∨
      moduleDocTurn docs s = (.done docs, s) := by
  cases hkind : s.current.kind with
  | moduleDoc line =>
      refine .inl ⟨⟨line, rfl⟩, ?_⟩
      simp only [moduleDocTurn, bind, StateT.bind, Parser.peek, hkind]
      exact advance_of_goes (by simp [Token.isEndOfFile, hkind])
  | _ =>
      right
      simp only [moduleDocTurn, bind, StateT.bind, Parser.peek, hkind]
      rfl

/-- What comes first among the tokens and is no documentation of the module comes behind that. -/
theorem moduleDocs_suffix {ahead behind : List Token} {token : Token} (hsealed : s.Sealed)
    (hrest : s.rest = ahead ++ token :: behind) (hdoc : ∀ line, token.kind ≠ .moduleDoc line) :
    ∃ coming, (moduleDocs s).2.rest = coming ++ token :: behind ∧
      (Token.openings ahead = Token.closings ahead → Token.openings coming = Token.closings coming) := by
  have hloop := Loop.iterate (v := []) Driven.moduleDocTurn hsealed
  change Loop moduleDocTurn [] s (moduleDocs s).1 (moduleDocs s).2 at hloop
  generalize ([] : List String) = docs at hloop
  generalize (moduleDocs s).1 = last at hloop
  generalize (moduleDocs s).2 = s' at hloop ⊢
  clear hsealed
  -- A turn that consumes a token consumes documentation, so not yet the given token.
  have hstep : ∀ {ahead : List Token} {s : ParserState}, s.rest = ahead ++ token :: behind →
      (∃ line, s.current.kind = .moduleDoc line) → ∃ ahead', (s.skip 1).rest = ahead' ++ token :: behind ∧
        (Token.openings ahead = Token.closings ahead → Token.openings ahead' = Token.closings ahead') := by
    rintro (_ | ⟨first, ahead⟩) s hrest ⟨line, hline⟩
    · rw [current_of_rest hrest] at hline
      exact absurd hline (hdoc line)
    · rw [List.cons_append] at hrest
      have hcurrent : s.current = first := current_of_rest hrest
      refine ⟨ahead, ?_, (Token.balanced_cons ?_).mp⟩
      · show s.rest.drop 1 = _
        rw [hrest]
        rfl
      · rw [← hcurrent, hline]
        rfl
  induction hloop generalizing ahead with
  | @last docs last s hdone =>
      rcases moduleDocTurn_cases docs s with ⟨hline, hstate⟩ | hstill
      · rw [hstate]
        exact hstep hrest hline
      · rw [hstill]
        exact ⟨ahead, hrest, id⟩
  | @turn docs next last s s' hagain hlater ih =>
      rcases moduleDocTurn_cases docs s with ⟨hline, hstate⟩ | hstill
      · rw [hstate] at ih
        obtain ⟨ahead', hrest', hbalanced⟩ := hstep hrest hline
        obtain ⟨coming, hcoming, hbalanced'⟩ := ih hrest'
        exact ⟨coming, hcoming, fun h => hbalanced' (hbalanced h)⟩
      · rw [hstill] at hagain
        cases hagain

end Parser

namespace Parsed

/-- In front of a stream everything but its tokens is given. -/
theorem switch_initial {k : Fork} {file : FileId} {tokens tokens' : List Token} {arena : Arena}
    (hrest : (k.switch (initial file tokens arena)).rest = (initial file tokens' arena).rest)
    (hfinal : k.final = (initial file tokens' arena).final) :
    k.switch (initial file tokens arena) = initial file tokens' arena := by
  show { initial file tokens' arena with
    rest := (k.switch (initial file tokens arena)).rest, final := k.final } = _
  rw [hrest, hfinal]

end Parsed

end BehaviorTree
