import BehaviorTree.Proofs.Parsing.TermsLaid

/-!
# Runs on reflowed tokens

Two states are reflowed forms of each other if they differ in the line breaks between tokens only. A
parser flows if from such states, should the run from one of them report no error, both runs return
the same and end in reflowed states. Where a parser looks at a line break after it has reported an
error, nothing is left to show.
-/

namespace BehaviorTree

/-- A token without the line break in front of it. -/
def Token.flat (token : Token) : Token := { token with newlineBefore := false }

theorem Skip.assignmentFollows_flat {depth : Nat} {tokens : List Token} :
    assignmentFollows depth (tokens.map Token.flat) = assignmentFollows depth tokens := by
  have hmark : ∀ (token : Token) mark, token.flat.isPunctuation mark = token.isPunctuation mark :=
    fun _ _ => rfl
  have hassigns : ∀ token : Token, token.flat.isAssignment = token.isAssignment := fun _ => rfl
  have hend : ∀ token : Token, token.flat.isEndOfFile = token.isEndOfFile := fun _ => rfl
  induction tokens generalizing depth with
  | nil => cases depth <;> rfl
  | cons token rest ih =>
      cases depth with
      | zero => simp only [List.map_cons, assignmentFollows, hmark, hassigns, ih]
      | succ depth => simp only [List.map_cons, assignmentFollows, hmark, hassigns, hend, ih]

namespace ParserState

/-- A state without the line breaks between the tokens to come. -/
def flat (state : ParserState) : ParserState :=
  { state with rest := state.rest.map Token.flat, final := state.final.flat }

/-- The states differ in line breaks only. -/
def Reflowed (s t : ParserState) : Prop := s.flat = t.flat

/-- Whether the current token starts a construct, if it starts a line. -/
def startsIn (state : ParserState) (inBody : Bool) : Bool :=
  match state.current.kind with
  | .keyword word => word.isOpener
  | .docComment _ | .punctuation .rBrace | .punctuation .at => inBody
  | .identifier =>
    inBody && ((state.tokenAt 1).isPunctuation .lParen || (state.tokenAt 1).isPunctuation .lBrace ||
      Skip.assignmentFollows 0 (state.rest.drop 1))
  | _ => false

theorem startsConstruct_eq (state : ParserState) (inBody : Bool) :
    state.startsConstruct inBody = (state.current.newlineBefore && state.startsIn inBody) := rfl

theorem flat_tokenAt (state : ParserState) (count : Nat) :
    state.flat.tokenAt count = (state.tokenAt count).flat := by
  unfold tokenAt flat
  rw [List.getElem?_map]
  cases state.rest[count]? <;> rfl

theorem flat_skip (state : ParserState) (count : Nat) :
    (state.skip count).flat = state.flat.skip count := by
  have hrange : ∀ token : Token, token.flat.range = token.range := fun _ => rfl
  unfold skip flat
  simp [List.map_drop, ← List.map_take, Function.comp_def, hrange]

namespace Reflowed

variable {s t : ParserState}

theorem eq (h : Reflowed s t) : s.flat = t.flat := h

/-- What is read off a state without its line breaks is the same. -/
theorem congr {α : Type} (h : Reflowed s t) (read : ParserState → α) : read s.flat = read t.flat :=
  congrArg read h.eq

theorem tokenAt (h : Reflowed s t) (count : Nat) :
    (s.tokenAt count).flat = (t.tokenAt count).flat := by
  rw [← flat_tokenAt, ← flat_tokenAt, h.eq]

theorem current (h : Reflowed s t) : s.current.flat = t.current.flat := h.tokenAt 0

theorem rest (h : Reflowed s t) : s.rest.map Token.flat = t.rest.map Token.flat :=
  h.congr (·.rest)

theorem length_eq (h : Reflowed s t) : s.rest.length = t.rest.length := by
  rw [← List.length_map Token.flat, h.rest, List.length_map]

theorem skip (h : Reflowed s t) (count : Nat) : Reflowed (s.skip count) (t.skip count) := by
  rw [Reflowed, flat_skip, flat_skip, h.eq]

theorem report (h : Reflowed s t) (d : Diagnostic) : Reflowed (s.report d) (t.report d) :=
  h.congr (·.report d)

theorem file (h : Reflowed s t) : s.file = t.file := h.congr (·.file)

theorem arena (h : Reflowed s t) : s.arena = t.arena := h.congr (·.arena)

theorem withArena (h : Reflowed s t) (arena : Arena) :
    Reflowed { s with arena } { t with arena } := by
  have hflat : ({ s.flat with arena } : ParserState) = { t.flat with arena } := by rw [h.eq]
  exact hflat

theorem rangeSince (h : Reflowed s t) (start : SourceRange) :
    s.rangeSince start = t.rangeSince start :=
  h.congr (·.rangeSince start)

theorem assignmentFollows (h : Reflowed s t) :
    Skip.assignmentFollows 0 (s.rest.drop 1) = Skip.assignmentFollows 0 (t.rest.drop 1) := by
  rw [← Skip.assignmentFollows_flat, List.map_drop, h.rest, ← List.map_drop,
    Skip.assignmentFollows_flat]

theorem startsIn (h : Reflowed s t) (inBody : Bool) : s.startsIn inBody = t.startsIn inBody := by
  have hkind : s.current.kind = t.current.kind :=
    show s.current.flat.kind = t.current.flat.kind by rw [h.current]
  have hmark : ∀ mark, (s.tokenAt 1).isPunctuation mark = (t.tokenAt 1).isPunctuation mark := by
    intro mark
    show (s.tokenAt 1).flat.isPunctuation mark = (t.tokenAt 1).flat.isPunctuation mark
    rw [h.tokenAt]
  unfold ParserState.startsIn
  simp only [hkind, hmark, h.assignmentFollows]

end Reflowed

end ParserState

open ParserState

namespace Parser

variable {α β : Type} {p : Parser α} {f : α → Parser β}

/-- From reflowed states the parser returns the same and ends in reflowed states, unless the first
run reports an error. -/
structure Flows (p : Parser α) : Prop where
  retains : Retains p
  run (s t : ParserState) : s.Guarded → Reflowed s t → (p s).2.Errorless →
    (p t).1 = (p s).1 ∧ Reflowed (p s).2 (p t).2

theorem Flows.pure (a : α) : Flows (Pure.pure a : Parser α) where
  retains := Retains.pure a
  run _ _ _ h _ := ⟨rfl, h⟩

/-- One parser behind another, which flows from what the first one delivers. -/
theorem Flows.bindDelivered (post : α → Prop) (hp : Flows p)
    (hpost : ∀ s, Delivers p s fun a _ => post a) (hretains : ∀ a, Retains (f a))
    (hf : ∀ a, post a → Flows (f a)) : Flows (p >>= f) where
  retains := Retains.bind hp.retains hretains
  run s t hguarded h herrorless := by
    obtain ⟨hguarded₁, hdelivers⟩ := hpost s hguarded
    have herrorless' : (f (p s).1 (p s).2).2.Errorless := herrorless
    have hbefore := ((hretains (p s).1 (p s).2 hguarded₁).2 herrorless').1
    obtain ⟨hvalue, hstates⟩ := hp.run s t hguarded h hbefore
    have hrun := (hf (p s).1 (hdelivers hbefore).2).run (p s).2 (p t).2 hguarded₁ hstates herrorless'
    show (f (p t).1 (p t).2).1 = (f (p s).1 (p s).2).1 ∧
      Reflowed (f (p s).1 (p s).2).2 (f (p t).1 (p t).2).2
    rw [hvalue]
    exact hrun

theorem Flows.bind (hp : Flows p) (hf : ∀ a, Flows (f a)) : Flows (p >>= f) :=
  Flows.bindDelivered (fun _ => True) hp hp.retains (fun a => (hf a).retains) fun a _ => hf a

theorem Flows.map {g : α → β} (hp : Flows p) : Flows (g <$> p) :=
  Flows.bind (f := fun a => Pure.pure (g a)) hp fun a => Flows.pure (g a)

/-- A parser that always reports an error. -/
theorem Flows.of_fails (hp : ∀ s, Delivers p s fun _ _ => False) : Flows p where
  retains s := (hp s).retains
  run s _ hguarded _ herrorless := ((hp s hguarded).2 herrorless).2.elim

theorem Flows.fail (hp : ∀ s, Delivers p s fun _ _ => False) (hf : ∀ a, Retains (f a)) :
    Flows (p >>= f) :=
  Flows.of_fails fun s => Delivers.fail (hp s) hf

/-- A step that reads nothing but what reflowed states share. -/
theorem Flows.of_same (hretains : Retains p)
    (hrun : ∀ s t, Reflowed s t → (p t).1 = (p s).1 ∧ Reflowed (p s).2 (p t).2) : Flows p where
  retains := hretains
  run s t _ h _ := hrun s t h

/-! ### Looking around -/

/-- What is done with the current token does not depend on the line break in front of it. -/
theorem Flows.peek {f : Token → Parser β} (hflat : ∀ token : Token, f token.flat = f token)
    (hf : ∀ token, Flows (f token)) : Flows (Parser.peek >>= f) where
  retains s := (hf s.current).retains s
  run s t hguarded h herrorless := by
    have hsame : f t.current = f s.current := by
      rw [← hflat, ← h.current, hflat]
    show (f t.current t).1 = (f s.current s).1 ∧ Reflowed (f s.current s).2 (f t.current t).2
    rw [hsame]
    exact (hf s.current).run s t hguarded h herrorless

theorem Flows.peekSecond {f : Token → Parser β} (hflat : ∀ token : Token, f token.flat = f token)
    (hf : ∀ token, Flows (f token)) : Flows (Parser.peekSecond >>= f) where
  retains s := (hf (s.tokenAt 1)).retains s
  run s t hguarded h herrorless := by
    have hsame : f (t.tokenAt 1) = f (s.tokenAt 1) := by
      rw [← hflat, ← h.tokenAt, hflat]
    show (f (t.tokenAt 1) t).1 = (f (s.tokenAt 1) s).1 ∧
      Reflowed (f (s.tokenAt 1) s).2 (f (t.tokenAt 1) t).2
    rw [hsame]
    exact (hf (s.tokenAt 1)).run s t hguarded h herrorless

theorem Flows.atPunctuation (mark : Punctuation) : Flows (atPunctuation mark) :=
  Flows.peek (f := fun token => Pure.pure (token.isPunctuation mark)) (fun _ => rfl) fun _ => Flows.pure _

theorem Flows.atEnd : Flows atEnd :=
  Flows.peek (f := fun token => Pure.pure token.isEndOfFile) (fun _ => rfl) fun _ => Flows.pure _

theorem Flows.rangeSince (start : SourceRange) : Flows (rangeSince start) :=
  Flows.of_same (fun _ => Delivers.of_bind_pure (Delivers.rangeSince (Delivers.pure trivial)))
    fun _ _ h => ⟨(h.rangeSince start).symm, h⟩

/-! ### Making nodes -/

/-- A step on the arena alone. -/
theorem Flows.onArena (step : Arena → α × Arena) :
    Flows fun state => ((step state.arena).1, { state with arena := (step state.arena).2 }) := by
  refine Flows.of_same (fun s hguarded => ?_) fun s t h => ?_
  · exact ⟨⟨hguarded.final, hguarded.gate⟩, fun herrorless => ⟨herrorless, trivial⟩⟩
  · dsimp only
    rw [← h.arena]
    exact ⟨rfl, h.withArena _⟩

theorem Flows.intern (text : String) : Flows (intern text) :=
  Flows.onArena fun arena => ((), arena.intern text)

theorem Flows.nameOf (token : Token) : Flows (nameOf token) :=
  Flows.bind (Flows.intern token.text) fun _ => Flows.pure _

theorem Flows.newExpr (range : SourceRange) (build : Origin → Expr) : Flows (newExpr range build) :=
  Flows.onArena fun arena => arena.addExpr range build

theorem Flows.newType (range : SourceRange) (build : Origin → TypeExpr) :
    Flows (newType range build) :=
  Flows.onArena fun arena => arena.addType range build

theorem Flows.newStmt (range : SourceRange) (build : Origin → Stmt) : Flows (newStmt range build) :=
  Flows.onArena fun arena => arena.addStmt range build

theorem Flows.newDecl (range : SourceRange) (build : Origin → Decl) : Flows (newDecl range build) :=
  Flows.onArena fun arena => arena.addDecl range build

theorem Flows.widenExpr (expr : Expr) (range : SourceRange) : Flows (widenExpr expr range) :=
  Flows.onArena fun arena => arena.widenExpr expr range

theorem Flows.emptyHere : Flows emptyHere := by
  refine Flows.of_same (fun s hguarded => ⟨hguarded, fun herrorless => ⟨herrorless, trivial⟩⟩)
    fun s t h => ⟨?_, h⟩
  show SourceRange.emptyAt t.file t.current.flat.range.start =
    SourceRange.emptyAt s.file s.current.flat.range.start
  rw [h.current, h.file]

theorem Flows.missingExpr : Flows missingExpr :=
  Flows.bind Flows.emptyHere fun _ => Flows.newExpr _ _

theorem Flows.missingType : Flows missingType :=
  Flows.bind Flows.emptyHere fun _ => Flows.newType _ _

/-! ### Consuming tokens -/

theorem Flows.report (d : Diagnostic) : Flows (report d) := by
  refine Flows.of_same (fun s => ?_) fun s t h => ⟨rfl, h.report d⟩
  exact Delivers.of_bind_pure (Delivers.warn fun _ _ => Delivers.pure trivial)

theorem Flows.advance {f : Token → Parser β} (hflat : ∀ token : Token, f token.flat = f token)
    (hf : ∀ token, Flows (f token)) : Flows (Parser.advance >>= f) where
  retains := Retains.bind Retains.advance fun token => (hf token).retains
  run s t hguarded h herrorless := by
    have hsame : f t.current = f s.current := by
      rw [← hflat, ← h.current, hflat]
    have hend : t.current.isEndOfFile = s.current.isEndOfFile :=
      show t.current.flat.isEndOfFile = s.current.flat.isEndOfFile by rw [h.current]
    have hstates : Reflowed (Parser.advance s).2 (Parser.advance t).2 := by
      show Reflowed (if s.current.isEndOfFile then s else s.skip 1)
        (if t.current.isEndOfFile then t else t.skip 1)
      rw [hend]
      split
      · exact h
      · exact h.skip 1
    show (f t.current (Parser.advance t).2).1 = (f s.current (Parser.advance s).2).1 ∧
      Reflowed (f s.current (Parser.advance s).2).2 (f t.current (Parser.advance t).2).2
    rw [hsame]
    exact (hf s.current).run _ _ (Retains.advance s hguarded).1 hstates herrorless

theorem Flows.accept {test : Token → Bool} (htest : ∀ token : Token, test token.flat = test token) :
    Flows (accept test) := by
  have hflat : ∀ token : Token, (if test token.flat then (do
      let _ ← Parser.advance
      Pure.pure true) else Pure.pure false : Parser Bool) = if test token then (do
      let _ ← Parser.advance
      Pure.pure true) else Pure.pure false := by
    intro token
    rw [htest]
  refine Flows.peek hflat fun token => ?_
  split
  · exact Flows.advance (fun _ => rfl) fun _ => Flows.pure true
  · exact Flows.pure false

theorem Flows.acceptPunctuation (mark : Punctuation) : Flows (acceptPunctuation mark) :=
  Flows.accept fun _ => rfl

theorem Flows.acceptOperator (op : Operator) : Flows (acceptOperator op) :=
  Flows.accept fun _ => rfl

/-! ### Demands -/

theorem Flows.expectPunctuation (mark : Punctuation) (context : String) (set : RecoverySet) :
    Flows (expectPunctuation mark context set) := by
  refine Flows.bind (Flows.acceptPunctuation mark) fun found => ?_
  split
  · exact Flows.pure true
  · refine Flows.fail (fun _ => Delivers.missing) fun recovery => ?_
    cases recovery with
    | insert => exact Retains.pure _
    | skip => exact Retains.bind (Retains.synchronize set) fun _ => Retains.acceptPunctuation mark

theorem Flows.expectSemi (context : String) (set : RecoverySet) : Flows (expectSemi context set) := by
  refine Flows.bind (Flows.acceptPunctuation .semi) fun found => ?_
  split
  · exact Flows.pure ()
  · refine Flows.fail (fun _ => Delivers.missing) fun recovery => ?_
    cases recovery with
    | insert => exact Retains.pure _
    | skip =>
        refine Retains.bind (Retains.synchronize set) fun _ => ?_
        exact Retains.bind (Retains.acceptPunctuation _) fun _ => Retains.pure _

theorem Flows.expectOperator (op : Operator) (context : String) (set : RecoverySet) :
    Flows (expectOperator op context set) := by
  refine Flows.bind (Flows.acceptOperator op) fun found => ?_
  split
  · exact Flows.pure true
  · refine Flows.fail (fun _ => Delivers.missing) fun _ => ?_
    exact Retains.bind (Retains.synchronize set) fun _ => Retains.acceptOperator op

/-- A name that is there is taken in the same way; that another token is there is reported before
the line break in front of it is looked at. -/
theorem Flows.expectName (what : String) (set : RecoverySet) : Flows (expectName what set) where
  retains _ := Delivers.expectName.retains
  run s t hguarded h herrorless := by
    obtain ⟨token, hkind, -, hstretch⟩ := (Delivers.expectName hguarded).2 herrorless |>.2
    have hcurrent : s.current = token := by
      simp [ParserState.current, ParserState.tokenAt, hstretch.rest]
    have hname : ∀ state : ParserState, state.current.isIdentifier = true →
        Parser.expectName what set state = (Parser.advance >>= fun _ =>
          some <$> Parser.nameOf state.current) state := by
      intro state hstate
      show (if state.current.isIdentifier then _ else _ : Parser (Option Name)) state = _
      rw [if_pos hstate]
      rfl
    have hs : s.current.isIdentifier = true := by simp [Token.isIdentifier, hcurrent, hkind]
    have ht : t.current.isIdentifier = true := by
      rw [show t.current.isIdentifier = t.current.flat.isIdentifier from rfl, ← h.current]
      exact hs
    have hsame : Parser.nameOf t.current = Parser.nameOf s.current := by
      rw [show Parser.nameOf t.current = Parser.nameOf t.current.flat from rfl, ← h.current]
      rfl
    rw [hname s hs] at herrorless ⊢
    rw [hname t ht, hsame]
    exact (Flows.advance (fun _ => rfl) fun _ => Flows.map (Flows.nameOf s.current)).run s t hguarded h
      herrorless

/-- Behind a name. -/
theorem Flows.name {what : String} {set : RecoverySet} {f : Option Name → Parser β}
    (hnone : Retains (f none)) (hsome : ∀ name, Flows (f (some name))) :
    Flows (Parser.expectName what set >>= f) := by
  refine Flows.bindDelivered (fun name => name.isSome = true) (Flows.expectName what set)
    (fun s => Delivers.expectName.mono fun name _ h => ?_) (fun name => ?_) fun name hname => ?_
  · obtain ⟨token, -, rfl, -⟩ := h
    rfl
  · cases name with
    | none => exact hnone
    | some name => exact (hsome name).retains
  · obtain ⟨name, rfl⟩ := Option.isSome_iff_exists.mp hname
    exact hsome name

/-! ### Loops -/

theorem Flows.iterate {body : α → Parser (Turn α)} {v : α} (hbody : ∀ v, Flows (body v)) :
    Flows (iterate body v) := by
  have halong : ∀ (turns : List Token) (v : α), Flows (Parser.iterateAlong body turns v) := by
    intro turns
    induction turns with
    | nil =>
        intro v
        refine Flows.bind (hbody v) fun turn => ?_
        cases turn <;> exact Flows.pure _
    | cons token turns ih =>
        intro v
        refine Flows.bind (hbody v) fun turn => ?_
        cases turn with
        | again next => exact ih next
        | done last => exact Flows.pure last
  have hturns : ∀ (turns turns' : List Token) (v : α), turns.length = turns'.length →
      Parser.iterateAlong body turns v = Parser.iterateAlong body turns' v := by
    intro turns
    induction turns with
    | nil =>
        intro turns' v hlength
        rw [List.length_eq_zero_iff.mp hlength.symm]
    | cons token turns ih =>
        intro turns' v hlength
        cases turns' with
        | nil => cases hlength
        | cons token' turns' =>
            unfold Parser.iterateAlong
            congr 1
            funext turn
            cases turn with
            | again next => exact ih turns' next (Nat.succ.inj hlength)
            | done last => rfl
  exact {
    retains := Retains.iterate fun v => (hbody v).retains
    run := fun s t hguarded h herrorless => by
      show (Parser.iterateAlong body t.rest v t).1 = _ ∧ Reflowed _ (Parser.iterateAlong body t.rest v t).2
      rw [hturns t.rest s.rest v h.length_eq.symm]
      exact (halong s.rest v).run s t hguarded h herrorless }

end Parser

end BehaviorTree
