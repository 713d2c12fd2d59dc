import BehaviorTree.Proofs.Parsing.Reflow
import BehaviorTree.Proofs.Parsing.StatementsLaid

/-!
# Terms and statements flow

Types and expressions are parsed without a look at the line breaks between their tokens, except for
how a missing token is dealt with, and so are statements in a run without errors.
-/

namespace BehaviorTree

open ParserState

namespace Parser

/-- What is nested in a term flows. -/
structure NestedFlows (nested : Nested) : Prop where
  expression : Flows nested.expression
  operand : Flows nested.operand
  type : Flows nested.type

theorem Flows.stringBound : Flows stringBound := by
  refine Flows.peek (fun _ => rfl) fun token => ?_
  dsimp only
  split
  · refine Flows.advance (fun _ => rfl) fun _ => Flows.bind (Flows.pure _) fun _ => ?_
    exact Flows.bind (Flows.expectOperator _ _ _) fun _ => Flows.pure _
  · refine Flows.fail (fun _ => Delivers.expected) fun _ => Retains.bind (Retains.pure _) fun _ => ?_
    exact Retains.bind (Flows.expectOperator _ _ _).retains fun _ => Retains.pure _

theorem Flows.stringType : Flows stringType := by
  refine Flows.bind (Flows.acceptOperator _) fun bounded => ?_
  split
  · exact Flows.bind Flows.stringBound fun _ => Flows.pure _
  · exact Flows.pure _

section Nested

variable {nested : Nested}

/-! ### Types -/

theorem Flows.vecType (hnested : NestedFlows nested) : Flows (vecType nested) := by
  refine Flows.bind (Flows.expectOperator _ _ _) fun opened => ?_
  split
  · refine Flows.bind hnested.type fun element => ?_
    exact Flows.bind (Flows.expectOperator _ _ _) fun _ => Flows.pure _
  · exact Flows.pure _

theorem Flows.arrayType (hnested : NestedFlows nested) : Flows (arrayType nested) := by
  refine Flows.bind hnested.type fun element => ?_
  refine Flows.bind (Flows.expectPunctuation _ _ _) fun semi => ?_
  split
  · refine Flows.bind (Flows.acceptOperator _) fun bounded => ?_
    refine Flows.bind hnested.expression fun length => ?_
    refine Flows.bind (Flows.expectPunctuation _ _ _) fun _ => ?_
    split
    · exact Flows.pure _
    · exact Flows.pure _
  · exact Flows.bind (Flows.acceptPunctuation _) fun _ => Flows.pure _

theorem Flows.plainType (hnested : NestedFlows nested) : Flows (plainType nested) := by
  refine Flows.peek (fun _ => rfl) fun token => ?_
  split
  · exact Flows.advance (fun _ => rfl) fun _ => Flows.pure _
  · exact Flows.advance (fun _ => rfl) fun _ => Flows.bind (Flows.nameOf _) fun _ => Flows.pure _
  · exact Flows.advance (fun _ => rfl) fun _ => Flows.map Flows.stringType
  · exact Flows.advance (fun _ => rfl) fun _ => Flows.map (Flows.vecType hnested)
  · exact Flows.advance (fun _ => rfl) fun _ => Flows.map (Flows.arrayType hnested)
  · exact Flows.fail (fun _ => Delivers.expected) fun _ => Retains.pure _

theorem Flows.typeIn (hnested : NestedFlows nested) : Flows (typeIn nested) := by
  refine Flows.peek (fun _ => rfl) fun token => Flows.bind (Flows.plainType hnested) fun build => ?_
  cases build with
  | none => exact Flows.missingType
  | some build =>
      refine Flows.bind (Flows.rangeSince _) fun range => Flows.bind (Flows.newType _ _) fun type => ?_
      refine Flows.bind (Flows.acceptPunctuation _) fun question => ?_
      split
      · exact Flows.bind (Flows.rangeSince _) fun _ => Flows.newType _ _
      · exact Flows.pure _

/-! ### Expressions -/

theorem Flows.literal (build : Origin → Expr) : Flows (literal build) :=
  Flows.advance (fun _ => rfl) fun _ => Flows.newExpr _ _

theorem Flows.parenthesized (hnested : NestedFlows nested) : Flows (parenthesized nested) := by
  refine Flows.advance (fun _ => rfl) fun token => Flows.bind hnested.expression fun inner => ?_
  refine Flows.bind (Flows.expectPunctuation _ _ _) fun _ => ?_
  exact Flows.bind (Flows.rangeSince _) fun _ => Flows.widenExpr _ _

theorem Flows.nextElement (hnested : NestedFlows nested) (elements : List Expr) :
    Flows (nextElement nested elements) := by
  refine Flows.bind (Flows.acceptPunctuation _) fun comma => ?_
  split
  · refine Flows.bind (Flows.atPunctuation _) fun close => ?_
    split
    · exact Flows.pure _
    · exact Flows.bind hnested.expression fun _ => Flows.pure _
  · exact Flows.pure _

theorem Flows.arrayExpr (hnested : NestedFlows nested) : Flows (arrayExpr nested) := by
  refine Flows.advance (fun _ => rfl) fun token => Flows.bind (Flows.acceptPunctuation _) fun closed => ?_
  split
  · exact Flows.bind (Flows.rangeSince _) fun _ => Flows.newExpr _ _
  · refine Flows.bind hnested.expression fun first => ?_
    refine Flows.bind (Flows.acceptPunctuation _) fun semi => ?_
    split
    · refine Flows.bind hnested.expression fun count => ?_
      refine Flows.bind (Flows.expectPunctuation _ _ _) fun _ => ?_
      exact Flows.bind (Flows.rangeSince _) fun _ => Flows.newExpr _ _
    · refine Flows.bind (Flows.iterate (Flows.nextElement hnested)) fun elements => ?_
      refine Flows.bind (Flows.expectPunctuation _ _ _) fun _ => ?_
      exact Flows.bind (Flows.rangeSince _) fun _ => Flows.newExpr _ _

theorem Flows.vecExpr (hnested : NestedFlows nested) : Flows (vecExpr nested) := by
  refine Flows.advance (fun _ => rfl) fun token => Flows.bind (Flows.acceptOperator _) fun bang => ?_
  split
  · refine Flows.bind (Flows.atPunctuation _) fun bracket => ?_
    split
    · refine Flows.bind (Flows.arrayExpr hnested) fun inner => ?_
      exact Flows.bind (Flows.rangeSince _) fun _ => Flows.newExpr _ _
    · exact Flows.fail (fun _ => Delivers.expected) fun _ => Retains.missingExpr
  · exact Flows.fail (fun _ => Delivers.expectedWithHelp) fun _ => Retains.missingExpr

theorem Flows.primary (hnested : NestedFlows nested) : Flows (primary nested) := by
  refine Flows.peek (fun _ => rfl) fun token => ?_
  split
  case h_3 => exact Flows.bind (Flows.intern _) fun _ => Flows.literal _
  case h_7 => exact Flows.bind (Flows.nameOf _) fun _ => Flows.literal _
  case h_8 => exact Flows.parenthesized hnested
  case h_9 => exact Flows.arrayExpr hnested
  case h_10 => exact Flows.vecExpr hnested
  case h_11 =>
    exact Flows.bind Flows.missingExpr fun _ => Flows.advance (fun _ => rfl) fun _ => Flows.pure _
  case h_12 => exact Flows.fail (fun _ => Delivers.expected) fun _ => Retains.missingExpr
  all_goals exact Flows.literal _

theorem Flows.suffix (hnested : NestedFlows nested) (base : Expr) : Flows (suffix nested base) := by
  refine Flows.bind (Flows.acceptPunctuation _) fun bracket => ?_
  split
  · refine Flows.bind hnested.expression fun position => ?_
    refine Flows.bind (Flows.expectPunctuation _ _ _) fun _ => ?_
    refine Flows.bind (Flows.rangeSince _) fun _ => ?_
    exact Flows.bind (Flows.newExpr _ _) fun _ => Flows.pure _
  · refine Flows.peek (fun _ => rfl) fun token => ?_
    split
    · refine Flows.advance (fun _ => rfl) fun _ => Flows.bind hnested.type fun type => ?_
      refine Flows.bind (Flows.rangeSince _) fun _ => ?_
      exact Flows.bind (Flows.newExpr _ _) fun _ => Flows.pure _
    · exact Flows.pure _

theorem Flows.unary (hnested : NestedFlows nested) : Flows (unary nested) := by
  refine Flows.peek (fun _ => rfl) fun token => ?_
  split
  · refine Flows.advance (fun _ => rfl) fun _ => Flows.bind hnested.operand fun operand => ?_
    exact Flows.newExpr _ _
  · exact Flows.bind (Flows.primary hnested) fun _ => Flows.iterate (Flows.suffix hnested)

theorem Flows.extendChain {layer : Nat} {tighter : Parser Chain} (htighter : Flows tighter)
    (chain : Chain) : Flows (extendChain layer tighter chain) := by
  refine Flows.peek (fun _ => rfl) fun token => ?_
  split
  · refine Flows.advance (fun _ => rfl) fun _ => Flows.bind htighter fun right => ?_
    refine Flows.bind (Flows.newExpr _ _) fun whole => Flows.peek (fun _ => rfl) fun next => ?_
    split
    · exact Flows.bind (Flows.report _) fun _ => Flows.pure _
    · exact Flows.pure _
  · exact Flows.pure _

theorem Flows.layered (hnested : NestedFlows nested) (layers : List Nat) :
    Flows (layered nested layers) := by
  induction layers with
  | nil => exact Flows.bind (Flows.unary hnested) fun _ => Flows.pure _
  | cons layer tighter ih =>
      exact Flows.bind ih fun _ => Flows.iterate fun chain => Flows.extendChain ih chain

end Nested

/-! ### The knot -/

theorem NestedFlows.around {inner : Unit → Nested} (hinner : NestedFlows (inner ())) :
    NestedFlows (around inner) where
  expression := Flows.bind (Flows.layered hinner _) fun _ => Flows.pure _
  operand := Flows.unary hinner
  type := Flows.typeIn hinner

theorem NestedFlows.along (levels : List Token) : NestedFlows (nestedAlong levels) := by
  induction levels with
  | nil =>
      exact NestedFlows.around ⟨Flows.missingExpr, Flows.missingExpr, Flows.missingType⟩
  | cons token levels ih => exact NestedFlows.around ih

theorem Flows.expression : Flows expression where
  retains _ := Delivers.expression.retains
  run s t hguarded h herrorless := by
    have hnested : nestedAlong t.rest = nestedAlong s.rest := nestedAlong_congr h.length_eq.symm
    show ((nestedAlong t.rest).expression t).1 = _ ∧ Reflowed _ ((nestedAlong t.rest).expression t).2
    rw [hnested]
    exact (NestedFlows.along s.rest).expression.run s t hguarded h herrorless

theorem Flows.typeExpr : Flows typeExpr where
  retains _ := Delivers.typeExpr.retains
  run s t hguarded h herrorless := by
    have hnested : nestedAlong t.rest = nestedAlong s.rest := nestedAlong_congr h.length_eq.symm
    show ((nestedAlong t.rest).type t).1 = _ ∧ Reflowed _ ((nestedAlong t.rest).type t).2
    rw [hnested]
    exact (NestedFlows.along s.rest).type.run s t hguarded h herrorless

end Parser

end BehaviorTree

/-!
## Statements flow

An open list breaks off at a line break in front of something that starts a construct. In a run
without errors no item of the list starts there, with a line break or without one, so that another
run may read on as this one does.
-/

namespace BehaviorTree

open ParserState

variable {s s' : ParserState}

/-! ### What starts a construct is no item of a list -/

/-- In front of a construct there is a token that starts no part of an item, or a name that a node or
an assignment starts with. -/
theorem ParserState.breaksOff_or_target {inBody : Bool} (h : s.startsIn inBody = true) :
    s.current.kind.breaksOff = true ∨ s.current.kind = .identifier ∧
      ((s.tokenAt 1).isPunctuation .lParen = true ∨ (s.tokenAt 1).isPunctuation .lBrace = true ∨
        Skip.assignmentFollows 0 (s.rest.drop 1) = true) := by
  unfold startsIn at h
  split at h
  · rename_i word hkind
    exact .inl (by simpa [TokenKind.breaksOff, hkind] using h)
  · rename_i line hkind
    exact .inl (by simp [TokenKind.breaksOff, hkind])
  · rename_i hkind
    exact .inl (by simp [TokenKind.breaksOff, hkind])
  · rename_i hkind
    exact .inl (by simp [TokenKind.breaksOff, hkind])
  · rename_i hkind
    simp only [Bool.and_eq_true, Bool.or_eq_true, or_assoc] at h
    exact .inr ⟨hkind, h.2⟩
  · cases h

/-- The only marks behind a name that a construct starts with are opening brackets. -/
theorem ParserState.mark_of_target {mark : Punctuation} (hkind : s.current.kind = .punctuation mark)
    (h : s.current.isPunctuation .lParen = true ∨ s.current.isPunctuation .lBrace = true ∨
      Skip.assignmentFollows 0 s.rest = true) :
    mark = .lParen ∨ mark = .lBrace ∨ mark = .lBracket := by
  have hmark : ∀ {other}, s.current.isPunctuation other = true → mark = other := fun hother => by
    simpa [Token.isPunctuation, hkind] using hother
  rcases h with hparen | hbrace | hfollows
  · exact .inl (hmark hparen)
  · exact .inr (.inl (hmark hbrace))
  · cases hrest : s.rest with
    | nil =>
        rw [hrest] at hfollows
        cases hfollows
    | cons token rest =>
        have hcurrent : s.current = token := by simp [current, tokenAt, hrest]
        rw [hrest, Skip.assignmentFollows, ← hcurrent] at hfollows
        split at hfollows
        · rename_i hbracket
          exact .inr (.inr (hmark hbracket))
        · simp [Token.isAssignment, Token.operator?, TokenKind.operator?, hkind] at hfollows

/-- Where a construct seems to start, the only marks behind an expression are opening brackets. -/
theorem ExprFrom.mark_of_startsIn {expr : Expr} {inBody : Bool} (h : ExprFrom s expr s')
    (hstarts : s.startsIn inBody = true) {mark : Punctuation}
    (hmark : s'.current.kind = .punctuation mark) :
    mark = .lParen ∨ mark = .lBrace ∨ mark = .lBracket := by
  obtain ⟨ts, hstretch, -, hscans⟩ := h
  obtain ⟨first, hfirst, hopens⟩ := hscans.opens
  obtain ⟨us, rfl⟩ := List.head?_eq_some_iff.mp hfirst
  have hrest : s.rest = first :: (us ++ s'.rest) := hstretch.rest
  have hcurrent : s.current = first := by simp [current, tokenAt, hrest]
  obtain hbreaks | ⟨hname, hcall⟩ := ParserState.breaksOff_or_target hstarts
  · rw [hcurrent, hopens] at hbreaks
    cases hbreaks
  · obtain ⟨hopening, htarget⟩ := hscans.clear first us rfl (hcurrent ▸ hname)
    have hdrop : s.rest.drop 1 = us ++ s'.rest := by simp [hrest]
    rw [hdrop] at hcall
    refine ParserState.mark_of_target hmark ?_
    cases us with
    | nil =>
        have hsecond : s.tokenAt 1 = s'.current := by simp [current, tokenAt, hrest, hstretch.final]
        rw [hsecond] at hcall
        exact hcall
    | cons second us =>
        have hsecond : s.tokenAt 1 = second := by simp [tokenAt, hrest]
        rw [hsecond, (hopening second rfl).1, (hopening second rfl).2] at hcall
        rcases hcall with hparen | hbrace | hfollows
        · cases hparen
        · cases hbrace
        · exact .inr (.inr (htarget _ hfollows))

namespace Parser

variable {α β : Type} {p : Parser α}

/-- Behind a parser that leaves everything as it is. -/
theorem Delivers.idle {a : α} {f : α → Parser β} {goal : β → ParserState → Prop}
    (hrun : p s = (a, s)) (hf : Delivers (f a) s goal) : Delivers (p >>= f) s goal := by
  have hnext : (p >>= f) s = f a s := by
    show f (p s).1 (p s).2 = f a s
    rw [hrun]
  unfold Delivers
  rw [hnext]
  exact hf

/-- Only documentation is consumed as documentation. -/
theorem docComments_eq (hdoc : ∀ line, s.current.kind ≠ .docComment line)
    (hmodule : ∀ line, s.current.kind ≠ .moduleDoc line) : docComments s = (Docs.none, s) := by
  have hturn : docTurn Docs.none s = (.done Docs.none, s) := by
    unfold docTurn
    simp only [bind, StateT.bind, peek, pure]
    cases hkind : s.current.kind with
    | docComment line => exact absurd hkind (hdoc line)
    | moduleDoc line => exact absurd hkind (hmodule line)
    | _ => rfl
  have halong : ∀ turns, iterateAlong docTurn turns Docs.none s = (Docs.none, s) := by
    intro turns
    cases turns <;> simp only [iterateAlong, bind, StateT.bind, hturn] <;> rfl
  exact halong s.rest

theorem direction_eq (hdirection : s.current.keyword?.bind Direction.ofKeyword? = none) :
    direction s = (none, s) := by
  unfold direction
  simp only [bind, StateT.bind, peek, hdirection]
  rfl

theorem argumentName_eq
    (hname : (s.current.isIdentifier && (s.tokenAt 1).isPunctuation .colon) = false) :
    argumentName s = (none, s) := by
  unfold argumentName
  simp only [bind, StateT.bind, peek, peekSecond, hname]
  rfl

/-- No direction starts a construct. -/
theorem direction?_of_startsIn {inBody : Bool} (hstarts : s.startsIn inBody = true) :
    s.current.keyword?.bind Direction.ofKeyword? = none := by
  cases hkind : s.current.kind with
  | keyword word =>
      have hopener : word.isOpener = true := by simpa [startsIn, hkind] using hstarts
      have hword : s.current.keyword? = some word := by simp [Token.keyword?, TokenKind.keyword?, hkind]
      rw [hword]
      cases word <;> first | rfl | cases hopener
  | _ => simp [Token.keyword?, TokenKind.keyword?, hkind]

/-- No colon follows a name that a construct starts with. -/
theorem colon_of_startsIn {inBody : Bool} (hstarts : s.startsIn inBody = true) :
    (s.current.isIdentifier && (s.tokenAt 1).isPunctuation .colon) = false := by
  rw [Bool.and_eq_false_imp]
  intro hname
  have hkind : s.current.kind = .identifier := by simpa [Token.isIdentifier] using hname
  obtain hbreaks | ⟨-, hcall⟩ := ParserState.breaksOff_or_target hstarts
  · rw [hkind] at hbreaks
    cases hbreaks
  · have hsecond : (s.skip 1).current = s.tokenAt 1 := by simp [current, tokenAt, ParserState.skip]
    rw [← hsecond] at hcall ⊢
    refine Bool.eq_false_iff.mpr fun hcolon => ?_
    have hmark : (s.skip 1).current.kind = .punctuation .colon := by
      simpa [Token.isPunctuation] using hcolon
    rcases ParserState.mark_of_target hmark hcall with h | h | h <;> cases h

/-- Where a construct starts, the only marks behind an argument are opening brackets. -/
theorem Delivers.argument_of_startsIn (hstarts : s.startsIn true = true) :
    Delivers Parser.argument s fun _ s' => ∀ mark, s'.current.kind = .punctuation mark →
      mark = .lParen ∨ mark = .lBrace ∨ mark = .lBracket := by
  unfold Parser.argument
  refine Delivers.peek (Delivers.idle (argumentName_eq (colon_of_startsIn hstarts)) ?_)
  refine Delivers.idle (direction_eq (direction?_of_startsIn hstarts)) ?_
  refine Delivers.bind Delivers.expression fun value s₁ => Delivers.rangeSince (Delivers.pure ?_)
  exact fun hvalue mark hmark => hvalue.mark_of_startsIn hstarts hmark

/-! ### Lists -/

theorem listGoesOn_bind (context : String) (inBody : Bool) (f : Bool → Parser β) (s : ParserState) :
    (listGoesOn context inBody >>= f) s =
      if s.current.isPunctuation .rParen then (advance >>= fun _ => f false) s
      else if s.current.isEndOfFile || s.startsConstruct inBody then
        (unclosedList context >>= fun _ => f false) s
      else f true s := by
  have hclosed : ∀ closed : Bool, (((if closed then (advance >>= fun _ => pure true)
      else pure false : Parser Bool) >>= fun found => if found then pure false
      else listBreaksOff inBody >>= fun breaks => if breaks then (do
        unclosedList context
        pure false) else pure true) >>= f) s =
      if closed then (advance >>= fun _ => f false) s
      else (listBreaksOff inBody >>= fun breaks => (if breaks then (do
        unclosedList context
        pure false) else pure true) >>= f) s := by
    intro closed
    cases closed <;> rfl
  have hbreaks : ∀ breaks : Bool, ((if breaks then (do
      unclosedList context
      pure false) else pure true) >>= f) s =
      if breaks then (unclosedList context >>= fun _ => f false) s else f true s := by
    intro breaks
    cases breaks <;> rfl
  rw [← hbreaks]
  exact hclosed _

/-- Whether a list breaks off at a line break makes no difference to a run without errors if none of
its items starts where a construct does. -/
theorem Flows.listGoesOn {context : String} {inBody : Bool} {f : Bool → Parser β}
    (hends : Flows (f false)) (hgoesOn : Flows (f true))
    (hstop : ∀ s, s.startsIn inBody = true → Delivers (f true) s fun _ _ => False) :
    Flows (Parser.listGoesOn context inBody >>= f) where
  retains := by
    refine Retains.bind (fun _ => Delivers.listGoesOn.retains) fun goesOn => ?_
    cases goesOn
    · exact hends.retains
    · exact hgoesOn.retains
  run s t hguarded h herrorless := by
    have hclosed : t.current.isPunctuation .rParen = s.current.isPunctuation .rParen :=
      show t.current.flat.isPunctuation .rParen = s.current.flat.isPunctuation .rParen by rw [h.current]
    have hend : t.current.isEndOfFile = s.current.isEndOfFile :=
      show t.current.flat.isEndOfFile = s.current.flat.isEndOfFile by rw [h.current]
    rw [listGoesOn_bind] at herrorless ⊢
    rw [listGoesOn_bind, hclosed, hend]
    split at herrorless
    · rename_i hparen
      rw [if_pos hparen, if_pos hparen]
      exact (Flows.advance (fun _ => rfl) fun _ => hends).run s t hguarded h herrorless
    · rename_i hparen
      split at herrorless
      · have hloud : Delivers (unclosedList context >>= fun _ => f false) s fun _ _ => False :=
          Delivers.fail Delivers.unclosedList fun _ => hends.retains
        exact ((hloud hguarded).2 herrorless).2.elim
      · rename_i hbreaks
        cases hstarts : s.startsIn inBody with
        | true => exact ((hstop s hstarts hguarded).2 herrorless).2.elim
        | false =>
            have ht : t.startsConstruct inBody = false := by
              rw [startsConstruct_eq, ← h.startsIn, hstarts, Bool.and_false]
            have hs : s.current.isEndOfFile = false := (Bool.or_eq_false_iff.mp (by simpa using hbreaks)).1
            rw [if_neg hparen, if_neg hparen, if_neg hbreaks, ht, hs]
            exact hgoesOn.run s t hguarded h herrorless

/-- Behind an item a comma or the end of the list follows, or an error is reported. -/
theorem Flows.listContinues {context what : String} {inBody : Bool} {set : RecoverySet} :
    Flows (listContinues context what inBody set) := by
  have hrecovers : Retains (Parser.synchronize set >>= fun _ => do
      if ← Parser.acceptPunctuation .comma then Pure.pure true
      else
        let _ ← Parser.acceptPunctuation .rParen
        Pure.pure false) := by
    refine Retains.bind (Retains.synchronize set) fun _ => ?_
    refine Retains.bind (Retains.acceptPunctuation _) fun comma => ?_
    split
    · exact Retains.pure _
    · exact Retains.bind (Retains.acceptPunctuation _) fun _ => Retains.pure _
  refine Flows.bind (Flows.acceptPunctuation _) fun comma => ?_
  split
  · exact Flows.pure true
  · refine Flows.listGoesOn (Flows.pure false) ?_ fun s _ => ?_
    · exact Flows.fail (fun _ => Delivers.expected) fun _ => hrecovers
    · exact Delivers.fail Delivers.expected fun _ => hrecovers

/-! ### Parts of items -/

theorem Flows.docComments : Flows docComments := by
  refine Flows.iterate fun docs => Flows.peek (fun _ => rfl) fun token => ?_
  split
  · exact Flows.advance (fun _ => rfl) fun _ => Flows.pure _
  · exact Flows.bind (Flows.report _) fun _ => Flows.advance (fun _ => rfl) fun _ => Flows.pure _
  · exact Flows.pure _

theorem Flows.direction : Flows direction := by
  refine Flows.peek (fun _ => rfl) fun token => ?_
  split
  · exact Flows.advance (fun _ => rfl) fun _ => Flows.pure _
  · exact Flows.pure _

theorem Flows.declaredType : Flows declaredType := by
  refine Flows.bind (Flows.acceptPunctuation _) fun colon => ?_
  split
  · exact Flows.map Flows.typeExpr
  · exact Flows.pure _

theorem Flows.initializer : Flows initializer := by
  refine Flows.bind (Flows.acceptOperator _) fun equals => ?_
  split
  · exact Flows.map Flows.expression
  · exact Flows.pure _

theorem Flows.varParts (set : RecoverySet) : Flows (varParts set) := by
  refine Flows.advance (fun _ => rfl) fun _ => Flows.bind (Flows.expectName _ _) fun name => ?_
  cases name with
  | none => exact Flows.bind (Flows.acceptPunctuation _) fun _ => Flows.pure _
  | some name =>
      refine Flows.bind Flows.declaredType fun type => Flows.bind Flows.initializer fun init => ?_
      exact Flows.bind (Flows.expectSemi _ _) fun _ => Flows.pure _

theorem Flows.constParts (set : RecoverySet) : Flows (constParts set) := by
  refine Flows.advance (fun _ => rfl) fun _ => Flows.bind (Flows.expectName _ _) fun name => ?_
  cases name with
  | none => exact Flows.bind (Flows.acceptPunctuation _) fun _ => Flows.pure _
  | some name =>
      refine Flows.bind Flows.declaredType fun type => ?_
      refine Flows.bind (Flows.expectOperator _ _ _) fun equals => ?_
      split
      · exact Flows.bind Flows.expression fun _ => Flows.bind (Flows.expectSemi _ _) fun _ => Flows.pure _
      · exact Flows.bind Flows.missingExpr fun _ => Flows.bind (Flows.expectSemi _ _) fun _ => Flows.pure _

theorem Flows.orStepOver {exempt : Token → Bool}
    (hexempt : ∀ token : Token, exempt token.flat = exempt token) (hp : Flows p) :
    Flows (orStepOver p exempt) := by
  have hrun : ∀ s, Parser.orStepOver p exempt s =
      if (p s).2.position = s.position ∧ !exempt (p s).2.current then
        ((p s).1, (Parser.advance (p s).2).2) else p s := fun _ => rfl
  have hadvance : Flows (Parser.advance >>= fun _ => Pure.pure ()) :=
    Flows.advance (fun _ => rfl) fun _ => Flows.pure ()
  constructor
  · intro s hguarded
    obtain ⟨hguarded', hkept⟩ := hp.retains s hguarded
    rw [hrun]
    split
    · obtain ⟨hguarded'', hkept'⟩ := Retains.advance (p s).2 hguarded'
      exact ⟨hguarded'', fun herrorless => hkept (hkept' herrorless).1⟩
    · exact ⟨hguarded', hkept⟩
  · intro s t hguarded h herrorless
    obtain ⟨hguarded', -⟩ := hp.retains s hguarded
    have hbefore : (p s).2.Errorless := by
      rw [hrun] at herrorless
      split at herrorless
      · exact ((Retains.advance (p s).2 hguarded').2 herrorless).1
      · exact herrorless
    obtain ⟨hvalue, hstates⟩ := hp.run s t hguarded h hbefore
    have hafter : (p s).2.position = (p t).2.position := hstates.congr (·.position)
    have hstart : s.position = t.position := h.congr (·.position)
    have hexempted : exempt (p t).2.current = exempt (p s).2.current := by
      rw [← hexempt, ← hstates.current, hexempt]
    rw [hrun] at herrorless ⊢
    rw [hrun, ← hafter, ← hstart, hexempted, hvalue]
    split
    · rename_i hstep
      rw [if_pos hstep] at herrorless
      exact ⟨rfl, (hadvance.run _ _ hguarded' hstates herrorless).2⟩
    · exact ⟨hvalue, hstates⟩

/-! ### Preconditions and arguments -/

theorem Flows.preconditionBehind (found : List Precondition) (start : SourceRange)
    (kind : Option PreconditionKind) : Flows (preconditionBehind found start kind) := by
  unfold Parser.preconditionBehind Parser.preconditionClosed
  refine Flows.bind (Flows.expectPunctuation _ _ _) fun opened => ?_
  split
  · refine Flows.bind Flows.expression fun condition => ?_
    refine Flows.bind (Flows.expectPunctuation _ _ _) fun _ => ?_
    refine Flows.bind (Flows.rangeSince _) fun range => ?_
    split <;> exact Flows.pure _
  · exact Flows.pure _

theorem Flows.preconditionTurn (found : List Precondition) : Flows (preconditionTurn found) := by
  refine Flows.peek (fun _ => rfl) fun token => Flows.bind (Flows.acceptPunctuation _) fun at_ => ?_
  split
  · refine Flows.bind (Flows.expectName _ _) fun name => ?_
    cases name with
    | none => exact Flows.bind (Flows.acceptPunctuation _) fun _ => Flows.pure _
    | some name =>
        dsimp only
        split
        · exact Flows.bind (Flows.report _) fun _ => Flows.preconditionBehind found _ _
        · exact Flows.preconditionBehind found _ _
  · exact Flows.pure _

theorem Flows.preconditions : Flows preconditions := Flows.iterate Flows.preconditionTurn

theorem Flows.argumentName : Flows argumentName := by
  refine Flows.peek (fun _ => rfl) fun token => Flows.peekSecond (fun _ => rfl) fun second => ?_
  split
  · exact Flows.advance (fun _ => rfl) fun _ => Flows.advance (fun _ => rfl) fun _ => Flows.map (Flows.nameOf _)
  · exact Flows.pure _

theorem Flows.argument : Flows argument := by
  refine Flows.peek (fun _ => rfl) fun token => Flows.bind Flows.argumentName fun name => ?_
  refine Flows.bind Flows.direction fun direction => Flows.bind Flows.expression fun value => ?_
  exact Flows.bind (Flows.rangeSince _) fun _ => Flows.pure _

theorem Flows.argumentTurn (arguments : List Argument) : Flows (argumentTurn arguments) := by
  refine Flows.listGoesOn (Flows.pure _) ?_ fun s hstarts => ?_
  · refine Flows.bind Flows.argument fun argument => Flows.bind Flows.listContinues fun continues => ?_
    split
    · exact Flows.pure _
    · exact Flows.pure _
  · refine Delivers.bind (Delivers.argument_of_startsIn hstarts) fun argument s₁ => ?_
    refine Delivers.bind Delivers.listContinues fun continues s₂ => ?_
    have hnever : (Took (.punctuation .comma) s₁ s₂ ∨ Took (.punctuation .rParen) s₁ s₂) →
        (∀ mark, s₁.current.kind = .punctuation mark →
          mark = .lParen ∨ mark = .lBrace ∨ mark = .lBracket) → False := by
      rintro (hcomma | hparen) hmark
      · simpa using hmark _ hcomma.kind_eq
      · simpa using hmark _ hparen.kind_eq
    split
    · exact Delivers.pure hnever
    · exact Delivers.pure hnever

theorem Flows.arguments : Flows arguments := by
  refine Flows.bind (Flows.acceptPunctuation _) fun opened => ?_
  split
  · exact Flows.map (Flows.iterate Flows.argumentTurn)
  · exact Flows.pure _

/-! ### Statements -/

theorem Flows.indexTurn (indices : List Expr) : Flows (indexTurn indices) := by
  refine Flows.bind (Flows.acceptPunctuation _) fun opened => ?_
  split
  · refine Flows.bind Flows.expression fun index => Flows.bind (Flows.acceptPunctuation _) fun closed => ?_
    split
    · exact Flows.pure _
    · refine Flows.peek (fun _ => rfl) fun token => ?_
      split
      · exact Flows.fail (fun _ => Delivers.expected) fun _ => Retains.pure _
      · exact Flows.bind (Flows.expectPunctuation _ _ _) fun _ => Flows.pure _
  · exact Flows.pure _

theorem Flows.assignment : Flows assignment := by
  refine Flows.advance (fun _ => rfl) fun token => Flows.bind (Flows.nameOf _) fun target => ?_
  refine Flows.bind (Flows.iterate Flows.indexTurn) fun indices => Flows.peek (fun _ => rfl) fun token => ?_
  split
  · refine Flows.advance (fun _ => rfl) fun _ => Flows.bind Flows.expression fun value => ?_
    exact Flows.bind (Flows.expectSemi _ _) fun _ => Flows.pure _
  · refine Flows.fail (fun _ => Delivers.expected) fun _ => ?_
    exact Retains.bind Retains.abandonStatement fun _ => Retains.pure _

theorem Flows.semicolonAfterBlock : Flows semicolonAfterBlock := by
  refine Flows.peek (fun _ => rfl) fun token => Flows.bind (Flows.acceptPunctuation _) fun semi => ?_
  split
  · exact Flows.report _
  · exact Flows.pure _

theorem Flows.leafBehind (callee : Name) (arguments : Option (List Argument)) :
    Flows (leafBehind callee arguments) := by
  cases arguments with
  | some arguments => exact Flows.bind (Flows.expectSemi _ _) fun _ => Flows.pure _
  | none =>
      refine Flows.fail (fun _ => Delivers.expectedWithHelp) fun _ => ?_
      exact Retains.bind Retains.abandonStatement fun _ => Retains.pure _

section Block

variable {block : Parser (List Stmt)}

theorem Flows.node (hblock : Flows block) : Flows (node block) := by
  refine Flows.advance (fun _ => rfl) fun token => Flows.bind (Flows.nameOf _) fun callee => ?_
  refine Flows.bind Flows.arguments fun arguments => Flows.bind (Flows.atPunctuation _) fun opens => ?_
  split
  · refine Flows.bind hblock fun children => ?_
    exact Flows.bind Flows.semicolonAfterBlock fun _ => Flows.pure _
  · exact Flows.leafBehind callee arguments

theorem Flows.danglingDocs (range : Option SourceRange) : Flows (danglingDocs range) := by
  cases range with
  | none => exact Flows.pure _
  | some range => exact Flows.report _

theorem Flows.unattached (preconditions : List Precondition) (docs : Docs) :
    Flows (unattached preconditions docs) := by
  cases preconditions with
  | nil => exact Flows.danglingDocs _
  | cons first rest => exact Flows.report _

theorem Flows.bareStatement (hblock : Flows block) (preconditions : List Precondition) (docs : Docs) :
    Flows (bareStatement block preconditions docs) := by
  refine Flows.peek (fun _ => rfl) fun token => ?_
  split
  · exact Flows.bind (Flows.varParts _) fun _ => Flows.pure _
  · exact Flows.bind (Flows.constParts _) fun _ => Flows.pure _
  · split
    · exact Flows.fail (fun _ => Delivers.skipForeign) fun _ => Retains.pure _
    · have hread : Flows fun state => (Skip.assignmentFollows 0 (state.rest.drop 1), state) :=
        Flows.of_same (fun _ hguarded => ⟨hguarded, fun herrorless => ⟨herrorless, trivial⟩⟩)
          fun s t h => ⟨h.assignmentFollows.symm, h⟩
      refine Flows.bind hread fun isAssignment => ?_
      split
      · exact Flows.assignment
      · exact Flows.node hblock
  · exact Flows.bind (Flows.unattached _ _) fun _ => Flows.pure _
  · exact Flows.bind (Flows.unattached _ _) fun _ => Flows.pure _
  · split
    · exact Flows.bind (Flows.unattached _ _) fun _ => Flows.pure _
    · refine Flows.fail (fun _ => Delivers.expectedWithHelp) fun _ => ?_
      exact Retains.bind Retains.abandonStatement fun _ => Retains.pure _

theorem Flows.finishStmt (docs : Docs) (preconditions : List Precondition) (start : SourceRange)
    (build : Option (StmtHead → Stmt)) : Flows (finishStmt docs preconditions start build) := by
  cases build with
  | none => exact Flows.pure _
  | some build => exact Flows.bind (Flows.rangeSince _) fun _ => Flows.map (Flows.newStmt _ _)

theorem Flows.statement (hblock : Flows block) : Flows (statement block) := by
  refine Flows.bind Flows.docComments fun docs => Flows.bind Flows.preconditions fun preconditions => ?_
  refine Flows.peek (fun _ => rfl) fun token => Flows.bind (Flows.bareStatement hblock _ _) fun build => ?_
  exact Flows.finishStmt docs preconditions _ build

end Block

theorem Flows.blockTurn {statement : Parser (Option Stmt)} (hstatement : Flows statement)
    (opening : SourceRange) (stmts : List Stmt) : Flows (blockTurn statement opening stmts) := by
  refine Flows.bind (Flows.acceptPunctuation _) fun closed => ?_
  split
  · exact Flows.pure _
  · refine Flows.peek (fun _ => rfl) fun token => ?_
    split
    · have herror : (SyntaxReport.unclosedBlock token opening).isError = true := by
        rw [Diagnostic.isError, SyntaxReport.severity_unclosedBlock]
        rfl
      exact Flows.fail (fun _ => Delivers.reportOnce herror) fun _ => Retains.pure _
    · exact Flows.bind (Flows.orStepOver (fun _ => rfl) hstatement) fun _ => Flows.pure _

theorem Flows.blockOf {statement : Parser (Option Stmt)} (hstatement : Flows statement) :
    Flows (blockOf statement) :=
  Flows.advance (fun _ => rfl) fun _ => Flows.iterate (Flows.blockTurn hstatement _)

theorem Flows.blockAlong (levels : List Token) : Flows (blockAlong levels) := by
  induction levels with
  | nil => exact Flows.blockOf (Flows.statement (Flows.pure []))
  | cons token levels ih => exact Flows.blockOf (Flows.statement ih)

theorem Flows.block : Flows block where
  retains s := by
    exact ((Flows.blockAlong s.rest).retains s)
  run s t hguarded h herrorless := by
    have hblock : Parser.blockAlong t.rest = Parser.blockAlong s.rest := blockAlong_congr h.length_eq.symm
    show (Parser.blockAlong t.rest t).1 = _ ∧ Reflowed _ (Parser.blockAlong t.rest t).2
    rw [hblock]
    exact (Flows.blockAlong s.rest).run s t hguarded h herrorless

end Parser

end BehaviorTree
