import BehaviorTree.Proofs.Parsing.ProgramsAgree
import BehaviorTree.Proofs.Parsing.TermsMirrored

/-!
# Parts of items in front of a missing terminator

Documentation, lists in parentheses, parameters, arguments, preconditions and attributes. Some of
these end where no token of theirs follows, at a `;` too. Nothing goes on there in a silent run.
-/

namespace BehaviorTree

open ParserState

/-! ### Looking ahead -/

theorem Token.opening_eq (token : Token) :
    token.kind.opening = if token.isPunctuation .lBracket then 1 else 0 := by
  obtain ⟨kind, text, range, line⟩ := token
  cases kind with
  | punctuation mark => cases mark <;> rfl
  | _ => rfl

theorem Token.closing_eq (token : Token) :
    token.kind.closing = if token.isPunctuation .rBracket then 1 else 0 := by
  obtain ⟨kind, text, range, line⟩ := token
  cases kind with
  | punctuation mark => cases mark <;> rfl
  | _ => rfl

theorem Token.isAssignment_of_endsTerm {token : Token} (hends : token.kind.endsTerm = true) :
    token.isAssignment = false := by
  have hop : token.operator? = none := TokenKind.operator?_of_endsTerm hends
  rw [Token.isAssignment, hop]
  rfl

/-- The scan for an assignment operator does not get behind tokens that close all the brackets that
it is in, unless an index or an operator comes next. -/
theorem Skip.assignmentFollows_append {depth : Nat} {tokens rest rest' : List Token}
    {head head' : Token} (hhead : head.kind.endsTerm = true) (hhead' : head'.kind.endsTerm = true)
    (hclosed : depth + Token.openings tokens ≤ Token.closings tokens) :
    assignmentFollows depth (tokens ++ head :: rest) =
      assignmentFollows depth (tokens ++ head' :: rest') := by
  have hbracket : ∀ token : Token, token.kind.endsTerm = true →
      token.isPunctuation .lBracket = false := fun _ => Parser.isPunctuation_of_endsTerm rfl
  have hexclusive : ∀ token : Token, token.isPunctuation .lBracket = true →
      token.isPunctuation .rBracket = false := by
    intro token hopen
    rw [Token.isPunctuation, beq_iff_eq] at hopen
    simp [Token.isPunctuation, hopen]
  induction tokens generalizing depth with
  | nil =>
      obtain rfl : depth = 0 := by
        simp only [Token.openings, Token.closings, total_nil] at hclosed
        omega
      simp only [List.nil_append, assignmentFollows, hbracket head hhead, hbracket head' hhead',
        Token.isAssignment_of_endsTerm hhead, Token.isAssignment_of_endsTerm hhead',
        Bool.false_eq_true, if_false]
  | cons token tokens ih =>
      simp only [Token.openings, Token.closings, total_cons, Token.opening_eq,
        Token.closing_eq] at hclosed ih
      cases depth with
      | zero =>
          simp only [List.cons_append, assignmentFollows]
          split
          · rename_i hopen
            simp only [hopen, hexclusive token hopen, if_true, Bool.false_eq_true, if_false]
              at hclosed
            exact ih (by omega)
          · rfl
      | succ depth =>
          simp only [List.cons_append, assignmentFollows]
          split
          · rfl
          · split
            · rename_i hopen
              simp only [hopen, hexclusive token hopen, if_true, Bool.false_eq_true, if_false]
                at hclosed
              exact ih (by omega)
            · rename_i hopen
              split
              · rename_i hclose
                simp only [hopen, hclose, if_true, Bool.false_eq_true, if_false] at hclosed
                exact ih (by omega)
              · rename_i hclose
                simp only [hopen, hclose, Bool.false_eq_true, if_false] at hclosed
                rw [ih (by omega)]

namespace Omission.Faces

variable {o : Omission} {level : Nat} {token : Token} {coming : List Token} {s t : ParserState}

theorem assignmentFollows (hfaces : o.Faces level (token :: coming) s t)
    (hname : token.kind = .identifier) :
    Skip.assignmentFollows 0 (s.rest.drop 1) = Skip.assignmentFollows 0 (t.rest.drop 1) := by
  have hs : s.rest.drop 1 = coming ++ o.semi :: o.next :: o.later := by simp [hfaces.rest, here]
  have ht : t.rest.drop 1 = coming ++ o.resumed :: o.remaining := by simp [hfaces.same, there]
  have hopening : token.kind.opening = 0 := by rw [hname]; rfl
  have hclosing : token.kind.closing = 0 := by rw [hname]; rfl
  have hbalance := hfaces.balance
  simp only [Token.openings, Token.closings, total_cons, hopening, hclosing] at hbalance
  rw [hs, ht]
  apply Skip.assignmentFollows_append (by rw [o.isSemi]; rfl) o.resumed_endsTerm
  unfold Token.openings Token.closings
  omega

/-- The second token is the same, or the first run has the `;` there. -/
theorem second (hfaces : o.Faces level (token :: coming) s t) :
    s.tokenAt 1 = t.tokenAt 1 ∨
      (s.tokenAt 1).kind = .punctuation .semi ∧ (t.tokenAt 1).kind.endsTerm = true := by
  cases coming with
  | nil =>
      right
      simp [tokenAt, hfaces.rest, hfaces.same, here, there, o.isSemi, o.resumed_endsTerm]
  | cons second coming =>
      left
      simp [tokenAt, hfaces.rest, hfaces.same]

theorem second_isPunctuation (hfaces : o.Faces level (token :: coming) s t) {mark : Punctuation}
    (hmark : (TokenKind.punctuation mark).endsTerm = false) :
    (s.tokenAt 1).isPunctuation mark = (t.tokenAt 1).isPunctuation mark := by
  obtain hsame | ⟨hsemi, hends⟩ := hfaces.second
  · rw [hsame]
  · have hfirst : (s.tokenAt 1).kind.endsTerm = true := by
      rw [hsemi]
      rfl
    rw [Parser.isPunctuation_of_endsTerm hmark hfirst, Parser.isPunctuation_of_endsTerm hmark hends]

theorem startsConstruct (hfaces : o.Faces level (token :: coming) s t) (inBody : Bool) :
    s.startsConstruct inBody = t.startsConstruct inBody := by
  have hmark : ∀ mark, (TokenKind.punctuation mark).endsTerm = false →
      (s.tokenAt 1).isPunctuation mark = (t.tokenAt 1).isPunctuation mark :=
    fun _ => hfaces.second_isPunctuation
  unfold ParserState.startsConstruct
  rw [hfaces.current, hfaces.current']
  obtain ⟨kind, text, range, line⟩ := token
  cases kind with
  | identifier => simp only [hfaces.assignmentFollows rfl, hmark .lParen rfl, hmark .lBrace rfl]
  | punctuation mark => cases mark <;> rfl
  | _ => rfl

end Omission.Faces

namespace Parser

variable {α β : Type} {o : Omission} {level level' bound : Nat} {p q : Parser α}
  {post : β → β → ParserState → ParserState → Prop}

/-- A mark is consumed or not, where the omission is not at hand. -/
theorem Mirrors.acceptAt {token : Token} {mark : Punctuation} {f g : Bool → Parser β} (fewer : Nat)
    (hfewer : bound ≤ fewer + 1)
    (hlevel : level' + (TokenKind.punctuation mark).closing =
      level + (TokenKind.punctuation mark).opening)
    (hyes : Mirrors (o.Within level' fewer) (f true) (g true) post)
    (hno : ∀ token, Mirrors (o.At level bound token) (f false) (g false) post) :
    Mirrors (o.At level bound token) (Parser.acceptPunctuation mark >>= f)
      (Parser.acceptPunctuation mark >>= g) post := by
  unfold Parser.acceptPunctuation
  rw [accept_bind, accept_bind]
  refine Mirrors.peekAt fun token => ?_
  split
  · rename_i hpass
    obtain ⟨kind, text, range, line⟩ := token
    rw [Token.isPunctuation, beq_iff_eq] at hpass
    cases hpass
    exact Mirrors.advance fewer hfewer hlevel fun _ => hyes
  · exact hno token

theorem Mirrors.docComments :
    Mirrors (o.Within level (bound + 1)) docComments docComments
      (Unless AtSemi fun _ => o.Within level (bound + 1)) := by
  refine Mirrors.iterateUnless fun fewer _ docs => Mirrors.peekHalting ?_
    fun _ _ _ _ hsemi _ _ => .inl ⟨⟨docs, rfl⟩, hsemi⟩
  rintro ⟨kind, text, range, line⟩
  dsimp only
  split
  · refine Mirrors.advance fewer (Nat.le_refl _) rfl fun _ => ?_
    exact Mirrors.pure fun s t hwithin => .inr ⟨rfl, hwithin⟩
  · have hdrops : ∀ _ : Unit, Grows (do
        let _ ← Parser.advance
        Pure.pure (Turn.again docs)) := fun _ => Grows.advance.bind fun _ => Grows.pure _
    exact Mirrors.loud ((Same.report _ _ rfl).grows.bind hdrops) (Loud.report_bind hdrops _)
  · exact Mirrors.pure fun s t hat => .inr ⟨rfl, hat.within⟩

theorem direction_of_endsTerm {token : Token} (hends : token.kind.endsTerm = true) :
    token.keyword?.bind Direction.ofKeyword? = none := by
  obtain ⟨kind, text, range, line⟩ := token
  cases kind with
  | keyword word => cases word <;> first | rfl | cases hends
  | _ => rfl

theorem Mirrors.direction : Follows o level bound direction direction := by
  refine Mirrors.peek ?_ fun text range line resumed hresumed => ?_
  · rintro ⟨kind, text, range, line⟩
    dsimp only [Token.keyword?]
    split
    · rename_i hdirection
      obtain ⟨word, rfl⟩ : ∃ word, kind = .keyword word := by
        cases kind <;> first | exact ⟨_, rfl⟩ | cases hdirection
      refine Mirrors.advance bound (Nat.le_succ _) rfl fun _ => ?_
      exact Mirrors.pure fun s t hwithin => ⟨rfl, hwithin⟩
    · exact Mirrors.pure fun s t hat => ⟨rfl, hat.within⟩
  · rw [direction_of_endsTerm hresumed]
    exact Mirrors.pure fun s t hend => ⟨rfl, hend.within⟩

theorem Mirrors.listBreaksOff {token : Token} (inBody : Bool) :
    Mirrors (o.At level bound token) (listBreaksOff inBody) (listBreaksOff inBody)
      (Both fun _ => o.At level bound token) := by
  refine ⟨(Same.listBreaksOff inBody).grows, fun s t _ hat _ => ?_⟩
  obtain ⟨coming, hbound, hfaces⟩ := hat
  refine ⟨?_, coming, hbound, hfaces⟩
  show (s.current.isEndOfFile || s.startsConstruct inBody) =
    (t.current.isEndOfFile || t.startsConstruct inBody)
  rw [hfaces.current, hfaces.current', hfaces.startsConstruct]

/-- Whether an item of a list follows. If so nothing has been consumed. -/
theorem Mirrors.listGoesOn {context : String} {inBody : Bool} {token : Token}
    {f g : Bool → Parser β} (fewer : Nat) (hfewer : bound ≤ fewer + 1)
    (hmore : ∀ token, Mirrors (o.At level bound token) (f true) (g true) post)
    (hclosed : Mirrors (o.Within level fewer) (f false) (g false) post) :
    Mirrors (o.At level bound token) (Parser.listGoesOn context inBody >>= f)
      (Parser.listGoesOn context inBody >>= g) post := by
  have hfound : Mirrors (o.At level bound token) (Parser.listGoesOn context inBody)
      (Parser.listGoesOn context inBody) (Both fun goesOn s t =>
        if goesOn then ∃ token, o.At level bound token s t else o.Within level fewer s t) := by
    refine Mirrors.acceptAt fewer hfewer rfl (Mirrors.pure fun s t hwithin => ⟨rfl, hwithin⟩)
      fun token => ?_
    apply Mirrors.next (Mirrors.listBreaksOff inBody)
    intro breaks
    split
    · have hends : ∀ _ : Unit, Grows (Pure.pure false : Parser Bool) := fun _ => Grows.pure false
      exact Mirrors.loud ((Same.unclosedList context).grows.bind hends)
        (Loud.bind (Loud.missing_bind (fun _ => Grows.pure ()) _ _ _)
          (Same.unclosedList context).grows hends)
    · exact Mirrors.pure fun s t hat => ⟨rfl, token, hat⟩
  apply Mirrors.next hfound
  rintro (_ | _)
  · exact hclosed
  · refine ⟨(hmore token).1, fun s t hhonest hR hsilent => ?_⟩
    obtain ⟨token, hat⟩ := hR
    exact (hmore token).2 s t hhonest hat hsilent

theorem Refuses.listGoesOn {context : String} {inBody : Bool} {f : Bool → Parser β}
    (hf : Refuses (f true)) : Refuses (listGoesOn context inBody >>= f) := by
  intro s hhonest hsemi
  have hparen : ¬s.current.isPunctuation .rParen = true := by
    rw [Token.isPunctuation, show s.current.kind = _ from hsemi]
    decide
  have hbreaks : (s.current.isEndOfFile || s.startsConstruct inBody) = false := by
    rw [Token.isEndOfFile, ParserState.startsConstruct, show s.current.kind = _ from hsemi]
    simp
  have hrun : Parser.listGoesOn context inBody s = (true, s) := by
    unfold Parser.listGoesOn Parser.acceptPunctuation
    rw [accept_bind]
    show (if s.current.isPunctuation .rParen then _ else _ : Parser Bool) s = _
    rw [if_neg hparen]
    show (if s.current.isEndOfFile || s.startsConstruct inBody then _ else _ : Parser Bool) s = _
    rw [hbreaks]
    rfl
  show ¬(f (Parser.listGoesOn context inBody s).1 (Parser.listGoesOn context inBody s).2).2.Silent
  rw [hrun]
  exact hf s hhonest hsemi

/-- Where another item of a list follows, a comma is consumed in front of it. -/
theorem Mirrors.listContinues {context what : String} {inBody : Bool} {set : RecoverySet}
    (fewer : Nat) (hfewer : bound ≤ fewer + 1) :
    Mirrors (o.Within level bound) (Parser.listContinues context what inBody set)
      (Parser.listContinues context what inBody set) (Both fun _ => o.Within level fewer) := by
  have hresult : ∀ continues : Bool, Mirrors (o.Within level fewer)
      (Pure.pure continues : Parser Bool) (Pure.pure continues)
      (Both fun _ => o.Within level fewer) :=
    fun continues => Mirrors.pure fun s t hwithin => ⟨rfl, hwithin⟩
  have hrecovers : ∀ _ : Unit, Grows (do
      Parser.synchronize set
      if ← Parser.acceptPunctuation .comma then Pure.pure true
      else
        let _ ← Parser.acceptPunctuation .rParen
        Pure.pure false) := by
    intro _
    refine (Grows.synchronize set).bind fun _ => (Grows.acceptPunctuation _).bind fun comma => ?_
    split
    · exact Grows.pure true
    · exact (Grows.acceptPunctuation _).bind fun _ => Grows.pure false
  apply Mirrors.ofAt
  · intro token
    refine Mirrors.acceptAt fewer hfewer rfl (hresult true) fun token => ?_
    refine Mirrors.listGoesOn fewer hfewer (fun token => ?_) (hresult false)
    exact Mirrors.loud ((Grows.expected what).bind hrecovers) (Loud.expected_bind hrecovers what)
  · refine Refuses.accept (fun _ _ _ => rfl) (Refuses.listGoesOn ?_)
    exact (Loud.expected_bind hrecovers what).refuses

/-- What follows a mark, if the mark is there. -/
theorem Mirrors.declaredType : Follows o level bound declaredType declaredType := by
  refine Mirrors.acceptPunctuation bound (Nat.le_succ _) (fun _ => rfl) rfl ?_ ?_
  · exact Mirrors.map Mirrors.typeExpr fun _ s t hwithin => hwithin
  · exact Mirrors.pure fun s t hwithin => ⟨rfl, hwithin⟩

theorem Mirrors.initializer : Follows o level bound initializer initializer := by
  refine Mirrors.acceptOperator bound (Nat.le_succ _) ?_ ?_
  · exact Mirrors.map Mirrors.expression fun _ s t hwithin => hwithin
  · exact Mirrors.pure fun s t hwithin => ⟨rfl, hwithin⟩

/-! ### Arguments and indices -/

/-- Both runs look at the same second token, or the first one finds the `;` there. -/
theorem Mirrors.peekSecondAt {token : Token} {f g : Token → Parser β}
    (hf : ∀ second second', second = second' ∨
      second.kind = .punctuation .semi ∧ second'.kind.endsTerm = true →
      Mirrors (fun s t => o.At level bound token s t ∧ s.tokenAt 1 = second) (f second) (g second')
        post) :
    Mirrors (o.At level bound token) (Parser.peekSecond >>= f) (Parser.peekSecond >>= g) post := by
  refine ⟨fun s => (hf (s.tokenAt 1) (s.tokenAt 1) (.inl rfl)).1 s, fun s t hhonest hat hsilent => ?_⟩
  have hsecond : s.tokenAt 1 = t.tokenAt 1 ∨
      (s.tokenAt 1).kind = .punctuation .semi ∧ (t.tokenAt 1).kind.endsTerm = true := by
    obtain ⟨coming, -, hfaces⟩ := hat
    exact hfaces.second
  exact (hf _ _ hsecond).2 s t hhonest ⟨hat, rfl⟩ hsilent

/-- A token is consumed in front of another one that is no `;`. -/
theorem Mirrors.advanceTo {token second : Token} {f g : Token → Parser β} (fewer : Nat)
    (hfewer : bound ≤ fewer + 1) (hsecond : second.kind ≠ .punctuation .semi)
    (hlevel : level' + token.kind.closing = level + token.kind.opening)
    (hf : ∀ token, Mirrors (o.At level' fewer second) (f token) (g token) post) :
    Mirrors (fun s t => o.At level bound token s t ∧ s.tokenAt 1 = second)
      (Parser.advance >>= f) (Parser.advance >>= g) post := by
  refine ⟨Grows.advance.bind fun token => (hf token).1, fun s t hhonest hR hsilent => ?_⟩
  obtain ⟨⟨coming, hbound, hfaces⟩, htoken⟩ := hR
  cases coming with
  | nil =>
      have hsemi : s.tokenAt 1 = o.semi := by simp [tokenAt, hfaces.rest, Omission.here]
      rw [← htoken, hsemi] at hsecond
      exact (hsecond o.isSemi).elim
  | cons next coming =>
      obtain rfl : next = second := by
        rw [← htoken]
        simp [tokenAt, hfaces.rest]
      obtain ⟨hs, ht⟩ := hfaces.advance
      show post (f (Parser.advance s).1 (Parser.advance s).2).1 (g (Parser.advance t).1
          (Parser.advance t).2).1 (f (Parser.advance s).1 (Parser.advance s).2).2
        (g (Parser.advance t).1 (Parser.advance t).2).2
      change (f (Parser.advance s).1 (Parser.advance s).2).2.Silent at hsilent
      rw [hs] at hsilent
      rw [hs, ht]
      rw [List.length_cons] at hbound
      exact (hf token).2 _ _ hhonest ⟨coming, by omega, hfaces.skip hlevel⟩ hsilent

theorem Mirrors.argumentName {token : Token} :
    Mirrors (o.At level bound token) argumentName argumentName
      (Both fun _ => o.Within level bound) := by
  refine Mirrors.peekAt fun token => Mirrors.peekSecondAt fun second second' hsecond => ?_
  have hcolon : second.isPunctuation .colon = second'.isPunctuation .colon := by
    obtain rfl | ⟨hsemi, hends⟩ := hsecond
    · rfl
    · have hends' : second.kind.endsTerm = true := by
        rw [hsemi]
        rfl
      rw [isPunctuation_of_endsTerm rfl hends, isPunctuation_of_endsTerm rfl hends']
  rw [← hcolon]
  split
  · rename_i hnamed
    obtain ⟨kind, text, range, line⟩ := token
    obtain ⟨hname, hcolon⟩ := Bool.and_eq_true_iff.mp hnamed
    obtain rfl : kind = .identifier := by simpa [Token.isIdentifier] using hname
    rw [Token.isPunctuation, beq_iff_eq] at hcolon
    refine Mirrors.advanceTo bound (Nat.le_succ _) (by simp [hcolon]) rfl fun _ => ?_
    refine Mirrors.advance bound (Nat.le_succ _) (by rw [hcolon]; rfl) fun _ => ?_
    exact Mirrors.map (Mirrors.nameOf _) fun _ s t hwithin => hwithin
  · exact Mirrors.pure fun s t hat => ⟨rfl, hat.1.within⟩

/-- Where a parser does nothing at a `;`, what follows it has to refuse the `;`. -/
theorem Refuses.still {f : α → Parser β} (hp : ∀ s, s.AtSemi → ∃ a, p s = (a, s))
    (hf : ∀ a, Refuses (f a)) : Refuses (p >>= f) := by
  intro s hhonest hsemi
  obtain ⟨a, hrun⟩ := hp s hsemi
  show ¬(f (p s).1 (p s).2).2.Silent
  rw [hrun]
  exact hf a s hhonest hsemi

theorem direction_atSemi (s : ParserState) (hsemi : s.AtSemi) : direction s = (none, s) := by
  have hkind : s.current.kind = .punctuation .semi := hsemi
  have hnone : s.current.keyword?.bind Direction.ofKeyword? = none := by
    rw [Token.keyword?, hkind]
    rfl
  simp only [direction, bind, StateT.bind, Parser.peek, hnone]
  rfl

theorem argumentName_atSemi (s : ParserState) (hsemi : s.AtSemi) : argumentName s = (none, s) := by
  have hname : s.current.isIdentifier = false := by
    rw [Token.isIdentifier, show s.current.kind = _ from hsemi]
    decide
  show (if s.current.isIdentifier && (s.tokenAt 1).isPunctuation .colon then _ else _ :
    Parser (Option Name)) s = _
  rw [hname]
  rfl

theorem Refuses.argument : Refuses argument := by
  refine Refuses.peek fun _ _ _ => Refuses.still (fun s hsemi => ⟨_, argumentName_atSemi s hsemi⟩)
    fun name => Refuses.still (fun s hsemi => ⟨_, direction_atSemi s hsemi⟩) fun direction => ?_
  exact Refuses.expression.bind Agrees.expression.grows fun _ =>
    (Grows.rangeSince _).bind fun _ => Grows.pure _

theorem Mirrors.argument : Follows o level bound argument argument := by
  refine Mirrors.ofAt (fun token => Mirrors.peekAt fun token => ?_) Refuses.argument
  apply Mirrors.next Mirrors.argumentName
  intro name
  apply Mirrors.next Mirrors.direction
  intro direction
  apply Mirrors.next Mirrors.expression
  intro value
  apply Mirrors.rangeSince
  intro range
  exact Mirrors.pure fun s t hwithin => ⟨rfl, hwithin⟩

/-- One more item of a list in parentheses, and what lies between it and the next one. -/
theorem Mirrors.listTurn {σ : Type} {item : Parser σ} {last : α} {context what : String}
    {inBody : Bool} {set : RecoverySet} (add : σ → α) (hitem : Keeps o level (bound + 1) item) (hrefuses : Refuses item) :
    Mirrored (o.Within level (bound + 1)) (do
        if ← Parser.listGoesOn context inBody then
          let next := add (← item)
          if ← Parser.listContinues context what inBody set then Pure.pure (Turn.again next)
          else Pure.pure (Turn.done next)
        else Pure.pure (Turn.done last)) (Both (o.Turned level bound)) := by
  have hend : ∀ next : α, Grows (do
      if ← Parser.listContinues context what inBody set then Pure.pure (Turn.again next)
      else Pure.pure (Turn.done next)) := by
    intro next
    refine (Same.listContinues _ _ _ _).grows.bind fun continues => ?_
    split
    · exact Grows.pure _
    · exact Grows.pure _
  apply Mirrors.ofAt
  · intro token
    refine Mirrors.listGoesOn (bound + 1) (Nat.le_succ _) (fun token => ?_) ?_
    · apply Mirrors.next (hitem.weaken fun _ _ => Omission.At.within)
      intro found
      apply Mirrors.next (Mirrors.listContinues bound (Nat.le_refl _))
      intro continues
      split
      · exact Mirrors.pure fun s t hwithin => ⟨rfl, hwithin⟩
      · exact Mirrors.pure fun s t hwithin => ⟨rfl, hwithin.mono (Nat.le_succ _)⟩
    · exact Mirrors.pure fun s t hwithin => ⟨rfl, hwithin⟩
  · exact Refuses.listGoesOn (hrefuses.bind hitem.1 fun found => hend _)

theorem Mirrors.argumentTurn (arguments : List Argument) :
    Mirrors (o.Within level (bound + 1)) (argumentTurn arguments) (argumentTurn arguments)
      (Both (o.Turned level bound)) :=
  Mirrors.listTurn (arguments ++ [·]) Mirrors.argument Refuses.argument

theorem Mirrors.arguments : Follows o level (bound + 1) arguments arguments := by
  refine Mirrors.acceptPunctuation (bound + 1) (Nat.le_succ _) (fun _ => rfl) rfl ?_ ?_
  · exact Mirrors.map (Mirrors.iterate fun _ _ => Mirrors.argumentTurn) fun _ s t hwithin => hwithin
  · exact Mirrors.pure fun s t hwithin => ⟨rfl, hwithin⟩

theorem Mirrors.indexTurn (indices : List Expr) :
    Mirrors (o.Within level (bound + 1)) (indexTurn indices) (indexTurn indices)
      (Both (o.Turned level bound)) := by
  refine Mirrors.acceptPunctuation bound (Nat.le_refl _) (fun _ => rfl) rfl ?_ ?_
  · apply Mirrors.next Mirrors.expression
    intro index
    have hagain : Mirrors (o.Within level bound)
        (Pure.pure (Turn.again (indices ++ [index])) : Parser (Turn (List Expr)))
        (Pure.pure (Turn.again (indices ++ [index]))) (Both (o.Turned level bound)) :=
      Mirrors.pure fun s t hwithin => ⟨rfl, hwithin⟩
    refine Mirrors.acceptPunctuation bound (Nat.le_succ _) nofun rfl hagain ?_
    have hdone : ∀ _ : Unit, Grows (Pure.pure (Turn.done (indices ++ [index])) :
        Parser (Turn (List Expr))) := fun _ => Grows.pure _
    refine Mirrors.choice Token.isAssignment ⟨.operator .eq, "", .none, false⟩ rfl nofun ?_ ?_
    · intro token _
      exact Mirrors.loud ((Grows.expected _).bind hdone) (Loud.expected_bind hdone _)
    · exact Mirrors.expectPunctuation bound (Nat.le_succ _) nofun rfl hagain (Grows.pure _)
  · exact Mirrors.pure fun s t hwithin => ⟨rfl, hwithin⟩

/-! ### Preconditions -/

theorem Mirrors.preconditionClosed (found : List Precondition) (start : SourceRange)
    (condition : Expr) (kind : Option PreconditionKind) :
    Mirrored (o.Within level bound) (preconditionClosed found start condition kind)
      (TurnUnless AtSemi (o.Turned level bound)) := by
  have hagain : ∀ more : List Precondition, Mirrored (o.Within level bound)
      (Pure.pure (Turn.again more)) (TurnUnless AtSemi (o.Turned level bound)) :=
    fun more => Mirrors.pure fun s t hwithin => .inr ⟨rfl, hwithin⟩
  unfold Parser.preconditionClosed
  apply Mirrors.rangeSince
  intro range
  cases kind with
  | none => exact hagain _
  | some kind => exact hagain _

theorem Mirrors.preconditionBehind (found : List Precondition) (start : SourceRange)
    (kind : Option PreconditionKind) :
    Mirrored (o.Within level bound) (preconditionBehind found start kind)
      (TurnUnless AtSemi (o.Turned level bound)) := by
  unfold Parser.preconditionBehind
  refine Mirrors.expectPunctuation bound (Nat.le_succ _) (fun _ => rfl) rfl ?_ (Grows.pure _)
  apply Mirrors.next Mirrors.expression
  intro condition
  have hclosed : Mirrored (o.Within level bound) (Parser.preconditionClosed found start condition kind)
      (TurnUnless AtSemi (o.Turned level bound)) :=
    Mirrors.preconditionClosed found start condition kind
  exact Mirrors.expectPunctuation bound (Nat.le_succ _) (fun _ => rfl) rfl hclosed hclosed.1

theorem Mirrors.preconditionTurn (found : List Precondition) :
    Mirrored (o.Within level (bound + 1)) (preconditionTurn found)
      (TurnUnless AtSemi (o.Turned level bound)) := by
  refine Mirrors.peekHalting (fun token => ?_) fun _ _ _ s hsemi _ _ => ?_
  · refine Mirrors.acceptAt bound (Nat.le_refl _) rfl ?_ ?_
    · refine Mirrors.expectName bound (Nat.le_succ _) (fun name => ?_)
        ((Grows.acceptPunctuation _).bind fun _ => Grows.pure _)
      have hbehind : Mirrored (o.Within level bound)
          (Parser.preconditionBehind found token.range (PreconditionKind.ofSpelling? name.text))
          (TurnUnless AtSemi (o.Turned level bound)) := Mirrors.preconditionBehind found _ _
      dsimp only
      split
      · exact Mirrors.loud ((Same.report _ _ rfl).grows.bind fun _ => hbehind.1)
          (Loud.report_bind (fun _ => hbehind.1) _)
      · exact hbehind
    · exact fun token => Mirrors.pure fun s t hat => .inr ⟨rfl, hat.within⟩
  · unfold Parser.acceptPunctuation
    rw [accept_atSemi (fun _ _ _ => rfl) hsemi]
    exact .inl ⟨⟨found, rfl⟩, hsemi⟩

theorem Mirrors.preconditions :
    Mirrored (o.Within level (bound + 1)) preconditions
      (Unless AtSemi fun _ => o.Within level (bound + 1)) :=
  Mirrors.iterateUnless fun _ _ => Mirrors.preconditionTurn

/-! ### Ports and parameters -/

theorem docComments_atSemi (s : ParserState) (hsemi : s.AtSemi) : docComments s = (.none, s) := by
  have hturn : docTurn .none s = (.done .none, s) := by
    have hkind : s.current.kind = .punctuation .semi := hsemi
    simp only [docTurn, bind, StateT.bind, Parser.peek, hkind]
    rfl
  have hloop : docComments s = (.none, (docTurn .none s).2) :=
    iterate_done (congrArg Prod.fst hturn)
  rw [hloop, hturn]

section Params

variable (what : String) (set : RecoverySet)

/-- A parameter behind its documentation. -/
theorem Refuses.paramBehind (docs : Docs) : Refuses (do
    let start := (← Parser.peek).range
    let direction ← Parser.direction
    match ← Parser.expectName ("a " ++ what ++ " name") set with
    | none => Pure.pure none
    | some name =>
      let context := "after " ++ what ++ " name " ++ quoted name.text
      let type ← if ← Parser.expectPunctuation .colon context set then Parser.typeExpr
        else Parser.missingType
      let default ← Parser.initializer
      return some (⟨docs.lines, direction, name, type, default, ← Parser.rangeSince start⟩ :
        Param)) := by
  refine Refuses.peek fun _ start _ => Refuses.still
    (fun s hsemi => ⟨_, direction_atSemi s hsemi⟩) fun direction => ?_
  refine (Refuses.expectName _ _).bind (Agrees.expectName _ _).grows ?_
  rintro (_ | name)
  · exact Grows.pure none
  · refine (Same.expectPunctuation _ _ _).grows.bind fun colon => ?_
    have hrest : ∀ type, Grows (do
        let default ← Parser.initializer
        return some (⟨docs.lines, direction, name, type, default,
          ← Parser.rangeSince start⟩ : Param)) := fun type =>
      Agrees.initializer.grows.bind fun _ => (Grows.rangeSince _).bind fun _ => Grows.pure _
    split
    · exact Agrees.typeExpr.grows.bind hrest
    · exact Agrees.missingType.grows.bind hrest

theorem Refuses.param : Refuses (param what set) :=
  Refuses.still (fun s hsemi => ⟨_, docComments_atSemi s hsemi⟩) (Refuses.paramBehind what set)

theorem Mirrors.param : Keeps o level (bound + 1) (param what set) := by
  refine Mirrors.nextRefusing Mirrors.docComments (Refuses.paramBehind what set) fun docs token =>
    Mirrors.peekAt fun token => ?_
  apply Mirrors.next (Mirrors.direction.weaken fun _ _ => Omission.At.within)
  intro direction
  refine Mirrors.expectName (bound + 1) (Nat.le_succ _) (fun name => ?_) (Grows.pure none)
  have hrest : ∀ type, Keeps o level (bound + 1) (do
      let default ← Parser.initializer
      return some (⟨docs.lines, direction, name, type, default,
        ← Parser.rangeSince token.range⟩ : Param)) := by
    intro type
    apply Mirrors.next Mirrors.initializer
    intro default
    exact Mirrors.rangeSince fun _ => Mirrors.pure fun s t hwithin => ⟨rfl, hwithin⟩
  refine Mirrors.expectPunctuation (bound + 1) (Nat.le_succ _) (fun _ => rfl) rfl ?_ ?_
  · exact Mirrors.next Mirrors.typeExpr hrest
  · exact Agrees.missingType.grows.bind fun type => (hrest type).1

end Params

theorem Mirrors.paramTurn (what : String) (params : List Param) :
    Mirrored (o.Within level (bound + 1)) (paramTurn what params) (Both (o.Turned level bound)) :=
  Mirrors.listTurn (fun param : Option Param => params ++ param.toList) (Mirrors.param what _)
    (Refuses.param what _)

theorem Mirrors.paramList (what context : String) :
    Keeps o level (bound + 1) (paramList what context) :=
  Mirrors.expectPunctuation (bound + 1) (Nat.le_succ _) (fun _ => rfl) rfl
    (Mirrors.iterate fun _ _ => Mirrors.paramTurn what) (Grows.pure [])

/-! ### Attributes -/

theorem Mirrors.policy {σ : Type} (what choices : String) (ofSpelling? : String → Option σ)
    (set : RecoverySet) : Keeps o level bound (policy what choices ofSpelling? set) := by
  refine Mirrors.expectName bound (Nat.le_succ _) (fun name => ?_) (Grows.pure none)
  dsimp only
  split
  · exact Mirrors.pure fun s t hwithin => ⟨rfl, hwithin⟩
  · exact Mirrors.loud ((Same.report _ _ rfl).grows.bind fun _ => Grows.pure _)
      (Loud.report_bind (fun _ => Grows.pure _) _)

theorem Mirrors.flowPolicy (set : RecoverySet) : Keeps o level bound (flowPolicy set) :=
  Mirrors.acceptPunctuation bound (Nat.le_succ _) (fun _ => rfl) rfl (Mirrors.policy _ _ _ _)
    (Mirrors.pure fun _ _ hwithin => ⟨rfl, hwithin⟩)

theorem Mirrors.policies (set : RecoverySet) : Keeps o level bound (policies set) := by
  refine Mirrors.expectPunctuation bound (Nat.le_succ _) (fun _ => rfl) rfl ?_ (Grows.pure _)
  apply Mirrors.next (Mirrors.policy _ _ _ _)
  intro data
  apply Mirrors.next (Mirrors.flowPolicy _)
  intro flow
  refine Mirrors.expectPunctuation bound (Nat.le_succ _) (fun _ => rfl) rfl ?_ ?_
  · split
    · exact Mirrors.pure fun s t hwithin => ⟨rfl, hwithin⟩
    · exact Mirrors.pure fun s t hwithin => ⟨rfl, hwithin⟩
  · split
    · exact Grows.pure _
    · exact Grows.pure _

/-- Inside the brackets of the attribute. -/
theorem Mirrors.attributeBody (set : RecoverySet) :
    Mirrored (o.Within level bound) (attributeBody set)
      (Both fun _ => o.Within (level + 1) bound) := by
  refine Mirrors.expectPunctuation bound (Nat.le_succ _) (fun _ => rfl) rfl ?_ (Grows.pure _)
  refine Mirrors.expectName bound (Nat.le_succ _) (fun name => ?_) (Grows.pure none)
  dsimp only
  split
  · exact Mirrors.policies set
  · have hrecovers : ∀ _ : Unit, Grows (do
        Parser.synchronize set
        Pure.pure none : Parser (Option (DataPolicy × FlowPolicy))) := fun _ =>
      (Grows.synchronize set).bind fun _ => Grows.pure none
    exact Mirrors.loud ((Same.report _ _ rfl).grows.bind hrecovers) (Loud.report_bind hrecovers _)

theorem Mirrors.attributeHere :
    Mirrored (o.Within level bound) attributeHere (Unless AtSemi fun _ => o.Within level bound) := by
  refine Mirrors.peekHalting (fun token => ?_) fun _ _ _ s hsemi _ _ => ?_
  · refine Mirrors.acceptAt bound (Nat.le_succ _) rfl ?_ fun token => ?_
    · apply Mirrors.next (Mirrors.attributeBody _)
      intro policies
      have hmake : Mirrored (o.Within level bound) (do
          let range ← Parser.rangeSince token.range
          Pure.pure (some (⟨policies.map fun both => ⟨both.1, both.2, range⟩, range⟩ :
            Attribute))) (Unless AtSemi fun _ => o.Within level bound) :=
        Mirrors.rangeSince fun _ => Mirrors.pure fun s t hwithin => .inr ⟨rfl, hwithin⟩
      exact Mirrors.expectPunctuation bound (Nat.le_succ _) (fun _ => rfl) rfl hmake hmake.1
    · exact Mirrors.pure fun s t hat => .inr ⟨rfl, hat.within⟩
  · unfold Parser.acceptPunctuation
    rw [accept_atSemi (fun _ _ _ => rfl) hsemi]
    exact .inl hsemi

theorem Mirrors.moduleDocs :
    Mirrored (o.Within level (bound + 1)) moduleDocs
      (Unless AtSemi fun _ => o.Within level (bound + 1)) := by
  refine Mirrors.iterateUnless fun fewer _ docs => Mirrors.peekHalting ?_
    fun _ _ _ _ hsemi _ _ => .inl ⟨⟨docs, rfl⟩, hsemi⟩
  rintro ⟨kind, text, range, line⟩
  dsimp only
  split
  · refine Mirrors.advance fewer (Nat.le_refl _) rfl fun _ => ?_
    exact Mirrors.pure fun s t hwithin => .inr ⟨rfl, hwithin⟩
  · exact Mirrors.pure fun s t hat => .inr ⟨rfl, hat.within⟩

end Parser

end BehaviorTree
