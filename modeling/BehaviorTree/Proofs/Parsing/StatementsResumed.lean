import BehaviorTree.Proofs.Parsing.Resumption

/-!
# Statements around a missing terminator

A statement that starts in front of the omission ends in front of it, ends with it or has it in its
block. In each case the runs come out of the statement with the same up to places.
-/

namespace BehaviorTree

namespace Omission

open ParserState

variable {o : Omission} {s t : ParserState}

/-- Behind the omission both runs have consumed a token. -/
theorem Past.moved {start start' : ParserState} {bound : Nat} {token : Token} (hpast : o.Past s t)
    (hat : o.At 0 bound token start start') (hreaches : start.Reaches s) :
    s.position ≠ start.position ∧ t.position ≠ start'.position := by
  obtain ⟨coming, -, hfaces⟩ := hat
  obtain ⟨passed, hbefore, hposition, -⟩ := hfaces.passed
  have hposition' : start'.position = passed.length := by
    rw [hfaces.same]
    exact hposition
  have hlength : o.before.length = passed.length + coming.length + 1 := by
    rw [hbefore, List.length_append, List.length_cons]
    omega
  cases hstarts : o.next.kind.startsItem with
  | true =>
      have hparted : s.position = t.position + 1 ∧ o.before.length ≤ t.position := by
        obtain hcrossed | ⟨-, htwins⟩ := hpast
        · have hrelated := hcrossed.twins.related
          rw [books_of_starts hstarts] at hrelated
          exact ⟨hrelated.position, hrelated.passed⟩
        · have hrelated := htwins.related
          rw [books_of_starts hstarts] at hrelated
          exact ⟨hrelated.position, hrelated.passed⟩
      omega
  | false =>
      obtain hcrossed | ⟨hstarts', -⟩ := hpast
      · have hrelated := hcrossed.twins.related
        rw [books, hstarts] at hrelated
        have hsame : s.position = t.position := hrelated.position
        obtain ⟨count, hrest, hmoved⟩ := hreaches.moved
        have hcount : count ≠ 0 := by
          rintro rfl
          rw [hcrossed.rest, hfaces.rest] at hrest
          have hlengths := congrArg List.length hrest
          simp [here] at hlengths
          omega
        omega
      · rw [hstarts] at hstarts'
        cases hstarts'

end Omission

theorem TokenKind.flat_of_startsItem {kind : TokenKind} (hstarts : kind.startsItem = true) :
    kind.closing = kind.opening := by
  cases kind with
  | punctuation mark => cases mark <;> first | rfl | cases hstarts
  | _ => rfl

namespace Parser

open ParserState

variable {α β : Type} {o : Omission} {bound : Nat} {token : Token}
  {R : ParserState → ParserState → Prop} {p : Parser α} {f g : α → Parser β}
  {rel : α → α → Prop} {goal : β → β → Prop}

/-- What is the same for both and leaves them where they are lands. -/
theorem Mirrors.settled {a : α} (hR : ∀ s t, R s t → o.Within 0 bound s t) :
    Mirrored R (Pure.pure a) (o.Lands bound rel) :=
  Mirrors.pure fun s t h => .inl ⟨rfl, hR s t h⟩

/-- Behind something that lands, if what comes next lands from behind the omission too. -/
theorem Mirrors.goOn {q : Parser α} (hp : Mirrors R p q (o.Lands bound rel))
    (hwithin : ∀ a, Mirrors (o.Within 0 bound) (f a) (g a) (o.Lands bound goal))
    (hpast : ∀ a a', rel a a' → Mirrors o.Past (f a) (g a') (Passed o goal)) :
    Mirrors R (p >>= f) (q >>= g) (o.Lands bound goal) :=
  Mirrors.landing hp hwithin fun a a' hrel =>
    (hpast a a' hrel).mono fun _ _ _ _ => .inr

/-- Stepping over a token keeps the runs together: it would be the same token for both. -/
theorem Mirrors.orStepOver {exempt : Token → Bool} (hp : Mirrored (o.At 0 bound token) p (o.Lands bound rel))
    (hopens : Opens p) (hagrees : Agrees p p rel)
    (hexempt : ∀ token : Token, exempt token.blank = exempt token) :
    Mirrored (o.At 0 bound token) (orStepOver p exempt) (o.Lands bound rel) := by
  have hrun : ∀ s, Parser.orStepOver p exempt s =
      if (p s).2.position = s.position ∧ !exempt (p s).2.current then
        ((p s).1, (Parser.advance (p s).2).2) else p s := fun _ => rfl
  refine ⟨(Agrees.orStepOver hexempt hagrees).grows, fun s t hhonest hat hsilent => ?_⟩
  have hsilent' := silent_of_orStepOver hagrees.grows hhonest hsilent
  rw [hrun, hrun]
  obtain ⟨hsame, coming', hbound', hfaces'⟩ | ⟨hrel, hpast⟩ := hp.2 s t hhonest hat hsilent'
  · obtain ⟨coming, hbound, hfaces⟩ := hat
    have hposition : t.position = s.position := by rw [hfaces.same]
    have hposition' : (p t).2.position = (p s).2.position := by rw [hfaces'.same]
    by_cases hmoved : (p s).2.position = s.position
    · obtain ⟨passed, hcut, hlength, -⟩ := hfaces.passed
      obtain ⟨passed', hcut', hlength', -⟩ := hfaces'.passed
      obtain rfl : coming' = token :: coming :=
        ((List.append_inj (hcut.symm.trans hcut') (by omega)).2).symm
      rw [hfaces'.current, hfaces'.current', hposition', hposition]
      have hstarts : token.kind.startsItem = true := by
        rw [← hfaces.current]
        exact hopens s hhonest hsilent'
      split
      · rw [hfaces'.advance.1, hfaces'.advance.2]
        refine .inl ⟨hsame, coming, by omega, hfaces'.skip ?_⟩
        rw [TokenKind.flat_of_startsItem hstarts]
      · exact .inl ⟨hsame, token :: coming, hbound', hfaces'⟩
    · rw [if_neg fun hstays => hmoved hstays.1,
        if_neg fun hstays => hmoved (by rw [← hposition', hstays.1, hposition])]
      exact .inl ⟨hsame, coming', hbound', hfaces'⟩
  · obtain ⟨hmoved, hmoved'⟩ := hpast.moved hat (hagrees.reaches s)
    rw [if_neg fun hstays => hmoved hstays.1, if_neg fun hstays => hmoved' hstays.1]
    exact .inr ⟨hrel, hpast⟩

/-! ### Variables, constants and assignments -/

theorem Mirrors.varParts (set : RecoverySet) (hflat : token.kind.closing = token.kind.opening) :
    Mirrored (o.At 0 bound token) (varParts set)
      (o.Lands bound (Alike (Option.map VarParts.shape))) := by
  refine Mirrors.advance bound (Nat.le_succ _) (by rw [hflat]) fun _ => ?_
  refine Mirrors.expectName bound (Nat.le_succ _) (fun name => ?_)
    ((Grows.acceptPunctuation _).bind fun _ => Grows.pure none)
  apply Mirrors.next Mirrors.declaredType
  intro type
  apply Mirrors.next Mirrors.initializer
  intro init
  exact Mirrors.terminated rfl

theorem Mirrors.constParts (set : RecoverySet) (hflat : token.kind.closing = token.kind.opening) :
    Mirrored (o.At 0 bound token) (constParts set)
      (o.Lands bound (Alike (Option.map ConstParts.shape))) := by
  refine Mirrors.advance bound (Nat.le_succ _) (by rw [hflat]) fun _ => ?_
  refine Mirrors.expectName bound (Nat.le_succ _) (fun name => ?_)
    ((Grows.acceptPunctuation _).bind fun _ => Grows.pure none)
  apply Mirrors.next Mirrors.declaredType
  intro type
  have hfinish : ∀ value, Mirrored (o.Within 0 bound) (do
      Parser.expectSemi "after constant declaration" set
      Pure.pure (some (ConstParts.mk name type value)))
      (o.Lands bound (Alike (Option.map ConstParts.shape))) := fun value =>
    Mirrors.terminated rfl
  refine Mirrors.expectOperator bound (Nat.le_succ _) (Mirrors.next Mirrors.expression hfinish) ?_
  exact Agrees.missingExpr.grows.bind fun value => (hfinish value).1

theorem Mirrors.assignment (hflat : token.kind.closing = token.kind.opening) :
    Mirrored (o.At 0 (bound + 1) token) assignment (o.Lands (bound + 1) MayBuildAlike) := by
  have hfails : Grows (do
      Parser.expected "an assignment operator"
      Parser.abandonStatement
      Pure.pure (none : Option (StmtHead → Stmt))) :=
    (Grows.expected _).bind fun _ => Same.abandonStatement.grows.bind fun _ => Grows.pure none
  refine Mirrors.advance (bound + 1) (Nat.le_succ _) (by rw [hflat]) fun token => ?_
  apply Mirrors.next (Mirrors.nameOf token)
  intro target
  apply Mirrors.next (Mirrors.iterate fun _ _ => Mirrors.indexTurn)
  intro indices
  refine Mirrors.peek_refusing (fun token => ?_) fun _ _ _ => ?_
  · split
    · rename_i op hop
      have hflat' : token.kind.closing = token.kind.opening := by
        obtain ⟨operator, hoperator, -⟩ := Option.bind_eq_some_iff.mp hop
        rw [Token.kind_of_operator? hoperator]
        rfl
      refine Mirrors.advance (bound + 1) (Nat.le_succ _) (by rw [hflat']) fun _ => ?_
      apply Mirrors.next Mirrors.expression
      intro value
      refine Mirrors.terminated fun head head' hhead => ?_
      simp only [Stmt.shape, hhead]
    · exact Mirrors.loud hfails (Loud.expected_bind (fun _ => Same.abandonStatement.grows.bind
        fun _ => Grows.pure none) _)
  · exact (Loud.expected_bind (fun _ => Same.abandonStatement.grows.bind
      fun _ => Grows.pure none) _).refuses

/-! ### Nodes -/

theorem Refuses.semicolonAfterBlock : Refuses semicolonAfterBlock := by
  intro s _ hsemi
  have hfound : acceptPunctuation .semi s = (true, (advance s).2) :=
    accept_passes (by rw [Token.isPunctuation, show s.current.kind = _ from hsemi]; decide)
  show ¬((if (acceptPunctuation .semi s).1 then report _ else Pure.pure () : Parser Unit)
    (acceptPunctuation .semi s).2).2.Silent
  rw [hfound]
  exact not_silent_report _

theorem Blind.semicolonAfterBlock : Blind token semicolonAfterBlock := by
  refine Blind.peek (fun _ => rfl) ?_
  unfold Parser.acceptPunctuation
  rw [accept_bind]
  refine Blind.peek (fun _ => rfl) ?_
  split
  · exact Blind.loud fun s _ => not_silent_report _
  · exact Blind.pure ()

/-- A block that starts in front of the omission lands. -/
abbrev BlockLands (o : Omission) (bound : Nat) (block : Parser (List Stmt)) : Prop :=
  ∀ text range line, Mirrored (o.At 0 bound ⟨.punctuation .lBrace, text, range, line⟩) block
    (o.Lands bound (Alike Stmt.shapes))

theorem semicolonAfterBlock_none {s : ParserState} (hsemi : s.current.isPunctuation .semi = false) :
    semicolonAfterBlock s = ((), s) := by
  show (if (acceptPunctuation .semi s).1 then report _ else Pure.pure () : Parser Unit)
    (acceptPunctuation .semi s).2 = _
  rw [show acceptPunctuation .semi s = (false, s) from accept_fails hsemi]
  rfl

theorem not_isPunctuation_of_isEndOfFile {s : ParserState} {mark : Punctuation}
    (hend : s.current.isEndOfFile = true) : s.current.isPunctuation mark = false := by
  have hkind : s.current.kind = .endOfFile := by simpa [Token.isEndOfFile] using hend
  simp [Token.isPunctuation, hkind]

theorem Mirrors.semicolonAfterBlock : Keeps o 0 bound semicolonAfterBlock := by
  refine Mirrors.ofAt (fun token => Mirrors.peekAt fun token => ?_) Refuses.semicolonAfterBlock
  refine Mirrors.acceptAt bound (Nat.le_succ _) rfl ?_ fun _ => ?_
  · exact Mirrors.loud (Same.report _ _ rfl).grows (Loud.report _)
  · exact Mirrors.pure fun s t hat => ⟨rfl, hat.within⟩

theorem Mirrors.semicolonAfterBlock_past :
    Mirrors o.Past Parser.semicolonAfterBlock Parser.semicolonAfterBlock (Passed o Eq) := by
  apply Mirrors.past Same.semicolonAfterBlock
  cases hnext : o.next.isEndOfFile with
  | false => exact Mirrors.crossed hnext Same.semicolonAfterBlock Blind.semicolonAfterBlock
  | true =>
      refine Mirrors.crossedEnd hnext Same.semicolonAfterBlock.grows fun s t hs ht _ _ => ?_
      rw [semicolonAfterBlock_none (not_isPunctuation_of_isEndOfFile hs),
        semicolonAfterBlock_none (not_isPunctuation_of_isEndOfFile ht)]
      exact ⟨rfl, rfl, rfl⟩

/-- Making a statement of it keeps the runs where they are. -/
theorem Mirrors.finishStmt_past (docs : Docs) (preconditions : List Precondition)
    {start : SourceRange} {build build' : Option (StmtHead → Stmt)}
    (hbuild : MayBuildAlike build build') :
    Mirrors o.Past (Parser.finishStmt docs preconditions start build)
      (Parser.finishStmt docs preconditions start build')
      (Passed o (Alike (Option.map Stmt.shape))) := by
  cases build with
  | none =>
      cases build' with
      | some _ => exact hbuild.elim
      | none => exact Mirrors.pure fun s t hpast => ⟨rfl, hpast⟩
  | some build =>
      cases build' with
      | none => exact hbuild.elim
      | some build' =>
          refine ⟨Grows.finishStmt preconditions docs start _, fun s t _ hpast _ =>
            ⟨congrArg some (hbuild _ _ ?_), hpast.withArena _ _⟩⟩
          rfl

theorem Mirrors.finishStmt (docs : Docs) (preconditions : List Precondition)
    (start : SourceRange) (build : Option (StmtHead → Stmt)) :
    Keeps o 0 bound (Parser.finishStmt docs preconditions start build) := by
  cases build with
  | none => exact Mirrors.pure fun s t hwithin => ⟨rfl, hwithin⟩
  | some build =>
      refine Mirrors.rangeSince fun range => ?_
      exact Mirrors.map (Mirrors.ofArena fun arena =>
        arena.addStmt range fun origin => build ⟨origin, docs.lines, preconditions⟩)
        fun _ s t hwithin => hwithin

theorem Mirrors.leafBehind (callee : Name) (arguments : Option (List Argument)) :
    Mirrored (o.Within 0 (bound + 1)) (leafBehind callee arguments)
      (o.Lands (bound + 1) MayBuildAlike) := by
  unfold Parser.leafBehind
  cases arguments with
  | some arguments =>
      refine Mirrors.terminated fun head head' hhead => ?_
      simp only [Stmt.shape, hhead]
  | none =>
      have hgrows : ∀ _ : Unit, Grows (do
          Parser.abandonStatement
          Pure.pure (none : Option (StmtHead → Stmt))) := fun _ =>
        Same.abandonStatement.grows.bind fun _ => Grows.pure none
      exact Mirrors.loud ((Grows.expectedWithHelp _ _).bind hgrows)
        (Loud.expectedWithHelp_bind hgrows _ _)

section Block

variable {block : Parser (List Stmt)} (hblock : BlockLands o (bound + 1) block)
  (hagrees : Agrees block block (Alike Stmt.shapes))

include hblock

theorem Mirrors.node (hflat : token.kind.closing = token.kind.opening) :
    Mirrored (o.At 0 (bound + 1) token) (node block) (o.Lands (bound + 1) MayBuildAlike) := by
  refine Mirrors.advance (bound + 1) (Nat.le_succ _) (by rw [hflat]) fun token => ?_
  apply Mirrors.next (Mirrors.nameOf token)
  intro callee
  apply Mirrors.next Mirrors.arguments
  intro arguments
  refine Mirrors.atPunctuation (fun _ => rfl) (fun text range line => ?_)
    (Mirrors.leafBehind callee arguments)
  refine Mirrors.goOn (hblock text range line) (fun children => ?_)
    fun children children' hchildren => ?_
  · exact Mirrors.next Mirrors.semicolonAfterBlock fun _ => Mirrors.settled fun _ _ h => h
  · refine Mirrors.bind Mirrors.semicolonAfterBlock_past fun _ _ =>
      Mirrors.pure fun s t hpassed => ⟨fun head head' hhead => ?_, hpassed.2⟩
    simp only [Stmt.shape, hhead, show Stmt.shapes children = Stmt.shapes children' from hchildren]

theorem Mirrors.bareStatement (preconditions : List Precondition) (docs : Docs) :
    Mirrored (o.At 0 (bound + 1) token) (bareStatement block preconditions docs)
      (o.Lands (bound + 1) MayBuildAlike) := by
  have hunattached : ∀ token, Mirrored (o.At 0 (bound + 1) token) (do
      Parser.unattached preconditions docs
      Pure.pure (none : Option (StmtHead → Stmt))) (o.Lands (bound + 1) MayBuildAlike) := by
    intro token
    have hgrows : ∀ _ : Unit, Grows (Pure.pure (none : Option (StmtHead → Stmt))) :=
      fun _ => Grows.pure none
    unfold Parser.unattached Parser.danglingDocs
    split
    · exact Mirrors.loud ((Same.report _ _ rfl).grows.bind hgrows) (Loud.report_bind hgrows _)
    · split
      · exact Mirrors.loud ((Same.report _ _ rfl).grows.bind hgrows) (Loud.report_bind hgrows _)
      · exact Mirrors.settled fun _ _ hat => hat.within
  refine Mirrors.peekAt ?_
  rintro ⟨kind, text, range, line⟩
  dsimp only
  split
  case h_1 =>
    refine Mirrors.goOn (Mirrors.varParts _ rfl) (fun parts => Mirrors.settled fun _ _ h => h)
      fun parts parts' hparts => Mirrors.pure fun s t hpast => ⟨?_, hpast⟩
    cases parts <;> cases parts' <;> simp [Alike, VarParts.shape, MayBuildWith] at hparts ⊢
    intro head head' hhead
    simp only [hhead, hparts, and_self]
  case h_2 =>
    refine Mirrors.goOn (Mirrors.constParts _ rfl) (fun parts => Mirrors.settled fun _ _ h => h)
      fun parts parts' hparts => Mirrors.pure fun s t hpast => ⟨?_, hpast⟩
    cases parts <;> cases parts' <;> simp [Alike, ConstParts.shape, MayBuildWith] at hparts ⊢
    intro head head' hhead
    simp only [hhead, hparts, and_self]
  case h_3 =>
    split
    · exact Mirrors.loud ((Same.skipForeign _).grows.bind fun _ => Grows.pure none)
        ((Loud.skipForeign _).bind (Same.skipForeign _).grows fun _ => Grows.pure none)
    · have hlooks : Mirrored (o.At 0 (bound + 1) ⟨.identifier, text, range, line⟩)
          (fun state => (Skip.assignmentFollows 0 (state.rest.drop 1), state))
          (Both fun _ => o.At 0 (bound + 1) ⟨.identifier, text, range, line⟩) := by
        refine ⟨fun s hhonest => ⟨hhonest, id⟩, fun s t _ hat _ => ⟨?_, hat⟩⟩
        obtain ⟨coming, -, hfaces⟩ := hat
        exact hfaces.assignmentFollows rfl
      apply Mirrors.next hlooks
      intro isAssignment
      split
      · exact Mirrors.assignment rfl
      · exact Mirrors.node hblock rfl
  case h_4 => exact hunattached _
  case h_5 => exact hunattached _
  case h_6 =>
    split
    · exact hunattached _
    · have hgrows : ∀ _ : Unit, Grows (do
          Parser.abandonStatement
          Pure.pure (none : Option (StmtHead → Stmt))) := fun _ =>
        Same.abandonStatement.grows.bind fun _ => Grows.pure none
      exact Mirrors.loud ((Grows.expectedWithHelp _ _).bind hgrows)
        (Loud.expectedWithHelp_bind hgrows _ _)

include hagrees

theorem Mirrors.statement :
    Mirrored (o.At 0 (bound + 1) token) (statement block)
      (o.Lands (bound + 1) (Alike (Option.map Stmt.shape))) := by
  have hbehind : ∀ docs preconditions token, Mirrored (o.At 0 (bound + 1) token)
      (statementBehind block docs preconditions)
      (o.Lands (bound + 1) (Alike (Option.map Stmt.shape))) := by
    intro docs preconditions token
    refine Mirrors.peekAt fun token => ?_
    refine Mirrors.goOn (Mirrors.bareStatement hblock preconditions docs) (fun build => ?_)
      fun build build' hbuild => Mirrors.finishStmt_past docs preconditions hbuild
    exact (Mirrors.finishStmt docs preconditions _ build).mono fun _ _ _ _ => .inl
  rw [statement_eq]
  refine Mirrors.nextRefusing (Mirrors.docComments.weaken fun _ _ => Omission.At.within)
    (fun docs => (Opens.preconditions_bind docs hagrees).refuses) fun docs token => ?_
  exact Mirrors.nextRefusing (Mirrors.preconditions.weaken fun _ _ => Omission.At.within)
    (fun preconditions => (Opens.statementBehind preconditions docs hagrees).refuses) (hbehind docs)

end Block

/-! ### Blocks -/

/-- A block does not end at the end of the file. -/
theorem blockTurn_loud {stmt : Parser (Option Stmt)} {opening : SourceRange} {stmts : List Stmt}
    {s : ParserState} (hhonest : s.Honest)
    (hend : s.current.isEndOfFile = true) : ¬(blockTurn stmt opening stmts s).2.Silent := by
  have hbreaks : breaksBlock s.current = true := by simp [breaksBlock, hend]
  rw [blockTurn_eq, if_neg (by simp [not_isPunctuation_of_isEndOfFile hend]), if_pos hbreaks]
  exact hhonest.not_silent_reportOnce _

section Statements

variable {stmt : Parser (Option Stmt)} (opening : SourceRange)
  (hagrees : Agrees stmt stmt (Alike (Option.map Stmt.shape)))

include hagrees

theorem Refuses.blockTurn (hopens : Opens stmt) (stmts : List Stmt) :
    Refuses (blockTurn stmt opening stmts) := by
  intro s hhonest hsemi
  have hclosed : ¬s.current.isPunctuation .rBrace = true := by
    rw [Token.isPunctuation, show s.current.kind = _ from hsemi]
    decide
  have hbreaks : ¬breaksBlock s.current = true := by
    rw [breaksBlock, Token.isEndOfFile, Token.isOpenerWord, Token.keyword?,
      show s.current.kind = _ from hsemi]
    simp [TokenKind.keyword?, Token.isKeyword]
  rw [blockTurn_eq, if_neg hclosed, if_neg hbreaks]
  exact (Opens.orStepOver hopens hagrees.grows).refuses s hhonest hsemi

theorem Blind.blockTurn (hopens : Opens stmt) (hend : token.isEndOfFile = false)
    (hblind : Blind token stmt) (stmts : List Stmt) : Blind token (blockTurn stmt opening stmts) := by
  refine Blind.acceptPunctuation rfl (Blind.peek (fun _ => rfl) ?_)
  split
  · exact Blind.loud (Loud.reportOnce_bind (fun _ => Grows.pure _) _)
  · exact Blind.bind (Blind.orStepOver hend (fun _ => rfl) hopens hblind hagrees.reaches)
      (fun _ => ⟨(Agrees.orStepOver (fun _ => rfl) hagrees).grows, Grows.pure _⟩)
      fun _ => Blind.pure _

theorem Mirrors.blockTurn (hopens : Opens stmt)
    (hstmt : ∀ token, Mirrored (o.At 0 bound token) stmt
      (o.Lands bound (Alike (Option.map Stmt.shape)))) (stmts : List Stmt) :
    Mirrored (o.Within 0 bound) (blockTurn stmt opening stmts)
      (o.Lands bound (Turn.Agrees (Alike Stmt.shapes))) := by
  refine Mirrors.ofAt (fun token => ?_) (Refuses.blockTurn opening hagrees hopens stmts)
  refine Mirrors.acceptAt bound (Nat.le_succ _) rfl (Mirrors.settled fun _ _ h => h) fun token =>
    Mirrors.peekAt fun token => ?_
  split
  · exact Mirrors.loud ((Same.reportOnce _ _ rfl).grows.bind fun _ => Grows.pure _)
      (Loud.reportOnce_bind (fun _ => Grows.pure _) _)
  · refine Mirrors.goOn (Mirrors.orStepOver (hstmt token) hopens hagrees fun _ => rfl)
      (fun stmt => Mirrors.settled fun _ _ h => h) fun stmt stmt' hshape =>
        Mirrors.pure fun s t hpast => ⟨?_, hpast⟩
    show Alike Stmt.shapes (stmts ++ stmt.toList) (stmts ++ stmt'.toList)
    cases stmt <;> cases stmt' <;> simp [Alike, Stmt.shapes_eq_map] at hshape ⊢
    exact hshape

theorem Mirrors.blockTurn_crossed (hopens : Opens stmt) (hblind : ∀ token : Token, Blind token stmt)
    {stmts stmts' : List Stmt} (hstmts : Alike Stmt.shapes stmts stmts') :
    Mirrors o.Crossed (Parser.blockTurn stmt opening stmts) (Parser.blockTurn stmt opening stmts')
      (Passed o (Turn.Agrees (Alike Stmt.shapes))) := by
  have hturn : Agrees (Parser.blockTurn stmt opening stmts) (Parser.blockTurn stmt opening stmts')
      (Turn.Agrees (Alike Stmt.shapes)) := Agrees.blockTurn hagrees hstmts
  cases hnext : o.next.isEndOfFile with
  | false => exact Mirrors.crossed hnext hturn (Blind.blockTurn opening hagrees hopens hnext (hblind _) _)
  | true => exact Mirrors.crossedEnd hnext hturn.grows fun s t hs _ hhonest hsilent =>
      (blockTurn_loud hhonest hs hsilent).elim

theorem Mirrors.blockOf (hopens : Opens stmt) (hblind : ∀ token : Token, Blind token stmt)
    (hstmt : ∀ token, Mirrored (o.At 0 bound token) stmt
      (o.Lands bound (Alike (Option.map Stmt.shape)))) : BlockLands o bound (blockOf stmt) := by
  intro text range line
  refine Mirrors.advance bound (Nat.le_succ _) rfl fun opening => ?_
  exact Mirrors.items (blockTurn_reaches hagrees opening.range)
    (fun stmts s next hended hagain => blockTurn_shrinks hagrees hended hagain)
    (fun stmts stmts' hstmts => Agrees.blockTurn hagrees hstmts)
    (Mirrors.blockTurn opening.range hagrees hopens hstmt)
    fun stmts stmts' hstmts => Mirrors.blockTurn_crossed opening.range hagrees hopens hblind hstmts

end Statements

theorem Mirrors.blockOf_statement {block : Parser (List Stmt)}
    (hblock : BlockLands o (bound + 1) block) (hagrees : Agrees block block (Alike Stmt.shapes)) :
    BlockLands o (bound + 1) (Parser.blockOf (Parser.statement block)) :=
  Mirrors.blockOf (Agrees.statement hagrees) (Opens.statement hagrees)
    (fun _ => Blind.statement hagrees) fun _ => Mirrors.statement hblock hagrees

theorem Mirrors.blockAlong (levels : List Token) : BlockLands o (bound + 1) (blockAlong levels) := by
  induction levels with
  | nil =>
      refine Mirrors.blockOf_statement (fun text range line => ?_) (Agrees.pure rfl)
      exact Mirrors.settled fun _ _ hat => hat.within
  | cons token levels ih => exact Mirrors.blockOf_statement ih (Agrees.blockAlong levels)

/-- The second run has no more tokens at hand, but levels for those are enough. -/
theorem Mirrors.block : BlockLands o (bound + 1) block := by
  intro text range line
  refine ⟨Agrees.block.grows, fun s t hhonest hat hsilent => ?_⟩
  have hrun := (Mirrors.blockAlong s.rest text range line).2 s t hhonest hat hsilent
  obtain ⟨coming, -, hfaces⟩ := hat
  have hended : t.Ended := by
    rw [Ended, hfaces.same]
    exact o.ended
  have hlength : t.rest.length ≤ s.rest.length := by
    rw [hfaces.same, hfaces.rest]
    show (_ ++ o.there).length ≤ (_ ++ o.here).length
    rw [List.length_append, List.length_append]
    exact Nat.add_le_add_left length_there_le _
  have hlevels : Parser.blockAlong t.rest t = Parser.blockAlong s.rest t :=
    SameBelow.blockAlong t.rest s.rest (Nat.le_refl _) hlength t hended (Nat.le_refl _)
  show o.Lands _ _ (Parser.blockAlong s.rest s).1 (Parser.blockAlong t.rest t).1
    (Parser.blockAlong s.rest s).2 (Parser.blockAlong t.rest t).2
  rw [hlevels]
  exact hrun

end Parser

end BehaviorTree
