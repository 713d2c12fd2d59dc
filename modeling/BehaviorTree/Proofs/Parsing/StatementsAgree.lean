import BehaviorTree.Parsing.Statement
import BehaviorTree.Proofs.Parsing.TermsAgree

/-!
# Runs on statements agree

The parts that statements share with declarations, then statements and blocks.
-/

namespace BehaviorTree

/-- What documentation says, and whether there is any to be reported as dangling. -/
def Docs.shape (docs : Docs) : List String × Bool := (docs.lines, docs.range.isSome)

def VarParts.shape (parts : VarParts) : VarParts :=
  ⟨parts.name.shape, parts.type.map TypeExpr.shape, parts.init.map Expr.shape⟩

def ConstParts.shape (parts : ConstParts) : ConstParts :=
  ⟨parts.name.shape, parts.type.map TypeExpr.shape, parts.value.shape⟩

namespace Parser

open ParserState

variable {α σ : Type}

/-! ### Parts of items -/

theorem Agrees.docTurn {docs docs' : Docs} (hdocs : Alike Docs.shape docs docs') :
    Agrees (docTurn docs) (docTurn docs') (Turn.Agrees (Alike Docs.shape)) := by
  have hlines : docs.lines = docs'.lines := congrArg Prod.fst hdocs
  apply Agrees.peek
  intro kind text range range' line
  dsimp only
  split
  · apply Agrees.advance
    intro _ _ _ _ _
    apply Agrees.pure
    simp [Turn.Agrees, Alike, Docs.shape, Docs.push, hlines]
  · apply Agrees.next (Same.report _ _ (by rfl))
    intro _
    exact Agrees.advance fun _ _ _ _ _ => Agrees.pure hdocs
  · exact Agrees.pure hdocs

theorem Agrees.docComments : Agrees docComments docComments (Alike Docs.shape) :=
  Agrees.loop fun _ _ => Agrees.docTurn

theorem Same.direction : Same direction direction := by
  apply Agrees.peek
  intro kind text range range' line
  dsimp only [Token.keyword?]
  split
  · exact Agrees.advance fun _ _ _ _ _ => Same.pure _
  · exact Same.pure _

theorem Same.listGoesOn (context : String) (inBody : Bool) :
    Same (listGoesOn context inBody) (listGoesOn context inBody) := by
  apply Agrees.next (Same.acceptPunctuation _)
  intro closed
  split
  · exact Same.pure _
  · apply Agrees.next (Same.listBreaksOff _)
    intro breaks
    split
    · exact Agrees.next (Same.unclosedList _) fun _ => Same.pure _
    · exact Same.pure _

theorem Same.listContinues (context what : String) (inBody : Bool) (set : RecoverySet) :
    Same (listContinues context what inBody set) (listContinues context what inBody set) := by
  apply Agrees.next (Same.acceptPunctuation _)
  intro comma
  split
  · exact Same.pure _
  · apply Agrees.next (Same.listGoesOn _ _)
    intro goesOn
    split
    · apply Agrees.next (Same.expected _ _)
      intro _
      apply Agrees.next (Same.synchronize _)
      intro _
      apply Agrees.next (Same.acceptPunctuation _)
      intro comma
      split
      · exact Same.pure _
      · exact Agrees.next (Same.acceptPunctuation _) fun _ => Same.pure _
    · exact Same.pure _

/-- What is found behind a mark agrees if what follows the mark does. -/
theorem Agrees.found {p q : Parser α} {shape : α → σ} (hp : Agrees p q (Alike shape)) :
    Agrees (some <$> p) (some <$> q) (Alike (Option.map shape)) :=
  Agrees.map hp fun _ _ ha => congrArg some ha

theorem Agrees.declaredType :
    Agrees declaredType declaredType (Alike (Option.map TypeExpr.shape)) := by
  apply Agrees.next (Same.acceptPunctuation _)
  intro colon
  split
  · exact Agrees.found Agrees.typeExpr
  · exact Agrees.pure rfl

theorem Agrees.initializer :
    Agrees initializer initializer (Alike (Option.map Expr.shape)) := by
  apply Agrees.next (Same.acceptOperator _)
  intro equals
  split
  · exact Agrees.found Agrees.expression
  · exact Agrees.pure rfl

theorem Agrees.varParts (set : RecoverySet) :
    Agrees (varParts set) (varParts set) (Alike (Option.map VarParts.shape)) := by
  apply Agrees.advance
  intro _ _ _ _ _
  apply Agrees.named
  · exact Agrees.next (Same.acceptPunctuation _) fun _ => Agrees.pure rfl
  · intro name name' hname
    apply Agrees.bind Agrees.declaredType
    intro type type' htype
    apply Agrees.bind Agrees.initializer
    intro init init' hinit
    apply Agrees.next (Same.expectSemi _ _)
    intro _
    apply Agrees.pure
    unfold Alike at htype hinit
    simp [Alike, VarParts.shape, -Name.shape, hname, htype, hinit]

theorem Agrees.constParts (set : RecoverySet) :
    Agrees (constParts set) (constParts set) (Alike (Option.map ConstParts.shape)) := by
  apply Agrees.advance
  intro _ _ _ _ _
  apply Agrees.named
  · exact Agrees.next (Same.acceptPunctuation _) fun _ => Agrees.pure rfl
  · intro name name' hname
    apply Agrees.bind Agrees.declaredType
    intro type type' htype
    apply Agrees.next (Same.expectOperator _ _ _)
    intro equals
    have hfinish : ∀ value value', Alike Expr.shape value value' →
        Agrees (do
          Parser.expectSemi "after constant declaration" set
          Pure.pure (some (ConstParts.mk name type value))) (do
          Parser.expectSemi "after constant declaration" set
          Pure.pure (some (ConstParts.mk name' type' value')))
          (Alike (Option.map ConstParts.shape)) := by
      intro value value' hvalue
      apply Agrees.next (Same.expectSemi _ _)
      intro _
      apply Agrees.pure
      unfold Alike at htype hvalue
      simp [Alike, ConstParts.shape, -Name.shape, hname, htype, hvalue]
    dsimp only
    split
    · exact Agrees.bind Agrees.expression hfinish
    · exact Agrees.bind Agrees.missingExpr hfinish

theorem Agrees.orStepOver {p q : Parser α} {rel : α → α → Prop} {exempt : Token → Bool}
    (hexempt : ∀ token : Token, exempt token.blank = exempt token) (hp : Agrees p q rel) :
    Agrees (orStepOver p exempt) (orStepOver q exempt) rel := by
  intro books s t htwins
  obtain ⟨ha, hafter⟩ := hp books s t htwins
  have hcurrent : (p s).2.current.blank = (q t).2.current.blank := hafter.tokenAt 0
  have hsame : exempt (p s).2.current = exempt (q t).2.current := by
    rw [← hexempt, hcurrent, hexempt]
  have hstep : Agrees Parser.advance Parser.advance fun _ _ => True :=
    Agrees.advance (f := Pure.pure) (g := Pure.pure) fun _ _ _ _ _ => Agrees.pure trivial
  show rel (if (p s).2.position = s.position ∧ !exempt (p s).2.current then
      ((p s).1, (Parser.advance (p s).2).2) else p s).1
    (if (q t).2.position = t.position ∧ !exempt (q t).2.current then
      ((q t).1, (Parser.advance (q t).2).2) else q t).1 ∧
    Twins books (if (p s).2.position = s.position ∧ !exempt (p s).2.current then
      ((p s).1, (Parser.advance (p s).2).2) else p s).2
    (if (q t).2.position = t.position ∧ !exempt (q t).2.current then
      ((q t).1, (Parser.advance (q t).2).2) else q t).2
  have hbefore := books.position htwins.related
  have hbehind := books.position hafter.related
  rw [hsame]
  by_cases hmoved : (q t).2.position = t.position ∧ !exempt (q t).2.current
  · rw [if_pos hmoved, if_pos ⟨by omega, hmoved.2⟩]
    exact ⟨ha, (hstep _ _ _ hafter).2⟩
  · rw [if_neg hmoved, if_neg fun hfirst => hmoved ⟨by omega, hfirst.2⟩]
    exact ⟨ha, hafter⟩

/-! ### Parts of statements -/

theorem Agrees.preconditionBehind {found found' : List Precondition}
    (hfound : Alike (List.map Precondition.shape) found found') (start start' : SourceRange)
    (kind : Option PreconditionKind) :
    Agrees (preconditionBehind found start kind) (preconditionBehind found' start' kind)
      (Turn.Agrees (Alike (List.map Precondition.shape))) := by
  have hkeep : Agrees (Pure.pure (Turn.again found)) (Pure.pure (Turn.again found'))
      (Turn.Agrees (Alike (List.map Precondition.shape))) := Agrees.pure hfound
  unfold Parser.preconditionBehind Parser.preconditionClosed
  apply Agrees.next (Same.expectPunctuation _ _ _)
  intro opened
  split
  · apply Agrees.bind Agrees.expression
    intro condition condition' hcondition
    apply Agrees.next (Same.expectPunctuation _ _ _)
    intro _
    apply Agrees.rangeSince
    intro _ _
    split
    · apply Agrees.pure
      unfold Alike at hfound hcondition
      simp [Turn.Agrees, Alike, Precondition.shape, hfound, hcondition]
    · exact hkeep
  · exact hkeep

theorem Agrees.preconditionTurn {found found' : List Precondition}
    (hfound : Alike (List.map Precondition.shape) found found') :
    Agrees (preconditionTurn found) (preconditionTurn found')
      (Turn.Agrees (Alike (List.map Precondition.shape))) := by
  apply Agrees.peek
  intro kind text range range' line
  apply Agrees.next (Same.acceptPunctuation _)
  intro atSign
  split
  · apply Agrees.named
    · exact Agrees.next (Same.acceptPunctuation _) fun _ => Agrees.pure hfound
    · intro name name' hname
      have htext : name.text = name'.text := by simpa using hname
      dsimp only
      rw [htext]
      split
      · exact Agrees.next (Same.report _ _ rfl) fun _ => Agrees.preconditionBehind hfound _ _ _
      · exact Agrees.preconditionBehind hfound _ _ _
  · exact Agrees.pure hfound

theorem Agrees.preconditions :
    Agrees preconditions preconditions (Alike (List.map Precondition.shape)) := by
  apply Agrees.loop
  intro found found' hfound
  exact Agrees.preconditionTurn hfound

theorem Agrees.argumentName :
    Agrees argumentName argumentName (Alike (Option.map Name.shape)) := by
  apply Agrees.peek
  intro kind text range range' line
  apply Agrees.peekSecond
  intro _ _ _ _ _
  apply Agrees.ite Iff.rfl
  · intro _
    apply Agrees.advance
    intro _ _ _ _ _
    apply Agrees.advance
    intro _ _ _ _ _
    exact Agrees.found Agrees.name
  · exact fun _ => Agrees.pure rfl

theorem Agrees.argument : Agrees argument argument (Alike Argument.shape) := by
  apply Agrees.peek
  intro kind text range range' line
  apply Agrees.bind Agrees.argumentName
  intro name name' hname
  apply Agrees.next Same.direction
  intro direction
  apply Agrees.bind Agrees.expression
  intro value value' hvalue
  apply Agrees.rangeSince
  intro _ _
  apply Agrees.pure
  unfold Alike at hname hvalue
  simp only [Alike, Argument.shape, hname, hvalue]

theorem Agrees.argumentTurn {arguments arguments' : List Argument}
    (harguments : Alike (List.map Argument.shape) arguments arguments') :
    Agrees (argumentTurn arguments) (argumentTurn arguments')
      (Turn.Agrees (Alike (List.map Argument.shape))) := by
  apply Agrees.next (Same.listGoesOn _ _)
  intro goesOn
  split
  · apply Agrees.bind Agrees.argument
    intro argument argument' hargument
    have hlonger : Alike (List.map Argument.shape) (arguments ++ [argument])
        (arguments' ++ [argument']) := by
      unfold Alike at harguments hargument ⊢
      rw [List.map_append, List.map_append, harguments, List.map_singleton, hargument,
        List.map_singleton]
    apply Agrees.next (Same.listContinues _ _ _ _)
    intro continues
    split
    · exact Agrees.pure hlonger
    · exact Agrees.pure hlonger
  · exact Agrees.pure harguments

theorem Agrees.arguments :
    Agrees arguments arguments (Alike (Option.map (List.map Argument.shape))) := by
  apply Agrees.next (Same.acceptPunctuation _)
  intro opened
  split
  · apply Agrees.found
    apply Agrees.loop
    intro arguments arguments' harguments
    exact Agrees.argumentTurn harguments
  · exact Agrees.pure rfl

theorem Agrees.indexTurn {indices indices' : List Expr}
    (hindices : Alike (List.map Expr.shape) indices indices') :
    Agrees (indexTurn indices) (indexTurn indices')
      (Turn.Agrees (Alike (List.map Expr.shape))) := by
  apply Agrees.next (Same.acceptPunctuation _)
  intro opened
  split
  · apply Agrees.bind Agrees.expression
    intro index index' hindex
    have hlonger : Alike (List.map Expr.shape) (indices ++ [index]) (indices' ++ [index']) := by
      unfold Alike at hindices hindex ⊢
      rw [List.map_append, List.map_append, hindices, List.map_singleton, hindex,
        List.map_singleton]
    apply Agrees.next (Same.acceptPunctuation _)
    intro closed
    split
    · exact Agrees.pure hlonger
    · apply Agrees.peek
      intro kind text range range' line
      apply Agrees.ite Iff.rfl
      · exact fun _ => Agrees.next (Same.expected _ _) fun _ => Agrees.pure hlonger
      · exact fun _ => Agrees.next (Same.expectPunctuation _ _ _) fun _ => Agrees.pure hlonger
  · exact Agrees.pure hindices

/-! ### Statements -/

theorem Same.abandonStatement : Same abandonStatement abandonStatement := by
  apply Agrees.next (Same.synchronize _)
  intro _
  exact Agrees.next (Same.acceptPunctuation _) fun _ => Same.pure _

theorem Same.semicolonAfterBlock : Same semicolonAfterBlock semicolonAfterBlock := by
  apply Agrees.peek
  intro kind text range range' line
  apply Agrees.next (Same.acceptPunctuation _)
  intro semi
  split
  · exact Same.report _ _ rfl
  · exact Same.pure _

/-- Both are there or neither, and make things of one shape from heads of one shape. -/
def MayBuildWith {η τ : Type} (head : η → η) (shape : τ → τ) :
    Option (η → τ) → Option (η → τ) → Prop
  | some build, some build' => ∀ h h', head h = head h' → shape (build h) = shape (build' h')
  | none, none => True
  | _, _ => False

/-- Two ways to make a statement. -/
abbrev MayBuildAlike := MayBuildWith StmtHead.shape Stmt.shape

theorem Agrees.assignment : Agrees assignment assignment MayBuildAlike := by
  apply Agrees.advance
  intro _ _ _ _ _
  apply Agrees.nameOf
  intro target target' htarget
  have hloop : Agrees (Parser.iterate Parser.indexTurn []) (Parser.iterate Parser.indexTurn [])
      (Alike (List.map Expr.shape)) := by
    apply Agrees.loop
    intro indices indices' hindices
    exact Agrees.indexTurn hindices
  apply Agrees.bind hloop
  intro indices indices' hindices
  apply Agrees.peek
  intro kind text range range' line
  dsimp only [Token.operator?]
  split
  · apply Agrees.advance
    intro _ _ _ _ _
    apply Agrees.bind Agrees.expression
    intro value value' hvalue
    apply Agrees.next (Same.expectSemi _ _)
    intro _
    apply Agrees.pure
    intro head head' hhead
    unfold Alike at hindices hvalue
    simp only [Stmt.shape, hhead, htarget, hindices, hvalue]
  · apply Agrees.next (Same.expected _ _)
    intro _
    exact Agrees.next Same.abandonStatement fun _ => Agrees.pure trivial

theorem Agrees.finishNode {callee callee' : Name} {arguments arguments' : Option (List Argument)}
    {children children' : List Stmt} (hcallee : callee.shape = callee'.shape)
    (harguments : Alike (Option.map (List.map Argument.shape)) arguments arguments')
    (hchildren : Alike Stmt.shapes children children') :
    Agrees (finishNode callee arguments children) (finishNode callee' arguments' children')
      MayBuildAlike := by
  apply Agrees.next Same.semicolonAfterBlock
  intro _
  apply Agrees.pure
  intro head head' hhead
  unfold Alike at harguments hchildren
  simp only [Stmt.shape, hhead, hcallee, harguments, hchildren]

theorem Agrees.node {block : Parser (List Stmt)} (hblock : Agrees block block (Alike Stmt.shapes)) :
    Agrees (node block) (node block) MayBuildAlike := by
  apply Agrees.advance
  intro _ _ _ _ _
  apply Agrees.nameOf
  intro callee callee' hcallee
  apply Agrees.bind Agrees.arguments
  intro arguments arguments' harguments
  apply Agrees.next (Same.atPunctuation _)
  intro brace
  split
  · apply Agrees.bind hblock
    intro children children' hchildren
    exact Agrees.finishNode hcallee harguments hchildren
  · cases arguments with
    | some arguments =>
        cases arguments' with
        | none => cases harguments
        | some arguments' =>
            apply Agrees.next (Same.expectSemi _ _)
            intro _
            apply Agrees.pure
            intro head head' hhead
            have hlist := Option.some.inj harguments
            simp only [Stmt.shape, hhead, hcallee, hlist]
    | none =>
        cases arguments' with
        | some _ => cases harguments
        | none =>
            apply Agrees.next (Same.expectedWithHelp _ _ _ _)
            intro _
            exact Agrees.next Same.abandonStatement fun _ => Agrees.pure trivial

theorem Same.unattached {preconditions preconditions' : List Precondition} {docs docs' : Docs}
    (hpreconditions : Alike (List.map Precondition.shape) preconditions preconditions')
    (hdocs : Alike Docs.shape docs docs') :
    Same (unattached preconditions docs) (unattached preconditions' docs') := by
  cases preconditions with
  | nil =>
      cases preconditions' with
      | nil => exact Same.danglingDocs (congrArg Prod.snd hdocs)
      | cons _ _ => cases hpreconditions
  | cons first rest =>
      cases preconditions' with
      | nil => cases hpreconditions
      | cons first' rest' => exact Same.report _ _ rfl

theorem Agrees.bareStatement {block : Parser (List Stmt)}
    (hblock : Agrees block block (Alike Stmt.shapes))
    {preconditions preconditions' : List Precondition} {docs docs' : Docs}
    (hpreconditions : Alike (List.map Precondition.shape) preconditions preconditions')
    (hdocs : Alike Docs.shape docs docs') :
    Agrees (bareStatement block preconditions docs) (bareStatement block preconditions' docs')
      MayBuildAlike := by
  have hunattached : Agrees (do
        Parser.unattached preconditions docs
        Pure.pure (none : Option (StmtHead → Stmt))) (do
        Parser.unattached preconditions' docs'
        Pure.pure (none : Option (StmtHead → Stmt))) MayBuildAlike :=
    Agrees.next (Same.unattached hpreconditions hdocs) fun _ => Agrees.pure trivial
  apply Agrees.peek
  intro kind text range range' line
  dsimp only
  split
  case h_1 =>
    apply Agrees.build (Agrees.varParts _) trivial
    intro parts parts' hparts head head' hhead
    simp only [VarParts.shape, VarParts.mk.injEq] at hparts
    simp only [Stmt.shape, hhead, hparts]
  case h_2 =>
    apply Agrees.build (Agrees.constParts _) trivial
    intro parts parts' hparts head head' hhead
    simp only [ConstParts.shape, ConstParts.mk.injEq] at hparts
    simp only [Stmt.shape, hhead, hparts]
  case h_3 =>
    split
    · exact Agrees.next (Same.skipForeign _) fun _ => Agrees.pure trivial
    · intro books s t htwins
      have hagrees : ∀ isAssignment : Bool,
          Agrees (if isAssignment then Parser.assignment else Parser.node block)
            (if isAssignment then Parser.assignment else Parser.node block) MayBuildAlike := by
        intro isAssignment
        split
        · exact Agrees.assignment
        · exact Agrees.node hblock
      have hrun := hagrees (Skip.assignmentFollows 0 (s.rest.drop 1)) books s t htwins
      rw [htwins.assignmentFollows] at hrun
      show MayBuildAlike ((if Skip.assignmentFollows 0 (s.rest.drop 1) then Parser.assignment
          else Parser.node block) s).1 _ ∧ Twins books ((if Skip.assignmentFollows 0 (s.rest.drop 1) then
          Parser.assignment else Parser.node block) s).2 _
      rw [htwins.assignmentFollows]
      exact hrun
  case h_4 => exact hunattached
  case h_5 => exact hunattached
  case h_6 =>
    apply Agrees.ite Iff.rfl
    · exact fun _ => hunattached
    · intro _
      apply Agrees.next (Same.expectedWithHelp _ _ _ _)
      intro _
      exact Agrees.next Same.abandonStatement fun _ => Agrees.pure trivial

theorem Agrees.finishStmt {docs docs' : Docs} {preconditions preconditions' : List Precondition}
    (start start' : SourceRange) {build build' : Option (StmtHead → Stmt)}
    (hdocs : Alike Docs.shape docs docs')
    (hpreconditions : Alike (List.map Precondition.shape) preconditions preconditions')
    (hbuild : MayBuildAlike build build') :
    Agrees (finishStmt docs preconditions start build) (finishStmt docs' preconditions' start' build')
      (Alike (Option.map Stmt.shape)) := by
  rcases build with _ | build <;> rcases build' with _ | build'
  · exact Agrees.pure rfl
  · cases hbuild
  · cases hbuild
  · apply Agrees.rangeSince
    intro _ _
    apply Agrees.found
    apply Agrees.newStmt
    intro o o'
    apply hbuild
    have hlines : docs.lines = docs'.lines := congrArg Prod.fst hdocs
    unfold Alike at hpreconditions
    simp only [StmtHead.shape, hlines, hpreconditions]

theorem Agrees.statement {block : Parser (List Stmt)}
    (hblock : Agrees block block (Alike Stmt.shapes)) :
    Agrees (statement block) (statement block) (Alike (Option.map Stmt.shape)) := by
  apply Agrees.bind Agrees.docComments
  intro docs docs' hdocs
  apply Agrees.bind Agrees.preconditions
  intro preconditions preconditions' hpreconditions
  apply Agrees.peek
  intro kind text range range' line
  apply Agrees.bind (Agrees.bareStatement hblock hpreconditions hdocs)
  intro build build' hbuild
  exact Agrees.finishStmt _ _ hdocs hpreconditions hbuild

/-! ### Blocks -/

/-- A turn keeps any relation that holds on behind statements of the same shape. -/
theorem Agrees.blockTurnKeeping {statement : Parser (Option Stmt)} {rel : List Stmt → List Stmt → Prop}
    (hstatement : Agrees statement statement (Alike (Option.map Stmt.shape)))
    {opening opening' : SourceRange} {stmts stmts' : List Stmt}
    (hkeeps : ∀ stmt stmt', Alike (Option.map Stmt.shape) stmt stmt' →
      rel (stmts ++ stmt.toList) (stmts' ++ stmt'.toList)) (hstmts : rel stmts stmts') :
    Agrees (blockTurn statement opening stmts) (blockTurn statement opening' stmts')
      (Turn.Agrees rel) := by
  apply Agrees.next (Same.acceptPunctuation _)
  intro closed
  split
  · exact Agrees.pure hstmts
  · apply Agrees.peek
    intro kind text range range' line
    apply Agrees.ite Iff.rfl
    · intro _
      apply Agrees.next (Same.reportOnce _ _ (by simp only [SyntaxReport.severity_unclosedBlock]))
      exact fun _ => Agrees.pure hstmts
    · intro _
      apply Agrees.bind (Agrees.orStepOver (fun _ => rfl) hstatement)
      exact fun stmt stmt' hstmt => Agrees.pure (hkeeps stmt stmt' hstmt)

theorem Agrees.blockTurn {statement : Parser (Option Stmt)}
    (hstatement : Agrees statement statement (Alike (Option.map Stmt.shape)))
    {opening opening' : SourceRange} {stmts stmts' : List Stmt}
    (hstmts : Alike Stmt.shapes stmts stmts') :
    Agrees (blockTurn statement opening stmts) (blockTurn statement opening' stmts')
      (Turn.Agrees (Alike Stmt.shapes)) := by
  refine .blockTurnKeeping hstatement (fun stmt stmt' hstmt => ?_) hstmts
  unfold Alike at hstmts hstmt
  rw [Stmt.shapes_eq_map, Stmt.shapes_eq_map] at hstmts
  simp only [Alike, Stmt.shapes_eq_map, List.map_append, hstmts, ← Option.toList_map, hstmt]

theorem Agrees.blockOf {statement : Parser (Option Stmt)}
    (hstatement : Agrees statement statement (Alike (Option.map Stmt.shape))) :
    Agrees (blockOf statement) (blockOf statement) (Alike Stmt.shapes) := by
  apply Agrees.advance
  intro _ _ _ _ _
  apply Agrees.loop
  intro stmts stmts' hstmts
  exact Agrees.blockTurn hstatement hstmts

theorem Agrees.blockAlong (levels : List Token) :
    Agrees (blockAlong levels) (blockAlong levels) (Alike Stmt.shapes) := by
  induction levels with
  | nil => exact Agrees.blockOf (Agrees.statement (Agrees.pure rfl))
  | cons token levels ih => exact Agrees.blockOf (Agrees.statement ih)

theorem Agrees.block : Agrees block block (Alike Stmt.shapes) := by
  intro books s t htwins
  have hagrees := Agrees.blockAlong s.rest books s t htwins
  show Alike Stmt.shapes (Parser.blockAlong s.rest s).1 (Parser.blockAlong t.rest t).1 ∧
    Twins books (Parser.blockAlong s.rest s).2 (Parser.blockAlong t.rest t).2
  rw [← blockAlong_congr htwins.length_eq]
  exact hagrees

end Parser

end BehaviorTree
