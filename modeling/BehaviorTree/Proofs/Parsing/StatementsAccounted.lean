import BehaviorTree.Parsing.Statement
import BehaviorTree.Proofs.Parsing.TermsAccounted

/-!
# Statements are accounted for

The parts that statements share with declarations, then statements and blocks. A node and an
assignment take their first name from the token at hand, which is known to be one.
-/

namespace BehaviorTree

namespace SyntaxReport

theorem hasCode_misplacedModuleDoc (range : SourceRange) :
    (misplacedModuleDoc range).HasCodeIn codes :=
  ⟨Code.danglingDocComment, by simp [codes], rfl⟩

theorem hasCode_unclosedBlock (found : Token) (opening : SourceRange) :
    (unclosedBlock found opening).HasCodeIn codes :=
  ⟨Code.expectedToken, by simp [codes],
    Diagnostic.code_withSecondary _ opening "block opened here"⟩

theorem hasCode_unattachedPrecondition (range : SourceRange) :
    (unattachedPrecondition range).HasCodeIn codes :=
  ⟨Code.expectedToken, by simp [codes], rfl⟩

theorem hasCode_unknownPrecondition (name : String) (range : SourceRange) :
    (unknownPrecondition name range).HasCodeIn codes :=
  ⟨Code.unknownPrecondition, by simp [codes], rfl⟩

theorem hasCode_semicolonAfterBlock (range : SourceRange) :
    (semicolonAfterBlock range).HasCodeIn codes :=
  ⟨Code.invalidNodeShape, by simp [codes], rfl⟩

end SyntaxReport

namespace Parser

open Ledger

variable {α β : Type} {ledger : Ledger} {gained : Nat} {s : ParserState}
  {post : α → Nat → Prop} {goal : β → Nat → Prop}

/-! ### Parts of items -/

theorem Clean.docComments : Clean ledger docComments := by
  apply Clean.iterate
  intro docs
  apply Clean.bind Clean.peek
  intro token
  split
  · exact Clean.bind Clean.advance fun _ => Clean.pure _
  · apply Clean.bind (Clean.report (SyntaxReport.hasCode_misplacedModuleDoc _))
    intro _
    exact Clean.bind Clean.advance fun _ => Clean.pure _
  · exact Clean.pure _

theorem Clean.direction : Clean ledger direction := by
  apply Clean.bind Clean.peek
  intro token
  split
  · exact Clean.bind Clean.advance fun _ => Clean.pure _
  · exact Clean.pure _

theorem Clean.listGoesOn (context : String) (inBody : Bool) :
    Clean ledger (listGoesOn context inBody) := by
  apply Clean.bind (Clean.acceptPunctuation _)
  intro closed
  split
  · exact Clean.pure _
  · apply Clean.bind (Clean.listBreaksOff _)
    intro breaks
    split
    · exact Clean.bind (Clean.unclosedList _) fun _ => Clean.pure _
    · exact Clean.pure _

theorem Clean.listContinues (context what : String) (inBody : Bool) (set : RecoverySet) :
    Clean ledger (listContinues context what inBody set) := by
  apply Clean.bind (Clean.acceptPunctuation _)
  intro comma
  split
  · exact Clean.pure _
  · apply Clean.bind (Clean.listGoesOn _ _)
    intro goesOn
    split
    · apply Clean.bind (Clean.expected _)
      intro _
      apply Clean.bind (Clean.synchronize _)
      intro _
      apply Clean.bind (Clean.acceptPunctuation _)
      intro comma
      split
      · exact Clean.pure _
      · exact Clean.bind (Clean.acceptPunctuation _) fun _ => Clean.pure _
    · exact Clean.pure _

theorem Accounts.declaredType :
    Accounts ledger 0 declaredType s (ledger.Covers stampsOfType) := by
  apply Accounts.after (Clean.acceptPunctuation _)
  intro colon s'
  split
  · apply Accounts.map Accounts.typeExpr
    intro type n htype
    simpa [Covers] using htype
  · exact Accounts.pure (Nat.zero_le _)

theorem Accounts.initializer :
    Accounts ledger 0 initializer s (ledger.Covers stampsOfExpr) := by
  apply Accounts.after (Clean.acceptOperator _)
  intro equals s'
  split
  · apply Accounts.map Accounts.expression
    intro expr n hexpr
    simpa [Covers] using hexpr
  · exact Accounts.pure (Nat.zero_le _)

def varStamps (parts : Option VarParts) : List Stamp :=
  parts.toList.flatMap fun parts =>
    .name parts.name :: (stampsOfType parts.type ++ stampsOfExpr parts.init)

def constStamps (parts : Option ConstParts) : List Stamp :=
  parts.toList.flatMap fun parts =>
    .name parts.name :: (stampsOfType parts.type ++ parts.value.stamps)

theorem Accounts.varParts (set : RecoverySet) :
    Accounts ledger 0 (varParts set) s (ledger.Covers varStamps) := by
  apply Accounts.after Clean.advance
  intro _ s'
  apply Accounts.bind (Accounts.expectName _ _)
  intro name n s'' hname
  cases name with
  | none =>
      apply Accounts.after (Clean.acceptPunctuation _)
      intro _ s₃
      exact Accounts.pure (Nat.zero_le _)
  | some name =>
      apply Accounts.bind Accounts.declaredType
      intro type m s₃ htype
      apply Accounts.bind Accounts.initializer
      intro init k s₄ hinit
      apply Accounts.after (Clean.expectSemi _ _)
      intro _ s₅
      apply Accounts.pure
      unfold Covers at hname htype hinit ⊢
      simp [nameStamps, varStamps] at hname htype hinit ⊢
      omega

theorem Accounts.constParts (set : RecoverySet) :
    Accounts ledger 0 (constParts set) s (ledger.Covers constStamps) := by
  apply Accounts.after Clean.advance
  intro _ s'
  apply Accounts.bind (Accounts.expectName _ _)
  intro name n s'' hname
  cases name with
  | none =>
      apply Accounts.after (Clean.acceptPunctuation _)
      intro _ s₃
      exact Accounts.pure (Nat.zero_le _)
  | some name =>
      apply Accounts.bind Accounts.declaredType
      intro type m s₃ htype
      apply Accounts.after (Clean.expectOperator _ _ _)
      intro equals s₄
      have hfinish : ∀ value k s₅, ledger.Covers Expr.stamps value k →
          Accounts ledger (0 + n + m + k) (do
            Parser.expectSemi "after constant declaration" set
            Pure.pure (some (ConstParts.mk name type value))) s₅ (ledger.Covers constStamps) := by
        intro value k s₅ hvalue
        apply Accounts.after (Clean.expectSemi _ _)
        intro _ s₆
        apply Accounts.pure
        unfold Covers at hname htype hvalue ⊢
        simp [nameStamps, constStamps] at hname htype hvalue ⊢
        omega
      dsimp only
      split
      · exact Accounts.bind Accounts.expression hfinish
      · exact Accounts.bind Accounts.missingExpr hfinish

theorem Accounts.orStepOver {parser : Parser α} {exempt : Token → Bool}
    (hp : Accounts ledger gained parser s post) :
    Accounts ledger gained (orStepOver parser exempt) s post := by
  intro hholds
  obtain ⟨hholds', n, hn, ha⟩ := hp hholds
  have hrun : Parser.orStepOver parser exempt s =
      if (parser s).2.position = s.position ∧ !exempt (parser s).2.current then
        ((parser s).1, (Parser.advance (parser s).2).2)
      else parser s := rfl
  rw [hrun]
  split
  · obtain ⟨hholds'', m, hm, -⟩ := Clean.advance (parser s).2 hholds'
    refine ⟨hholds'', n, ?_, ha⟩
    dsimp only
    omega
  · exact ⟨hholds', n, hn, ha⟩

/-! ### Parts of statements -/

def preconditionStamps (preconditions : List Precondition) : List Stamp :=
  preconditions.flatMap Precondition.stamps

theorem Accounts.again {found : List Precondition} {n : Nat}
    (hfound : ledger.Covers preconditionStamps found gained) (hn : gained ≤ n) :
    Accounts ledger n (Pure.pure (Turn.again found)) s
      (Turn.Accounted (ledger.Covers preconditionStamps)) :=
  Accounts.pure (Nat.le_trans hfound hn)

theorem Accounts.preconditionBehind {found : List Precondition} (start : SourceRange)
    (kind : Option PreconditionKind) (hfound : ledger.Covers preconditionStamps found gained) :
    Accounts ledger gained (preconditionBehind found start kind) s
      (Turn.Accounted (ledger.Covers preconditionStamps)) := by
  unfold Parser.preconditionBehind Parser.preconditionClosed
  apply Accounts.after (Clean.expectPunctuation _ _ _)
  intro opened s₁
  split
  · apply Accounts.bind Accounts.expression
    intro condition m s₂ hcondition
    apply Accounts.after (Clean.expectPunctuation _ _ _)
    intro _ s₃
    apply Accounts.after (Clean.rangeSince _)
    intro range s₄
    split
    · apply Accounts.pure
      unfold Covers preconditionStamps at hfound
      unfold Covers at hcondition
      simp [Turn.Accounted, Covers, preconditionStamps]
      omega
    · exact Accounts.again hfound (Nat.le_add_right _ _)
  · exact Accounts.again hfound (Nat.le_refl _)

theorem Accounts.preconditionTurn {found : List Precondition}
    (hfound : ledger.Covers preconditionStamps found gained) :
    Accounts ledger gained (preconditionTurn found) s
      (Turn.Accounted (ledger.Covers preconditionStamps)) := by
  apply Accounts.peek
  apply Accounts.after (Clean.acceptPunctuation _)
  intro atSign s'
  split
  · apply Accounts.bind (Accounts.expectName _ _)
    intro name n s'' hname
    cases name with
    | none =>
        apply Accounts.after (Clean.acceptPunctuation _)
        exact fun _ _ => Accounts.again hfound (Nat.le_add_right _ _)
    | some name =>
        have hcovered : ledger.Covers preconditionStamps found (gained + n) :=
          Nat.le_trans hfound (Nat.le_add_right _ _)
        dsimp only
        split
        · apply Accounts.after (Clean.report (SyntaxReport.hasCode_unknownPrecondition _ _))
          exact fun _ _ => Accounts.preconditionBehind _ _ hcovered
        · exact Accounts.preconditionBehind _ _ hcovered
  · exact Accounts.pure hfound

theorem Accounts.preconditions :
    Accounts ledger 0 preconditions s (ledger.Covers preconditionStamps) := by
  apply Accounts.iterate
  · exact Nat.zero_le _
  · intro found n s' hfound
    exact Accounts.preconditionTurn hfound

theorem Accounts.argumentName :
    Accounts ledger 0 argumentName s (ledger.Covers nameStamps) := by
  apply Accounts.peek
  show Accounts ledger 0 (if s.current.isIdentifier && (s.tokenAt 1).isPunctuation .colon then _
    else _) s _
  split
  case isTrue hnamed =>
    have hcurrent : s.current.isEndOfFile = false := by
      simp only [Bool.and_eq_true, Token.isIdentifier, beq_iff_eq] at hnamed
      simp [Token.isEndOfFile, hnamed.1]
    apply Accounts.advance hcurrent
    intro s'
    apply Accounts.after Clean.advance
    intro _ s''
    show Accounts ledger _ (Parser.nameOf s.current >>= fun name => Pure.pure (some name)) s'' _
    apply Accounts.nameOf
    intro s₃ _
    apply Accounts.pure
    simp [Covers, nameStamps]
  case isFalse => exact Accounts.pure (Nat.zero_le _)

theorem Accounts.argument : Accounts ledger 0 argument s (ledger.Covers Argument.stamps) := by
  apply Accounts.peek
  apply Accounts.bind Accounts.argumentName
  intro name n s' hname
  apply Accounts.after Clean.direction
  intro direction s''
  apply Accounts.bind Accounts.expression
  intro value m s₃ hvalue
  apply Accounts.after (Clean.rangeSince _)
  intro range s₄
  apply Accounts.pure
  unfold Covers at hname hvalue ⊢
  simp [nameStamps] at hname ⊢
  omega

def argumentStamps (arguments : List Argument) : List Stamp := arguments.flatMap Argument.stamps

theorem Accounts.argumentTurn {arguments : List Argument}
    (harguments : ledger.Covers argumentStamps arguments gained) :
    Accounts ledger gained (argumentTurn arguments) s
      (Turn.Accounted (ledger.Covers argumentStamps)) := by
  apply Accounts.after (Clean.listGoesOn _ _)
  intro goesOn s'
  split
  · apply Accounts.bind Accounts.argument
    intro argument n s'' hargument
    have hlonger : ledger.Covers argumentStamps (arguments ++ [argument]) (gained + n) := by
      unfold Covers argumentStamps at harguments ⊢
      unfold Covers at hargument
      simp only [List.flatMap_append, List.flatMap_singleton, count_append]
      omega
    apply Accounts.after (Clean.listContinues _ _ _ _)
    intro continues s₃
    split
    · exact Accounts.pure hlonger
    · exact Accounts.pure hlonger
  · exact Accounts.pure harguments

theorem Accounts.arguments :
    Accounts ledger 0 arguments s (ledger.Covers fun list => argumentStamps (list.getD [])) := by
  apply Accounts.after (Clean.acceptPunctuation _)
  intro opened s'
  split
  · have hloop : Accounts ledger 0 (Parser.iterate Parser.argumentTurn []) s'
        (ledger.Covers argumentStamps) := by
      apply Accounts.iterate
      · exact Nat.zero_le _
      · intro arguments n s'' harguments
        exact Accounts.argumentTurn harguments
    exact Accounts.map hloop fun _ _ h => h
  · exact Accounts.pure (Nat.zero_le _)

def indexStamps (indices : List Expr) : List Stamp := indices.flatMap Expr.stamps

theorem Accounts.indexTurn {indices : List Expr}
    (hindices : ledger.Covers indexStamps indices gained) :
    Accounts ledger gained (indexTurn indices) s (Turn.Accounted (ledger.Covers indexStamps)) := by
  apply Accounts.after (Clean.acceptPunctuation _)
  intro opened s'
  split
  · apply Accounts.bind Accounts.expression
    intro index n s'' hindex
    have hlonger : ledger.Covers indexStamps (indices ++ [index]) (gained + n) := by
      unfold Covers indexStamps at hindices ⊢
      unfold Covers at hindex
      simp only [List.flatMap_append, List.flatMap_singleton, count_append]
      omega
    apply Accounts.after (Clean.acceptPunctuation _)
    intro closed s₃
    split
    · exact Accounts.pure hlonger
    · apply Accounts.after Clean.peek
      intro next s₄
      split
      · exact Accounts.after (Clean.expected _) fun _ _ => Accounts.pure hlonger
      · exact Accounts.after (Clean.expectPunctuation _ _ _) fun _ _ => Accounts.pure hlonger
  · exact Accounts.pure hindices

/-! ### Statements -/

theorem Clean.abandonStatement : Clean ledger abandonStatement := by
  apply Clean.bind (Clean.synchronize _)
  intro _
  exact Clean.bind (Clean.acceptPunctuation _) fun _ => Clean.pure _

theorem Clean.semicolonAfterBlock : Clean ledger semicolonAfterBlock := by
  apply Clean.bind Clean.peek
  intro token
  apply Clean.bind (Clean.acceptPunctuation _)
  intro semi
  split
  · exact Clean.report (SyntaxReport.hasCode_semicolonAfterBlock _)
  · exact Clean.pure _

/-- A way to make a statement, if there is one: apart from its head it is paid for. -/
def MayBuildStmt (ledger : Ledger) (build : Option (StmtHead → Stmt)) (n : Nat) : Prop :=
  ∀ make ∈ build, ∀ head : StmtHead,
    ledger.count (make head).stamps ≤ n + ledger.count head.stamps

theorem mayBuildStmt_none {n : Nat} : MayBuildStmt ledger none n := by
  intro make hmake
  cases hmake

theorem mayBuildStmt_some {make : StmtHead → Stmt} {n : Nat}
    (hmake : ∀ head : StmtHead, ledger.count (make head).stamps ≤ n + ledger.count head.stamps) :
    MayBuildStmt ledger (some make) n := by
  rintro other (_ | _)
  exact hmake

theorem Accounts.assignment (hcurrent : s.current.isEndOfFile = false) :
    Accounts ledger 0 assignment s (MayBuildStmt ledger) := by
  apply Accounts.advance hcurrent
  intro s'
  apply Accounts.nameOf
  intro s'' _
  have hloop : Accounts ledger 0 (Parser.iterate Parser.indexTurn []) s''
      (ledger.Covers indexStamps) := by
    apply Accounts.iterate
    · exact Nat.zero_le _
    · intro indices n s₃ hindices
      exact Accounts.indexTurn hindices
  apply Accounts.bind hloop
  intro indices n s₃ hindices
  apply Accounts.after Clean.peek
  intro token s₄
  split
  · apply Accounts.after Clean.advance
    intro _ s₅
    apply Accounts.bind Accounts.expression
    intro value m s₆ hvalue
    apply Accounts.after (Clean.expectSemi _ _)
    intro _ s₇
    apply Accounts.pure
    apply mayBuildStmt_some
    intro head
    unfold Covers indexStamps at hindices
    unfold Covers at hvalue
    simp
    omega
  · apply Accounts.after (Clean.expected _)
    intro _ s₅
    apply Accounts.after Clean.abandonStatement
    intro _ s₆
    exact Accounts.pure mayBuildStmt_none

def stmtsStamps (stmts : List Stmt) : List Stamp := stmts.flatMap Stmt.stamps

theorem Accounts.leafBehind (callee : Name) {arguments : Option (List Argument)}
    (hgained : ledger.Covers (fun list => .name callee :: argumentStamps (list.getD []))
      arguments gained) :
    Accounts ledger gained (leafBehind callee arguments) s (MayBuildStmt ledger) := by
  cases arguments with
  | some arguments =>
      apply Accounts.after (Clean.expectSemi _ _)
      intro _ s₁
      apply Accounts.pure
      apply mayBuildStmt_some
      intro head
      simp [Covers, argumentStamps] at hgained ⊢
      omega
  | none =>
      apply Accounts.after (Clean.expectedWithHelp _ _)
      intro _ s₁
      apply Accounts.after Clean.abandonStatement
      intro _ s₂
      exact Accounts.pure mayBuildStmt_none

theorem Accounts.node {block : Parser (List Stmt)}
    (hblock : ∀ s, Accounts ledger 0 block s (ledger.Covers stmtsStamps))
    (hcurrent : s.current.isEndOfFile = false) :
    Accounts ledger 0 (node block) s (MayBuildStmt ledger) := by
  apply Accounts.advance hcurrent
  intro s'
  apply Accounts.nameOf
  intro s'' _
  apply Accounts.bind Accounts.arguments
  intro arguments n s₃ harguments
  simp only [Covers, argumentStamps] at harguments
  apply Accounts.after (Clean.atPunctuation _)
  intro brace s₄
  split
  · apply Accounts.bind (hblock s₄)
    intro children m s₅ hchildren
    apply Accounts.after Clean.semicolonAfterBlock
    intro _ s₆
    apply Accounts.pure
    apply mayBuildStmt_some
    intro head
    unfold Covers stmtsStamps at hchildren
    simp [Stmt.stampsAll_eq_flatMap]
    omega
  · apply Accounts.leafBehind
    simp [Covers, argumentStamps]
    omega

theorem Clean.unattached (preconditions : List Precondition) (docs : Docs) :
    Clean ledger (unattached preconditions docs) := by
  cases preconditions with
  | nil => exact Clean.danglingDocs _
  | cons first rest => exact Clean.report (SyntaxReport.hasCode_unattachedPrecondition _)

theorem Accounts.bareStatement {block : Parser (List Stmt)}
    (hblock : ∀ s, Accounts ledger 0 block s (ledger.Covers stmtsStamps))
    (preconditions : List Precondition) (docs : Docs) :
    Accounts ledger 0 (bareStatement block preconditions docs) s (MayBuildStmt ledger) := by
  apply Accounts.peek
  split
  case h_1 =>
    apply Accounts.thread (Accounts.varParts _)
    intro parts n s' hparts
    apply Accounts.pure
    cases parts with
    | none => exact mayBuildStmt_none
    | some parts =>
        apply mayBuildStmt_some
        intro head
        unfold Covers at hparts
        simp [varStamps] at hparts ⊢
        omega
  case h_2 =>
    apply Accounts.thread (Accounts.constParts _)
    intro parts n s' hparts
    apply Accounts.pure
    cases parts with
    | none => exact mayBuildStmt_none
    | some parts =>
        apply mayBuildStmt_some
        intro head
        unfold Covers at hparts
        simp [constStamps] at hparts ⊢
        omega
  case h_3 hkind =>
    have hcurrent : s.current.isEndOfFile = false := by simp [Token.isEndOfFile, hkind]
    split
    · exact Accounts.after (Clean.skipForeign _) fun _ _ => Accounts.pure mayBuildStmt_none
    · show Accounts ledger 0
        (if Skip.assignmentFollows 0 (s.rest.drop 1) then Parser.assignment else Parser.node block) s _
      split
      · exact Accounts.assignment hcurrent
      · exact Accounts.node hblock hcurrent
  case h_4 => exact Accounts.after (Clean.unattached _ _) fun _ _ => Accounts.pure mayBuildStmt_none
  case h_5 => exact Accounts.after (Clean.unattached _ _) fun _ _ => Accounts.pure mayBuildStmt_none
  case h_6 =>
    split
    · exact Accounts.after (Clean.unattached _ _) fun _ _ => Accounts.pure mayBuildStmt_none
    · apply Accounts.after (Clean.expectedWithHelp _ _)
      intro _ s'
      apply Accounts.after Clean.abandonStatement
      intro _ s''
      exact Accounts.pure mayBuildStmt_none

theorem Accounts.finishStmt (docs : Docs) {preconditions : List Precondition} (start : SourceRange)
    {build : Option (StmtHead → Stmt)} {n : Nat} (hbuild : MayBuildStmt ledger build n)
    (hgained : n + ledger.count (preconditions.flatMap Precondition.stamps) ≤ gained) :
    Accounts ledger gained (finishStmt docs preconditions start build) s
      (ledger.Covers fun stmt => stmtsStamps stmt.toList) := by
  cases build with
  | none => exact Accounts.pure (Nat.zero_le _)
  | some make =>
      apply Accounts.after (Clean.rangeSince _)
      intro range s₁
      have hnew : Accounts ledger gained
          (Parser.newStmt range fun origin => make ⟨origin, docs.lines, preconditions⟩) s₁
          (ledger.Covers Stmt.stamps) := by
        apply Accounts.newStmt
        intro origin
        have hmake := hbuild make rfl ⟨origin, docs.lines, preconditions⟩
        simp only [StmtHead.stamps, count_cons] at hmake
        unfold Covers
        omega
      apply Accounts.map hnew
      intro stmt k hstmt
      simpa [Covers, stmtsStamps] using hstmt

theorem Accounts.statement {block : Parser (List Stmt)}
    (hblock : ∀ s, Accounts ledger 0 block s (ledger.Covers stmtsStamps)) :
    Accounts ledger 0 (statement block) s (ledger.Covers fun stmt => stmtsStamps stmt.toList) := by
  apply Accounts.after Clean.docComments
  intro docs s'
  apply Accounts.bind Accounts.preconditions
  intro preconditions n s'' hpreconditions
  unfold Covers preconditionStamps at hpreconditions
  apply Accounts.after Clean.peek
  intro token s₃
  apply Accounts.bind (Accounts.bareStatement hblock preconditions docs)
  intro build m s₄ hbuild
  exact Accounts.finishStmt docs _ hbuild (by omega)

/-! ### Blocks -/

theorem Accounts.blockTurn {statement : Parser (Option Stmt)}
    (hstatement : ∀ s, Accounts ledger 0 statement s
      (ledger.Covers fun stmt => stmtsStamps stmt.toList))
    {opening : SourceRange} {stmts : List Stmt} (hstmts : ledger.Covers stmtsStamps stmts gained) :
    Accounts ledger gained (blockTurn statement opening stmts) s
      (Turn.Accounted (ledger.Covers stmtsStamps)) := by
  apply Accounts.after (Clean.acceptPunctuation _)
  intro closed s'
  split
  · exact Accounts.pure hstmts
  · apply Accounts.after Clean.peek
    intro token s''
    split
    · apply Accounts.after (Clean.reportOnce (SyntaxReport.hasCode_unclosedBlock _ _))
      intro _ s₃
      exact Accounts.pure hstmts
    · apply Accounts.bind (Accounts.orStepOver (hstatement s''))
      intro stmt n s₃ hstmt
      apply Accounts.pure
      unfold Covers stmtsStamps at hstmts
      simp only [Covers, stmtsStamps] at hstmt
      simp only [Turn.Accounted, Covers, stmtsStamps, List.flatMap_append, count_append]
      omega

theorem Accounts.blockOf {statement : Parser (Option Stmt)}
    (hstatement : ∀ s, Accounts ledger 0 statement s
      (ledger.Covers fun stmt => stmtsStamps stmt.toList)) :
    Accounts ledger 0 (blockOf statement) s (ledger.Covers stmtsStamps) := by
  apply Accounts.after Clean.advance
  intro opening s'
  apply Accounts.iterate
  · exact Nat.zero_le _
  · intro stmts n s'' hstmts
    exact Accounts.blockTurn hstatement hstmts

theorem Accounts.blockAlong (levels : List Token) :
    ∀ s, Accounts ledger 0 (blockAlong levels) s (ledger.Covers stmtsStamps) := by
  induction levels with
  | nil =>
      intro s
      apply Accounts.blockOf
      intro s'
      exact Accounts.statement fun _ => Accounts.pure (Nat.zero_le _)
  | cons token levels ih =>
      intro s
      apply Accounts.blockOf
      intro s'
      exact Accounts.statement ih

theorem Accounts.block : Accounts ledger 0 block s (ledger.Covers stmtsStamps) :=
  Accounts.blockAlong s.rest s

end Parser

end BehaviorTree
