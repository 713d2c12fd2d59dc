import BehaviorTree.Parsing.Expression
import BehaviorTree.Proofs.Parsing.Ledger

/-!
# Terms are accounted for

What recovery does is clean, apart from a name that it takes. Types and expressions are accounted
for if what is nested in them is.
-/

namespace BehaviorTree

/-! ### Codes -/

theorem Diagnostic.HasCodeIn.withHelp {codes : List String} {diagnostic : Diagnostic}
    (hcode : diagnostic.HasCodeIn codes) (help : String) :
    (diagnostic.withHelp help).HasCodeIn codes := hcode

namespace SyntaxReport

theorem hasCode_expected (what : String) (found : Token) :
    (expected what found).HasCodeIn codes :=
  ⟨Code.expectedToken, by simp [codes], rfl⟩

theorem hasCode_missing (what context : String) (found : Token) :
    (missing what context found).HasCodeIn codes :=
  ⟨Code.expectedToken, by simp [codes], rfl⟩

theorem hasCode_missingAtLineEnd (what context insertion : String) (place : SourceRange) :
    (missingAtLineEnd what context insertion place).HasCodeIn codes :=
  ⟨Code.expectedToken, by simp [codes], rfl⟩

theorem hasCode_foreignWord (word : ForeignWord) (range : SourceRange) :
    (foreignWord word range).HasCodeIn codes :=
  ⟨Code.unsupportedWord, by simp [codes], rfl⟩

theorem hasCode_danglingDocs (range : SourceRange) : (danglingDocs range).HasCodeIn codes :=
  ⟨Code.danglingDocComment, by simp [codes], rfl⟩

theorem hasCode_chainedComparison (second first : SourceRange) :
    (chainedComparison second first).HasCodeIn codes :=
  ⟨Code.nonAssociativeChain, by simp [codes],
    Diagnostic.code_withSecondary _ first "first operator"⟩

end SyntaxReport

namespace Ledger

variable {α : Type} {ledger : Ledger}

/-- The stamps in something that was returned are paid for. -/
def Covers (ledger : Ledger) (stamps : α → List Stamp) (a : α) (n : Nat) : Prop :=
  ledger.count (stamps a) ≤ n

/-- Whatever number a node gets, the stamps in it are paid for apart from that number. -/
def CoversBuilt (ledger : Ledger) (kind : NodeKind) (stamps : α → List Stamp)
    (build : Origin → α) (n : Nat) : Prop :=
  ∀ origin, ledger.count (stamps (build origin)) ≤ n + ledger.one (.node kind origin.id)

end Ledger

namespace Parser

open Ledger

variable {α β : Type} {ledger : Ledger} {gained : Nat} {s : ParserState}
  {goal : β → Nat → Prop}

theorem Accounts.makeExpr {range : SourceRange} {build : Origin → Expr} {f : Expr → Parser β}
    (hbuild : ledger.CoversBuilt .expr Expr.stamps build gained)
    (hf : ∀ expr n s', ledger.Covers Expr.stamps expr n → Accounts ledger n (f expr) s' goal) :
    Accounts ledger gained (Parser.newExpr range build >>= f) s goal := by
  have hnew : Accounts ledger gained (Parser.newExpr range build) s (ledger.Covers Expr.stamps) :=
    Accounts.newExpr hbuild
  exact Accounts.thread hnew hf

theorem Accounts.makeType {range : SourceRange} {build : Origin → TypeExpr}
    {f : TypeExpr → Parser β} (hbuild : ledger.CoversBuilt .type TypeExpr.stamps build gained)
    (hf : ∀ type n s', ledger.Covers TypeExpr.stamps type n → Accounts ledger n (f type) s' goal) :
    Accounts ledger gained (Parser.newType range build >>= f) s goal := by
  have hnew : Accounts ledger gained (Parser.newType range build) s
      (ledger.Covers TypeExpr.stamps) := Accounts.newType hbuild
  exact Accounts.thread hnew hf

/-! ### Recovery -/

theorem Clean.expected (what : String) : Clean ledger (expected what) :=
  Clean.bind Clean.peek fun _ => Clean.reportOnce (SyntaxReport.hasCode_expected _ _)

theorem Clean.expectedWithHelp (what help : String) : Clean ledger (expectedWithHelp what help) :=
  Clean.bind Clean.peek fun _ =>
    Clean.reportOnce ((SyntaxReport.hasCode_expected _ _).withHelp help)

theorem Clean.synchronize (set : RecoverySet) : Clean ledger (synchronize set) := Clean.skip _

theorem Clean.missing (what context : String) (insertion : Option String) :
    Clean ledger (missing what context insertion) := by
  intro s
  have hrun : ∃ recovery diagnostic, Parser.missing what context insertion s =
      (recovery, s.reportOnce diagnostic) ∧ diagnostic.HasCodeIn SyntaxReport.codes := by
    unfold Parser.missing
    dsimp only
    split
    · exact ⟨_, _, rfl, SyntaxReport.hasCode_missingAtLineEnd _ _ _ _⟩
    · exact ⟨_, _, rfl, SyntaxReport.hasCode_missing _ _ _⟩
  obtain ⟨recovery, diagnostic, hrun, hcode⟩ := hrun
  apply Accounts.still
  · intro hholds
    rw [hrun]
    exact hholds.reportOnce hcode
  · rw [hrun]
    exact issued_reportOnce diagnostic
  · trivial

theorem Clean.expectPunctuation (mark : Punctuation) (context : String) (set : RecoverySet) :
    Clean ledger (expectPunctuation mark context set) := by
  apply Clean.bind (Clean.acceptPunctuation mark)
  intro accepted
  split
  · exact Clean.pure _
  · apply Clean.bind (Clean.missing _ _ _)
    intro recovery
    cases recovery with
    | insert => exact Clean.pure _
    | skip => exact Clean.bind (Clean.synchronize set) fun _ => Clean.acceptPunctuation mark

theorem Clean.expectSemi (context : String) (set : RecoverySet) :
    Clean ledger (expectSemi context set) := by
  apply Clean.bind (Clean.acceptPunctuation .semi)
  intro accepted
  split
  · exact Clean.pure _
  · apply Clean.bind (Clean.missing _ _ _)
    intro recovery
    cases recovery with
    | insert => exact Clean.pure _
    | skip =>
        apply Clean.bind (Clean.synchronize set)
        intro _
        exact Clean.bind (Clean.acceptPunctuation .semi) fun _ => Clean.pure _

theorem Clean.expectOperator (op : Operator) (context : String) (set : RecoverySet) :
    Clean ledger (expectOperator op context set) := by
  apply Clean.bind (Clean.acceptOperator op)
  intro accepted
  split
  · exact Clean.pure _
  · apply Clean.bind (Clean.missing _ _ _)
    intro _
    exact Clean.bind (Clean.synchronize set) fun _ => Clean.acceptOperator op

theorem Clean.unclosedList (context : String) : Clean ledger (unclosedList context) :=
  Clean.bind (Clean.missing _ _ _) fun _ => Clean.pure _

theorem Clean.danglingDocs (range : Option SourceRange) : Clean ledger (danglingDocs range) := by
  cases range with
  | none => exact Clean.pure _
  | some range => exact Clean.report (SyntaxReport.hasCode_danglingDocs range)

theorem Clean.skipForeign (word : ForeignWord) : Clean ledger (skipForeign word) := by
  apply Clean.bind Clean.peek
  intro token
  apply Clean.bind (Clean.reportOnce (SyntaxReport.hasCode_foreignWord _ _))
  intro _
  apply Clean.bind Clean.advance
  intro _
  apply Clean.iterate
  intro _
  apply Clean.bind (Clean.skip _)
  intro _
  apply Clean.bind (Clean.atPunctuation _)
  intro block
  split
  · apply Clean.bind (Clean.skip _)
    intro _
    apply Clean.bind Clean.peek
    intro next
    split
    · exact Clean.bind Clean.advance fun _ => Clean.pure _
    · exact Clean.pure _
  · exact Clean.bind (Clean.acceptPunctuation _) fun _ => Clean.pure _

/-- The current token stays at hand behind a report. -/
theorem Accounts.expectedWithHelp {what help : String} {f : Unit → Parser β}
    (hf : ∀ s', s'.current = s.current → Accounts ledger gained (f ()) s' goal) :
    Accounts ledger gained (expectedWithHelp what help >>= f) s goal := by
  intro hholds
  have hcode := (SyntaxReport.hasCode_expected what s.current).withHelp help
  have hcurrent : ∀ diagnostic, (s.reportOnce diagnostic).current = s.current := by
    intro diagnostic
    unfold ParserState.reportOnce
    split <;> rfl
  have hgoal := hf _ (hcurrent _) (hholds.reportOnce hcode)
  rw [issued_reportOnce] at hgoal
  exact hgoal

def nameStamps (name : Option Name) : List Stamp := name.toList.map .name

/-- A name that is taken has been consumed. -/
theorem Accounts.expectName (what : String) (set : RecoverySet) :
    Accounts ledger 0 (expectName what set) s (ledger.Covers nameStamps) := by
  apply Accounts.peek
  split
  case isTrue hidentifier =>
    have hcurrent : s.current.isEndOfFile = false := by
      simp only [Token.isIdentifier, beq_iff_eq] at hidentifier
      simp [Token.isEndOfFile, hidentifier]
    apply Accounts.advance hcurrent
    intro s'
    apply Accounts.nameOf
    intro s'' _
    apply Accounts.pure
    simp [Covers, nameStamps]
  case isFalse =>
    split
    case h_1 word hword =>
      have hcurrent : s.current.isEndOfFile = false := by
        cases hkind : s.current.kind <;>
          simp_all [Token.isEndOfFile, Token.keyword?, TokenKind.keyword?]
      apply Accounts.expectedWithHelp
      intro s' hsame
      split
      · apply Accounts.after (Clean.synchronize set)
        intro _ s''
        exact Accounts.pure (Nat.zero_le _)
      · rw [← hsame] at hcurrent
        apply Accounts.advance hcurrent
        intro s''
        apply Accounts.nameOf
        intro s₃ _
        apply Accounts.pure
        simp [Covers, nameStamps, hsame]
    case h_2 =>
      apply Accounts.after (Clean.expected what)
      intro _ s'
      apply Accounts.after (Clean.synchronize set)
      intro _ s''
      exact Accounts.pure (Nat.zero_le _)

/-! ### Types -/

/-- What is nested in terms is accounted for. -/
structure NestedAccounts (ledger : Ledger) (nested : Nested) : Prop where
  expression : ∀ s, Accounts ledger 0 nested.expression s (ledger.Covers Expr.stamps)
  operand : ∀ s, Accounts ledger 0 nested.operand s (ledger.Covers Expr.stamps)
  type : ∀ s, Accounts ledger 0 nested.type s (ledger.Covers TypeExpr.stamps)

theorem Accounts.missingExpr : Accounts ledger 0 missingExpr s (ledger.Covers Expr.stamps) := by
  apply Accounts.after Clean.emptyHere
  intro range s'
  apply Accounts.newExpr
  intro origin
  simp [Covers]

theorem Accounts.missingType : Accounts ledger 0 missingType s (ledger.Covers TypeExpr.stamps) := by
  apply Accounts.after Clean.emptyHere
  intro range s'
  apply Accounts.newType
  intro origin
  simp [Covers]

theorem Clean.stringBound : Clean ledger stringBound := by
  apply Clean.bind Clean.peek
  intro token
  dsimp only
  split
  · apply Clean.bind Clean.advance
    intro _
    apply Clean.bind (Clean.pure _)
    intro bound
    exact Clean.bind (Clean.expectOperator _ _ _) fun _ => Clean.pure _
  · apply Clean.bind (Clean.expected _)
    intro _
    apply Clean.bind (Clean.pure _)
    intro bound
    exact Clean.bind (Clean.expectOperator _ _ _) fun _ => Clean.pure _

theorem Accounts.stringType :
    Accounts ledger 0 stringType s (ledger.CoversBuilt .type TypeExpr.stamps) := by
  apply Accounts.after (Clean.acceptOperator _)
  intro bounded s'
  split
  · apply Accounts.after Clean.stringBound
    intro bound s''
    apply Accounts.pure
    intro origin
    simp
  · apply Accounts.pure
    intro origin
    simp

section Nested

variable {nested : Nested}

theorem Accounts.vecType (hnested : NestedAccounts ledger nested) :
    Accounts ledger 0 (vecType nested) s (ledger.CoversBuilt .type TypeExpr.stamps) := by
  apply Accounts.after (Clean.expectOperator _ _ _)
  intro opened s'
  split
  · apply Accounts.bind (hnested.type s')
    intro element n s'' helement
    apply Accounts.after (Clean.expectOperator _ _ _)
    intro _ s₃
    apply Accounts.pure
    intro origin
    unfold Covers at helement
    simp
    omega
  · apply Accounts.pure
    intro origin
    simp

theorem Accounts.arrayType (hnested : NestedAccounts ledger nested) :
    Accounts ledger 0 (arrayType nested) s (ledger.CoversBuilt .type TypeExpr.stamps) := by
  apply Accounts.bind (hnested.type s)
  intro element n s' helement
  unfold Covers at helement
  apply Accounts.after (Clean.expectPunctuation _ _ _)
  intro semi s''
  split
  · apply Accounts.after (Clean.acceptOperator _)
    intro bounded s₃
    apply Accounts.bind (hnested.expression s₃)
    intro length m s₄ hlength
    unfold Covers at hlength
    apply Accounts.after (Clean.expectPunctuation _ _ _)
    intro _ s₅
    split
    · apply Accounts.pure
      intro origin
      simp
      omega
    · apply Accounts.pure
      intro origin
      simp
      omega
  · apply Accounts.after (Clean.acceptPunctuation _)
    intro _ s₃
    apply Accounts.pure
    intro origin
    simp

/-- A way to make a type, if there is one. -/
def MayBuildType (ledger : Ledger) (build : Option (Origin → TypeExpr)) (n : Nat) : Prop :=
  ∀ make ∈ build, ledger.CoversBuilt .type TypeExpr.stamps make n

theorem Accounts.plainType (hnested : NestedAccounts ledger nested) :
    Accounts ledger 0 (plainType nested) s (MayBuildType ledger) := by
  have hsome : ∀ {p : Parser (Origin → TypeExpr)} (s : ParserState),
      Accounts ledger 0 p s (ledger.CoversBuilt .type TypeExpr.stamps) →
        Accounts ledger 0 (some <$> p) s (MayBuildType ledger) := by
    intro p s hp
    apply Accounts.map hp
    intro build n hbuild make hmake
    cases hmake
    exact hbuild
  apply Accounts.peek
  split
  case h_1 =>
    apply Accounts.after Clean.advance
    intro _ s'
    apply Accounts.pure
    intro make hmake origin
    cases hmake
    simp
  case h_2 hkind =>
    have hcurrent : s.current.isEndOfFile = false := by simp [Token.isEndOfFile, hkind]
    apply Accounts.advance hcurrent
    intro s'
    apply Accounts.nameOf
    intro s'' _
    apply Accounts.pure
    intro make hmake origin
    cases hmake
    simp
    omega
  case h_3 => exact Accounts.after Clean.advance fun _ s' => hsome s' Accounts.stringType
  case h_4 => exact Accounts.after Clean.advance fun _ s' => hsome s' (Accounts.vecType hnested)
  case h_5 => exact Accounts.after Clean.advance fun _ s' => hsome s' (Accounts.arrayType hnested)
  case h_6 =>
    apply Accounts.after (Clean.expected _)
    intro _ s'
    apply Accounts.pure
    intro make hmake
    cases hmake

theorem Accounts.typeIn (hnested : NestedAccounts ledger nested) :
    Accounts ledger 0 (typeIn nested) s (ledger.Covers TypeExpr.stamps) := by
  apply Accounts.peek
  apply Accounts.bind (Accounts.plainType hnested)
  intro build n s' hbuild
  cases build with
  | none => exact Accounts.missingType.weaken (Nat.zero_le _)
  | some make =>
      apply Accounts.after (Clean.rangeSince _)
      intro range s''
      apply Accounts.makeType
      · intro origin
        rw [Nat.zero_add]
        exact hbuild make rfl origin
      intro type m s₃ htype
      unfold Covers at htype
      apply Accounts.after (Clean.acceptPunctuation _)
      intro question s₄
      split
      · apply Accounts.after (Clean.rangeSince _)
        intro range s₅
        apply Accounts.newType
        intro origin
        unfold Covers
        simp
        omega
      · exact Accounts.pure htype

/-! ### Expressions -/

/-- An expression that is one token and contains no name. -/
theorem Accounts.literal {build : Origin → Expr}
    (hbuild : ∀ origin, (build origin).stamps = [.node .expr origin.id]) :
    Accounts ledger 0 (literal build) s (ledger.Covers Expr.stamps) := by
  apply Accounts.after Clean.advance
  intro token s'
  apply Accounts.newExpr
  intro origin
  simp [Covers, hbuild]

theorem Accounts.parenthesized (hnested : NestedAccounts ledger nested) :
    Accounts ledger 0 (parenthesized nested) s (ledger.Covers Expr.stamps) := by
  apply Accounts.after Clean.advance
  intro token s'
  apply Accounts.bind (hnested.expression s')
  intro inner n s'' hinner
  apply Accounts.after (Clean.expectPunctuation _ _ _)
  intro _ s₃
  apply Accounts.after (Clean.rangeSince _)
  intro range s₄
  apply Accounts.widenExpr
  unfold Covers at hinner ⊢
  rw [Expr.stamps_withRange]
  omega

theorem Accounts.nextElement (hnested : NestedAccounts ledger nested) {elements : List Expr}
    (helements : ledger.Covers Expr.stampsAll elements gained) :
    Accounts ledger gained (nextElement nested elements) s
      (Turn.Accounted (ledger.Covers Expr.stampsAll)) := by
  apply Accounts.after (Clean.acceptPunctuation _)
  intro comma s'
  split
  · apply Accounts.after (Clean.atPunctuation _)
    intro close s''
    split
    · exact Accounts.pure helements
    · apply Accounts.bind (hnested.expression s'')
      intro element n s₃ helement
      apply Accounts.pure
      unfold Covers at helements helement
      simp [Turn.Accounted, Covers, Expr.stampsAll_eq_flatMap] at helements ⊢
      omega
  · exact Accounts.pure helements

theorem Accounts.arrayExpr (hnested : NestedAccounts ledger nested) :
    Accounts ledger 0 (arrayExpr nested) s (ledger.Covers Expr.stamps) := by
  apply Accounts.after Clean.advance
  intro token s'
  dsimp only
  apply Accounts.after (Clean.acceptPunctuation _)
  intro closed s''
  split
  · apply Accounts.after (Clean.rangeSince _)
    intro range s₃
    apply Accounts.newExpr
    intro origin
    simp [Covers]
  · apply Accounts.bind (hnested.expression s'')
    intro first n s₃ hfirst
    unfold Covers at hfirst
    apply Accounts.after (Clean.acceptPunctuation _)
    intro semi s₄
    split
    · apply Accounts.bind (hnested.expression s₄)
      intro count m s₅ hcount
      unfold Covers at hcount
      apply Accounts.after (Clean.expectPunctuation _ _ _)
      intro _ s₆
      apply Accounts.after (Clean.rangeSince _)
      intro range s₇
      apply Accounts.newExpr
      intro origin
      simp [Covers]
      omega
    · have hloop : Accounts ledger (0 + n) (Parser.iterate (Parser.nextElement nested) [first]) s₄
          (ledger.Covers Expr.stampsAll) := by
        apply Accounts.iterate
        · simp [Covers]
          omega
        · intro elements m s₅ helements
          exact Accounts.nextElement hnested helements
      apply Accounts.thread hloop
      intro elements m s₅ helements
      unfold Covers at helements
      apply Accounts.after (Clean.expectPunctuation _ _ _)
      intro _ s₆
      apply Accounts.after (Clean.rangeSince _)
      intro range s₇
      apply Accounts.newExpr
      intro origin
      simp [Covers]
      omega

theorem Accounts.vecExpr (hnested : NestedAccounts ledger nested) :
    Accounts ledger 0 (vecExpr nested) s (ledger.Covers Expr.stamps) := by
  apply Accounts.after Clean.advance
  intro token s'
  dsimp only
  apply Accounts.after (Clean.acceptOperator _)
  intro bang s''
  split
  · apply Accounts.after (Clean.atPunctuation _)
    intro bracket s₃
    split
    · apply Accounts.bind (Accounts.arrayExpr hnested)
      intro inner n s₄ hinner
      unfold Covers at hinner
      apply Accounts.after (Clean.rangeSince _)
      intro range s₅
      apply Accounts.newExpr
      intro origin
      simp [Covers]
      omega
    · exact Accounts.after (Clean.expected _) fun _ _ => Accounts.missingExpr
  · exact Accounts.after (Clean.expectedWithHelp _ _) fun _ _ => Accounts.missingExpr

theorem Accounts.primary (hnested : NestedAccounts ledger nested) :
    Accounts ledger 0 (primary nested) s (ledger.Covers Expr.stamps) := by
  apply Accounts.peek
  split
  case h_7 hkind =>
    have hcurrent : s.current.isEndOfFile = false := by simp [Token.isEndOfFile, hkind]
    apply Accounts.nameOf
    intro s' hsame
    rw [← hsame] at hcurrent
    apply Accounts.advance hcurrent
    intro s''
    apply Accounts.newExpr
    intro origin
    simp [Covers, hsame]
    omega
  case h_8 => exact Accounts.parenthesized hnested
  case h_9 => exact Accounts.arrayExpr hnested
  case h_10 => exact Accounts.vecExpr hnested
  case h_11 =>
    apply Accounts.bind Accounts.missingExpr
    intro missing n s' hmissing
    apply Accounts.after Clean.advance
    intro _ s''
    apply Accounts.pure
    rw [Nat.zero_add]
    exact hmissing
  case h_12 => exact Accounts.after (Clean.expected _) fun _ _ => Accounts.missingExpr
  case h_3 => exact Accounts.after (Clean.intern _) fun _ _ => Accounts.literal fun _ => rfl
  all_goals exact Accounts.literal fun _ => rfl

theorem Accounts.suffix (hnested : NestedAccounts ledger nested) {base : Expr}
    (hbase : ledger.Covers Expr.stamps base gained) :
    Accounts ledger gained (suffix nested base) s (Turn.Accounted (ledger.Covers Expr.stamps)) := by
  unfold Covers at hbase
  apply Accounts.after (Clean.acceptPunctuation _)
  intro bracket s'
  split
  · apply Accounts.bind (hnested.expression s')
    intro position n s'' hposition
    unfold Covers at hposition
    apply Accounts.after (Clean.expectPunctuation _ _ _)
    intro _ s₃
    apply Accounts.after (Clean.rangeSince _)
    intro range s₄
    apply Accounts.makeExpr
    · intro origin
      simp
      omega
    · intro whole m s₅ hwhole
      exact Accounts.pure hwhole
  · apply Accounts.after Clean.peek
    intro next s''
    split
    · apply Accounts.after Clean.advance
      intro _ s₃
      apply Accounts.bind (hnested.type s₃)
      intro type n s₄ htype
      unfold Covers at htype
      apply Accounts.after (Clean.rangeSince _)
      intro range s₅
      apply Accounts.makeExpr
      · intro origin
        simp
        omega
      · intro whole m s₆ hwhole
        exact Accounts.pure hwhole
    · exact Accounts.pure hbase

theorem Accounts.suffixed (hnested : NestedAccounts ledger nested) :
    Accounts ledger 0 (suffixed nested) s (ledger.Covers Expr.stamps) := by
  apply Accounts.thread (Accounts.primary hnested)
  intro base n s' hbase
  apply Accounts.iterate hbase
  intro base n s'' hbase
  exact Accounts.suffix hnested hbase

theorem Accounts.unary (hnested : NestedAccounts ledger nested) :
    Accounts ledger 0 (unary nested) s (ledger.Covers Expr.stamps) := by
  apply Accounts.peek
  split
  · apply Accounts.after Clean.advance
    intro token s'
    apply Accounts.bind (hnested.operand s')
    intro operand n s'' hoperand
    unfold Covers at hoperand
    apply Accounts.newExpr
    intro origin
    simp [Covers]
    omega
  · exact Accounts.suffixed hnested

/-- The left side of a chain is paid for. -/
def chainStamps (chain : Chain) : List Stamp := chain.left.stamps

theorem Accounts.extendChain {layer : Nat} {tighter : Parser Chain} {chain : Chain}
    (htighter : ∀ s, Accounts ledger 0 tighter s (ledger.Covers chainStamps))
    (hchain : ledger.Covers chainStamps chain gained) :
    Accounts ledger gained (extendChain layer tighter chain) s
      (Turn.Accounted (ledger.Covers chainStamps)) := by
  unfold Covers chainStamps at hchain
  apply Accounts.peek
  split
  · apply Accounts.after Clean.advance
    intro first s'
    apply Accounts.bind (htighter s')
    intro right n s'' hright
    unfold Covers chainStamps at hright
    apply Accounts.makeExpr
    · intro origin
      simp
      omega
    · intro whole m s₃ hwhole
      apply Accounts.after Clean.peek
      intro next s₄
      split
      · apply Accounts.after (Clean.report (SyntaxReport.hasCode_chainedComparison _ _))
        intro _ s₅
        exact Accounts.pure hwhole
      · exact Accounts.pure hwhole
  · exact Accounts.pure hchain

theorem Accounts.layered (hnested : NestedAccounts ledger nested) (layers : List Nat) :
    ∀ s, Accounts ledger 0 (layered nested layers) s (ledger.Covers chainStamps) := by
  induction layers with
  | nil =>
      intro s
      apply Accounts.thread (Accounts.unary hnested)
      intro operand n s' hoperand
      exact Accounts.pure hoperand
  | cons layer tighter ih =>
      intro s
      apply Accounts.thread (ih s)
      intro start n s' hstart
      apply Accounts.iterate hstart
      intro chain n s'' hchain
      exact Accounts.extendChain ih hchain

theorem Accounts.expressionIn (hnested : NestedAccounts ledger nested) :
    Accounts ledger 0 (expressionIn nested) s (ledger.Covers Expr.stamps) := by
  apply Accounts.thread (Accounts.layered hnested _ s)
  intro chain n s' hchain
  exact Accounts.pure hchain

end Nested

theorem NestedAccounts.around {inner : Unit → Nested} (hinner : NestedAccounts ledger (inner ())) :
    NestedAccounts ledger (around inner) where
  expression _ := Accounts.expressionIn hinner
  operand _ := Accounts.unary hinner
  type _ := Accounts.typeIn hinner

theorem NestedAccounts.along (levels : List Token) :
    NestedAccounts ledger (nestedAlong levels) := by
  induction levels with
  | nil =>
      have hnothing : NestedAccounts ledger Nested.nothing :=
        ⟨fun _ => Accounts.missingExpr, fun _ => Accounts.missingExpr, fun _ => Accounts.missingType⟩
      exact NestedAccounts.around hnothing
  | cons token levels ih => exact NestedAccounts.around ih

theorem Accounts.expression : Accounts ledger 0 expression s (ledger.Covers Expr.stamps) :=
  (NestedAccounts.along s.rest).expression s

theorem Accounts.typeExpr : Accounts ledger 0 typeExpr s (ledger.Covers TypeExpr.stamps) :=
  (NestedAccounts.along s.rest).type s

end Parser

end BehaviorTree
