import BehaviorTree.Parsing.Expression
import BehaviorTree.Proofs.Parsing.Invariants

/-!
# Terms respect every invariant

The parsers of types and expressions respect an invariant if the parsers of what is nested in them
do, and so they do at any depth of nesting.
-/

namespace BehaviorTree.Parser

/-- What is nested in a term respects the invariant. -/
structure NestedRespects (inv : Invariant) (nested : Nested) : Prop where
  expression : Respects inv nested.expression
  operand : Respects inv nested.operand
  type : Respects inv nested.type

variable {inv : Invariant} {nested : Nested}

/-! ### Types -/

theorem Respects.stringBound : Respects inv stringBound := by
  have hclose : ∀ bound : Option Nat, Meets inv.good bound → Respects inv (do
      let _ ← Parser.expectOperator .gt "to close `string<N>`" .type
      Pure.pure bound) :=
    fun _ hbound => .bind (.expectOperator _ _ _) fun _ _ => .pure hbound
  refine .bind .peek fun token _ => ?_
  dsimp only
  split
  · exact .bind .advance fun _ _ => .bind (.pure (.some trivial)) hclose
  · exact .bind (.expected _) fun _ _ => .bind (.pure .none) hclose

theorem Respects.stringType : Respects inv stringType := by
  refine .bind (.acceptOperator _) fun bounded _ => ?_
  split
  · exact .bind .stringBound fun bound _ => .pure fun _ horigin => horigin
  · exact .pure fun _ horigin => horigin

theorem Respects.vecType (hnested : NestedRespects inv nested) : Respects inv (vecType nested) := by
  refine .bind (.expectOperator _ _ _) fun opened _ => ?_
  split
  · refine .bind hnested.type fun element helement => .bind (.expectOperator _ _ _) fun _ _ => ?_
    exact .pure fun _ horigin => ⟨horigin, helement⟩
  · exact .pure fun _ horigin => horigin

theorem Respects.arrayType (hnested : NestedRespects inv nested) :
    Respects inv (arrayType nested) := by
  unfold Parser.arrayType
  refine .bind hnested.type fun element helement => .bind (.expectPunctuation _ _ _) fun separated _ => ?_
  split
  · refine .bind (.acceptOperator _) fun bounded _ => .bind hnested.expression fun length hlength => ?_
    refine .bind (.expectPunctuation _ _ _) fun _ _ => ?_
    split
    · exact .pure fun _ horigin => ⟨horigin, helement, hlength⟩
    · exact .pure fun _ horigin => ⟨horigin, helement, hlength⟩
  · exact .bind (.acceptPunctuation _) fun _ _ => .pure fun _ horigin => horigin

theorem Respects.plainType (hnested : NestedRespects inv nested) :
    Respects inv (plainType nested) := by
  unfold Parser.plainType
  refine .bind .peek fun token htoken => ?_
  split
  · exact .bind .advance fun _ _ => .pure (.some fun _ horigin => horigin)
  · refine .bind .advance fun _ _ => .bind (.nameOf htoken) fun name hname => ?_
    exact .pure (.some fun _ horigin => ⟨horigin, hname⟩)
  · exact .bind .advance fun _ _ => Respects.stringType.mapSome
  · exact .bind .advance fun _ _ => (Respects.vecType hnested).mapSome
  · exact .bind .advance fun _ _ => (Respects.arrayType hnested).mapSome
  · exact .bind (.expected _) fun _ _ => .pure .none

theorem Respects.typeIn (hnested : NestedRespects inv nested) : Respects inv (typeIn nested) := by
  unfold Parser.typeIn
  refine .bind .peek fun token htoken => .bind (.plainType hnested) fun result hresult => ?_
  cases result with
  | none => exact .missingType
  | some build =>
      refine .bind (.rangeSince htoken.1) fun range hrange => ?_
      refine .bind (.newType hrange hresult.of_some) fun type htype => ?_
      refine .bind (.acceptPunctuation _) fun nullable _ => ?_
      split
      · refine .bind (.rangeSince htoken.1) fun wider hwider => ?_
        exact .newType hwider fun _ horigin => ⟨horigin, htype⟩
      · exact .pure htype

/-! ### Expressions -/

theorem Respects.literal {build : Origin → Expr} (hbuild : Meets inv.good build) :
    Respects inv (literal build) :=
  .bind .advance fun _ htoken => .newExpr htoken.1 hbuild

theorem Respects.parenthesized (hnested : NestedRespects inv nested) :
    Respects inv (parenthesized nested) := by
  unfold Parser.parenthesized
  refine .bind .advance fun token htoken => .bind hnested.expression fun inner hinner => ?_
  refine .bind (.expectPunctuation _ _ _) fun _ _ => ?_
  exact .bind (.rangeSince htoken.1) fun range hrange => .widenExpr hrange hinner

theorem Respects.nextElement (hnested : NestedRespects inv nested) {elements : List Expr}
    (helements : Meets inv.good elements) : Respects inv (nextElement nested elements) := by
  unfold Parser.nextElement
  refine .bind (.acceptPunctuation _) fun more _ => ?_
  split
  · refine .bind (.atPunctuation _) fun closes _ => ?_
    split
    · exact .pure helements
    · refine .bind hnested.expression fun element helement => ?_
      exact .pure (Meets.append helements (.singleton helement))
  · exact .pure helements

theorem Respects.arrayExpr (hnested : NestedRespects inv nested) :
    Respects inv (arrayExpr nested) := by
  have hclose : Respects inv (Parser.expectPunctuation .rBracket "to close the array"
      (Stop.rBracket :: RecoverySet.statement)) := .expectPunctuation _ _ _
  unfold Parser.arrayExpr
  refine .bind .advance fun token htoken => .bind (.acceptPunctuation _) fun empty _ => ?_
  split
  · refine .bind (.rangeSince htoken.1) fun range hrange => ?_
    exact .newExpr hrange fun _ horigin => ⟨horigin, trivial⟩
  · refine .bind hnested.expression fun first hfirst => .bind (.acceptPunctuation _) fun counted _ => ?_
    split
    · refine .bind hnested.expression fun count hcount => .bind hclose fun _ _ => ?_
      refine .bind (.rangeSince htoken.1) fun range hrange => ?_
      exact .newExpr hrange fun _ horigin => ⟨horigin, hfirst, hcount⟩
    · refine .bind (.iterate (fun elements helements => .nextElement hnested helements)
        (.singleton hfirst)) fun elements helements => .bind hclose fun _ _ => ?_
      refine .bind (.rangeSince htoken.1) fun range hrange => ?_
      exact .newExpr hrange fun _ horigin => ⟨horigin, Expr.allMeet_iff.mpr helements⟩

theorem Respects.vecExpr (hnested : NestedRespects inv nested) : Respects inv (vecExpr nested) := by
  unfold Parser.vecExpr
  refine .bind .advance fun token htoken => .bind (.acceptOperator _) fun marked _ => ?_
  split
  · refine .bind (.atPunctuation _) fun opens _ => ?_
    split
    · refine .bind (.arrayExpr hnested) fun inner hinner => ?_
      refine .bind (.rangeSince htoken.1) fun range hrange => ?_
      exact .newExpr hrange fun _ horigin => ⟨horigin, hinner⟩
    · exact .bind (.expected _) fun _ _ => .missingExpr
  · exact .bind (.expectedWithHelp _ _) fun _ _ => .missingExpr

theorem Respects.primary (hnested : NestedRespects inv nested) : Respects inv (primary nested) := by
  unfold Parser.primary
  refine .bind .peek fun token htoken => ?_
  split
  · exact .literal fun _ horigin => horigin
  · exact .literal fun _ horigin => horigin
  · exact .bind (.intern _) fun _ _ => .literal fun _ horigin => horigin
  · exact .literal fun _ horigin => horigin
  · exact .literal fun _ horigin => horigin
  · exact .literal fun _ horigin => horigin
  · exact .bind (.nameOf htoken) fun _ hname => .literal fun _ horigin => ⟨horigin, hname⟩
  · exact .parenthesized hnested
  · exact .arrayExpr hnested
  · exact .vecExpr hnested
  · exact .bind .missingExpr fun _ hmissing => .bind .advance fun _ _ => .pure hmissing
  · exact .bind (.expected _) fun _ _ => .missingExpr

theorem Respects.suffix (hnested : NestedRespects inv nested) {base : Expr}
    (hbase : Meets inv.good base) : Respects inv (suffix nested base) := by
  have hstart : Meets inv.good base.range := Expr.meets_range hbase
  unfold Parser.suffix
  refine .bind (.acceptPunctuation _) fun indexed _ => ?_
  split
  · refine .bind hnested.expression fun position hposition => ?_
    refine .bind (.expectPunctuation _ _ _) fun _ _ => .bind (.rangeSince hstart) fun range hrange => ?_
    refine .bind (.newExpr hrange fun _ horigin => ⟨horigin, hbase, hposition⟩) fun expr hexpr => ?_
    exact .pure hexpr
  · refine .bind .peek fun next _ => ?_
    split
    · refine .bind .advance fun _ _ => .bind hnested.type fun type htype => ?_
      refine .bind (.rangeSince hstart) fun range hrange => ?_
      refine .bind (.newExpr hrange fun _ horigin => ⟨horigin, hbase, htype⟩) fun expr hexpr => ?_
      exact .pure hexpr
    · exact .pure hbase

theorem Respects.suffixed (hnested : NestedRespects inv nested) : Respects inv (suffixed nested) :=
  .bind (.primary hnested) fun _ hbase => .iterate (fun _ hbase => .suffix hnested hbase) hbase

theorem Respects.unary (hnested : NestedRespects inv nested) : Respects inv (unary nested) := by
  unfold Parser.unary
  refine .bind .peek fun token _ => ?_
  split
  · refine .bind .advance fun sign hsign => .bind hnested.operand fun operand hoperand => ?_
    exact .newExpr (inv.merge hsign.1 (Expr.meets_range hoperand))
      fun _ horigin => ⟨horigin, hoperand⟩
  · exact .suffixed hnested

theorem Respects.extendChain {layer : Nat} {tighter : Parser Chain}
    (htighter : Respects inv tighter) {chain : Chain} (hchain : Meets inv.good chain) :
    Respects inv (extendChain layer tighter chain) := by
  unfold Parser.extendChain
  refine .bind .peek fun token _ => ?_
  split
  · refine .bind .advance fun first hfirst => .bind htighter fun right hright => ?_
    have hrange := inv.merge (Expr.meets_range hchain) (Expr.meets_range hright)
    refine .bind (.newExpr hrange fun _ horigin => ⟨horigin, hchain, hright⟩) fun whole hwhole => ?_
    refine .bind .peek fun next hnext => ?_
    split
    · exact .bind (.report (.chainedComparison _ _)
        (SyntaxReport.meets_chainedComparison hnext.1 hfirst.1)) fun _ _ => .pure hwhole
    · exact .pure hwhole
  · exact .pure hchain

theorem Respects.layered (hnested : NestedRespects inv nested) (layers : List Nat) :
    Respects inv (layered nested layers) := by
  induction layers with
  | nil => exact .bind (.unary hnested) fun _ hoperand => .pure hoperand
  | cons layer tighter ih =>
      exact .bind ih fun _ hstart => .iterate (fun _ hchain => .extendChain ih hchain) hstart

theorem Respects.expressionIn (hnested : NestedRespects inv nested) :
    Respects inv (expressionIn nested) :=
  .bind (.layered hnested _) fun _ hchain => .pure hchain

/-! ### Nesting -/

theorem NestedRespects.around {inner : Unit → Nested} (hinner : NestedRespects inv (inner ())) :
    NestedRespects inv (around inner) where
  expression := .expressionIn hinner
  operand := .unary hinner
  type := .typeIn hinner

theorem NestedRespects.along (levels : List Token) : NestedRespects inv (nestedAlong levels) := by
  induction levels with
  | nil => exact .around ⟨.missingExpr, .missingExpr, .missingType⟩
  | cons token levels ih => exact .around ih

theorem Respects.expression : Respects inv expression :=
  fun s hs => (NestedRespects.along s.rest).expression s hs

theorem Respects.typeExpr : Respects inv typeExpr :=
  fun s hs => (NestedRespects.along s.rest).type s hs

end BehaviorTree.Parser
