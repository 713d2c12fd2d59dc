import BehaviorTree.Parsing.Expression
import BehaviorTree.Proofs.Parsing.Planted
import BehaviorTree.Proofs.Syntax.Shape

/-!
# Terms are planted

Types and expressions are whole trees of the arena, whatever tokens they are read from, if what is
nested in them is. The missing node that stands for what is nested too deep is such a tree too.
-/

namespace BehaviorTree

/-- A type that waits for its origin. Its parts are there, and it is not a nullable type. -/
structure TypeExpr.Pending (build : Origin → TypeExpr) : Prop where
  origin : ∀ origin, (build origin).origin = origin
  parts : ∀ origin, (build origin).parts = (build .blank).parts
  plain : ∀ origin, ¬(build origin).IsNullable

namespace Parser

/-- What is nested in a term is planted. -/
structure NestedPlants (nested : Nested) : Prop where
  expression : Plants [] nested.expression (fun _ => True) fun expr => [.expr expr]
  operand : Plants [] nested.operand (fun _ => True) fun expr => [.expr expr]
  type : Plants [] nested.type (fun _ => True) fun type => [.type type]

variable {nested : Nested}

/-! ### Types -/

theorem Barren.stringBound : Barren stringBound := by
  refine Barren.peek.bind fun token => ?_
  dsimp only
  split
  · refine Barren.advance.bind fun _ => ?_
    exact (Barren.expectOperator _ _ _).bind fun _ => .pure _
  · refine (Barren.expected _).bind fun _ => ?_
    exact (Barren.expectOperator _ _ _).bind fun _ => .pure _

theorem Plants.stringType :
    Plants [] stringType TypeExpr.Pending fun build => (build .blank).parts := by
  unfold Parser.stringType
  refine .after (.acceptOperator _) fun bounded => ?_
  split
  · refine .after .stringBound fun bound => ?_
    exact .pure ⟨fun _ => rfl, fun _ => rfl, fun _ => id⟩ (List.nil_sublist _)
  · exact .pure ⟨fun _ => rfl, fun _ => rfl, fun _ => id⟩ (List.nil_sublist _)

theorem Plants.vecType (hnested : NestedPlants nested) :
    Plants [] (vecType nested) TypeExpr.Pending fun build => (build .blank).parts := by
  unfold Parser.vecType
  refine .after (.expectOperator _ _ _) fun opened => ?_
  split
  · refine .bind hnested.type fun element _ => ?_
    refine .after (.expectOperator _ _ _) fun _ => ?_
    exact .pure ⟨fun _ => rfl, fun _ => rfl, fun _ => id⟩ (List.Sublist.refl _)
  · exact .pure ⟨fun _ => rfl, fun _ => rfl, fun _ => id⟩ (List.nil_sublist _)

theorem Plants.arrayType (hnested : NestedPlants nested) :
    Plants [] (arrayType nested) TypeExpr.Pending fun build => (build .blank).parts := by
  unfold Parser.arrayType
  refine .bind hnested.type fun element _ => ?_
  refine .after (.expectPunctuation _ _ _) fun separated => ?_
  split
  · refine .after (.acceptOperator _) fun bounded => ?_
    refine .bind hnested.expression fun length _ => ?_
    refine .after (.expectPunctuation _ _ _) fun _ => ?_
    split
    · exact .pure ⟨fun _ => rfl, fun _ => rfl, fun _ => id⟩ (List.Sublist.refl _)
    · exact .pure ⟨fun _ => rfl, fun _ => rfl, fun _ => id⟩ (List.Sublist.refl _)
  · refine .after (.acceptPunctuation _) fun _ => ?_
    exact .pure ⟨fun _ => rfl, fun _ => rfl, fun _ => id⟩ (List.nil_sublist _)

theorem Plants.plainType (hnested : NestedPlants nested) :
    Plants [] (plainType nested) (fun result => ∀ build ∈ result, TypeExpr.Pending build)
      fun result => result.toList.flatMap fun build => (build .blank).parts := by
  have hsome : ∀ {p : Parser (Origin → TypeExpr)},
      Plants [] p TypeExpr.Pending (fun build => (build .blank).parts) →
        Plants [] (some <$> p) (fun result => ∀ build ∈ result, TypeExpr.Pending build)
          fun result => result.toList.flatMap fun build => (build .blank).parts :=
    fun hp => hp.map (by simp) (by simp)
  unfold Parser.plainType
  refine .after .peek fun token => ?_
  split
  · refine .after .advance fun _ => .pure ?_ (by simp [TypeExpr.parts])
    rintro _ ⟨⟩
    exact ⟨fun _ => rfl, fun _ => rfl, fun _ => id⟩
  · refine .after .advance fun _ => .after (.nameOf token) fun name => .pure ?_ (by simp [TypeExpr.parts])
    rintro _ ⟨⟩
    exact ⟨fun _ => rfl, fun _ => rfl, fun _ => id⟩
  · exact .after .advance fun _ => hsome .stringType
  · exact .after .advance fun _ => hsome (.vecType hnested)
  · exact .after .advance fun _ => hsome (.arrayType hnested)
  · exact .after (.expected _) fun _ => .pure (by simp) (by simp)

/-- A nullable type is made of one that is not. -/
theorem Plants.typeIn (hnested : NestedPlants nested) :
    Plants [] (typeIn nested) (fun _ => True) fun type => [.type type] := by
  unfold Parser.typeIn
  refine .after .peek fun token => ?_
  refine .bind (.plainType hnested) fun result hresult => ?_
  cases result with
  | none => exact .missingType
  | some build =>
      have hbuild : TypeExpr.Pending build := hresult build rfl
      have hnew : ∀ range, Plants (build .blank).parts (Parser.newType range build)
          (fun type => ¬type.IsNullable) fun type => [.type type] := by
        intro range
        exact .newType (fun origin => by rw [hbuild.parts]) hbuild.plain hbuild.origin
          fun origin => SyntaxNode.shaped_of_plain (hbuild.plain origin)
      rw [Option.toList_some, List.flatMap_singleton, List.nil_append]
      refine .after (.rangeSince _) fun range => .thread (hnew range) fun type htype => ?_
      refine .after (.acceptPunctuation _) fun nullable => ?_
      split
      · refine .after (.rangeSince _) fun wider => ?_
        exact .newType (fun _ => List.Sublist.refl _) (fun _ => trivial) (fun _ => rfl) fun _ => htype
      · exact .pure trivial (List.Sublist.refl _)

/-! ### Expressions -/

theorem Plants.literal {build : Origin → Expr} (hparts : ∀ origin, (build origin).parts = [])
    (horigin : ∀ origin, (build origin).origin = origin)
    (hshaped : ∀ origin, (SyntaxNode.expr (build origin)).Shaped) :
    Plants [] (literal build) (fun _ => True) fun expr => [.expr expr] :=
  .after .advance fun _ =>
    .newExpr (fun origin => by simp [hparts origin]) (fun _ => trivial) horigin hshaped

/-- A new expression behind which the parser goes on. -/
theorem Plants.withNew {β : Type} {held : List SyntaxNode} {range : SourceRange}
    {build : Origin → Expr} {f : Expr → Parser β} {good : β → Prop} {roots : β → List SyntaxNode}
    (hparts : ∀ origin, (build origin).parts.Sublist held)
    (horigin : ∀ origin, (build origin).origin = origin)
    (hshaped : ∀ origin, (SyntaxNode.expr (build origin)).Shaped)
    (hf : ∀ expr, Plants [.expr expr] (f expr) good roots) :
    Plants held (Parser.newExpr range build >>= f) good roots := by
  have hnew : Plants held (Parser.newExpr range build) (fun _ => True) fun expr => [.expr expr] :=
    .newExpr hparts (fun _ => trivial) horigin hshaped
  exact hnew.thread fun expr _ => hf expr

theorem Plants.parenthesized (hnested : NestedPlants nested) :
    Plants [] (parenthesized nested) (fun _ => True) fun expr => [.expr expr] := by
  unfold Parser.parenthesized
  refine .after .advance fun token => ?_
  refine .thread hnested.expression fun inner _ => ?_
  refine .after (.expectPunctuation _ _ _) fun _ => ?_
  exact .after (.rangeSince _) fun _ => .widenExpr

theorem Plants.nextElement (hnested : NestedPlants nested) (elements : List Expr) :
    Plants (elements.map .expr) (nextElement nested elements) (fun _ => True)
      fun turn => turn.value.map .expr := by
  unfold Parser.nextElement
  refine .after (.acceptPunctuation _) fun more => ?_
  split
  · refine .after (.atPunctuation _) fun closes => ?_
    split
    · exact .pure trivial (List.Sublist.refl _)
    · refine .bind hnested.expression fun element _ => ?_
      exact .pure trivial (by simp [Turn.value])
  · exact .pure trivial (List.Sublist.refl _)

theorem Plants.arrayExpr (hnested : NestedPlants nested) :
    Plants [] (arrayExpr nested) Expr.IsArray fun expr => [.expr expr] := by
  have hclose : Barren (expectPunctuation .rBracket "to close the array"
      (Stop.rBracket :: RecoverySet.statement)) := .expectPunctuation _ _ _
  unfold Parser.arrayExpr
  refine .after .advance fun token => .after (.acceptPunctuation _) fun empty => ?_
  split
  · exact .after (.rangeSince _) fun _ => .newExpr (by simp [Expr.parts]) (fun _ => trivial) (fun _ => rfl) fun _ => trivial
  · refine .bind hnested.expression fun first _ => .after (.acceptPunctuation _) fun counted => ?_
    split
    · refine .bind hnested.expression fun count _ => .after hclose fun _ => ?_
      exact .after (.rangeSince _) fun _ => .newExpr (by simp [Expr.parts]) (fun _ => trivial) (fun _ => rfl) fun _ => trivial
    · refine .thread (.iterate (fun _ => True) (fun elements => elements.map .expr) [first]
        trivial fun elements _ => .nextElement hnested elements) fun elements _ => ?_
      refine .after hclose fun _ => .after (.rangeSince _) fun _ => ?_
      exact .newExpr (fun _ => List.Sublist.refl _) (fun _ => trivial) (fun _ => rfl) fun _ => trivial

/-- What `vec!` stands in front of is an array. -/
theorem Plants.vecExpr (hnested : NestedPlants nested) :
    Plants [] (vecExpr nested) (fun _ => True) fun expr => [.expr expr] := by
  unfold Parser.vecExpr
  refine .after .advance fun token => .after (.acceptOperator _) fun marked => ?_
  split
  · refine .after (.atPunctuation _) fun opens => ?_
    split
    · refine .bind (.arrayExpr hnested) fun inner hinner => .after (.rangeSince _) fun _ => ?_
      exact .newExpr (fun _ => List.Sublist.refl _) (fun _ => trivial) (fun _ => rfl) fun _ => hinner
    · exact .after (.expected _) fun _ => .missingExpr
  · exact .after (.expectedWithHelp _ _) fun _ => .missingExpr

theorem Plants.primary (hnested : NestedPlants nested) :
    Plants [] (primary nested) (fun _ => True) fun expr => [.expr expr] := by
  unfold Parser.primary
  refine .after .peek fun token => ?_
  split
  · exact .literal (fun _ => rfl) (fun _ => rfl) fun _ => trivial
  · exact .literal (fun _ => rfl) (fun _ => rfl) fun _ => trivial
  · exact .after (.intern _) fun _ => .literal (fun _ => rfl) (fun _ => rfl) fun _ => trivial
  · exact .literal (fun _ => rfl) (fun _ => rfl) fun _ => trivial
  · exact .literal (fun _ => rfl) (fun _ => rfl) fun _ => trivial
  · exact .literal (fun _ => rfl) (fun _ => rfl) fun _ => trivial
  · exact .after (.nameOf token) fun _ => .literal (fun _ => rfl) (fun _ => rfl) fun _ => trivial
  · exact .parenthesized hnested
  · exact (Plants.arrayExpr hnested).mono (fun _ _ => trivial) fun _ _ => List.Sublist.refl _
  · exact .vecExpr hnested
  · refine .bind .missingExpr fun missing _ => .after .advance fun _ => ?_
    exact .pure trivial (List.Sublist.refl _)
  · exact .after (.expected _) fun _ => .missingExpr

theorem Plants.suffix (hnested : NestedPlants nested) (base : Expr) :
    Plants [.expr base] (suffix nested base) (fun _ => True) fun turn => [.expr turn.value] := by
  unfold Parser.suffix
  refine .after (.acceptPunctuation _) fun indexed => ?_
  split
  · refine .bind hnested.expression fun position _ => .after (.expectPunctuation _ _ _) fun _ => ?_
    refine .after (.rangeSince _) fun _ => .withNew (fun _ => List.Sublist.refl _) (fun _ => rfl) (fun _ => trivial)
        fun expr => ?_
    exact .pure trivial (List.Sublist.refl _)
  · refine .after .peek fun next => ?_
    split
    · refine .after .advance fun _ => .bind hnested.type fun type _ => ?_
      refine .after (.rangeSince _) fun _ => .withNew (fun _ => List.Sublist.refl _) (fun _ => rfl) (fun _ => trivial)
        fun expr => ?_
      exact .pure trivial (List.Sublist.refl _)
    · exact .pure trivial (List.Sublist.refl _)

theorem Plants.suffixed (hnested : NestedPlants nested) :
    Plants [] (suffixed nested) (fun _ => True) fun expr => [.expr expr] :=
  .thread (.primary hnested) fun _ _ => 
    .iterate (fun _ => True) (fun base => [.expr base]) _ trivial fun base _ => .suffix hnested base

theorem Plants.unary (hnested : NestedPlants nested) :
    Plants [] (unary nested) (fun _ => True) fun expr => [.expr expr] := by
  unfold Parser.unary
  refine .after .peek fun token => ?_
  split
  · refine .after .advance fun _ => .bind hnested.operand fun operand _ => ?_
    exact .newExpr (fun _ => List.Sublist.refl _) (fun _ => trivial) (fun _ => rfl) fun _ => trivial
  · exact .suffixed hnested

theorem Plants.extendChain {layer : Nat} {tighter : Parser Chain}
    (htighter : Plants [] tighter (fun _ => True) fun chain => [.expr chain.left]) (chain : Chain) :
    Plants [.expr chain.left] (extendChain layer tighter chain) (fun _ => True)
      fun turn => [.expr turn.value.left] := by
  unfold Parser.extendChain
  refine .after .peek fun token => ?_
  split
  · refine .after .advance fun _ => .bind htighter fun right _ => ?_
    refine .withNew (fun _ => List.Sublist.refl _) (fun _ => rfl) (fun _ => trivial)
        fun whole => ?_
    refine .after .peek fun next => ?_
    split
    · exact .after (.report _) fun _ => .pure trivial (List.Sublist.refl _)
    · exact .pure trivial (List.Sublist.refl _)
  · exact .pure trivial (List.Sublist.refl _)

theorem Plants.layered (hnested : NestedPlants nested) (layers : List Nat) :
    Plants [] (layered nested layers) (fun _ => True) fun chain => [.expr chain.left] := by
  induction layers with
  | nil => exact .thread (.unary hnested) fun _ _ => .pure trivial (List.Sublist.refl _)
  | cons layer tighter ih =>
      exact .thread ih fun start _ => .iterate (fun _ => True) (fun chain => [.expr chain.left])
        start trivial fun chain _ => .extendChain ih chain

theorem Plants.expressionIn (hnested : NestedPlants nested) :
    Plants [] (expressionIn nested) (fun _ => True) fun expr => [.expr expr] :=
  .thread (.layered hnested _) fun _ _ => .pure trivial (List.Sublist.refl _)

/-! ### Nesting -/

theorem NestedPlants.around {inner : Unit → Nested} (hinner : NestedPlants (inner ())) :
    NestedPlants (around inner) where
  expression := .expressionIn hinner
  operand := .unary hinner
  type := .typeIn hinner

theorem NestedPlants.along (levels : List Token) : NestedPlants (nestedAlong levels) := by
  induction levels with
  | nil => exact .around ⟨.missingExpr, .missingExpr, .missingType⟩
  | cons token levels ih => exact .around ih

theorem Plants.expression : Plants [] expression (fun _ => True) fun expr => [.expr expr] :=
  fun base s => (NestedPlants.along s.rest).expression base s

theorem Plants.typeExpr : Plants [] typeExpr (fun _ => True) fun type => [.type type] :=
  fun base s => (NestedPlants.along s.rest).type base s

end Parser

end BehaviorTree
