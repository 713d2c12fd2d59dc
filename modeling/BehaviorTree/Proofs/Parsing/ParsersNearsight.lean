import BehaviorTree.Proofs.Parsing.Nearsight

/-!
# Parsers are nearsighted

Types and expressions are parsed without a look behind a `;` or a brace that is not consumed, and so
are the statements, blocks and declarations that are made of them.
-/

namespace BehaviorTree.Parser

open ParserState

variable {nested : Nested}

/-- What can be nested makes runs and is nearsighted. -/
structure NestedNearsighted (nested : Nested) : Prop where
  respects : ∀ inv, NestedRespects inv nested
  expression : Nearsighted nested.expression
  operand : Nearsighted nested.operand
  type : Nearsighted nested.type

section Nested

variable (hnested : NestedNearsighted nested)

/-! ### Types -/

theorem Nearsighted.stringBound : Nearsighted stringBound := by
  refine .peek fun token => Nearsighted.at ?_ token
  split
  · exact .bind .advance fun _ => .bind (.pure _) fun _ =>
      .bind (.expectOperator _ _ _) fun _ => .pure _
  · exact .bind (.expected _) fun _ => .bind (.pure _) fun _ =>
      .bind (.expectOperator _ _ _) fun _ => .pure _

theorem Nearsighted.stringType : Nearsighted stringType := by
  refine .bind (.acceptOperator _) fun bounded => ?_
  split
  · exact .bind .stringBound fun _ => .pure _
  · exact .pure _

include hnested

theorem Nearsighted.vecType : Nearsighted (vecType nested) := by
  refine .bind (.expectOperator _ _ _) fun opened => ?_
  split
  · exact .bind hnested.type fun _ => .bind (.expectOperator _ _ _) fun _ => .pure _
  · exact .pure _

theorem Nearsighted.arrayType : Nearsighted (arrayType nested) := by
  refine .bind hnested.type fun element => .bind (.expectPunctuation _ _ _) fun parted => ?_
  split
  · refine .bind (.acceptOperator _) fun bounded => .bind hnested.expression fun length =>
      .bind (.expectPunctuation _ _ _) fun _ => ?_
    split
    · exact .pure _
    · exact .pure _
  · exact .bind (.acceptPunctuation _) fun _ => .pure _

theorem Nearsighted.plainType : Nearsighted (plainType nested) := by
  refine .peek fun token => Nearsighted.at ?_ token
  split
  · exact .bind .advance fun _ => .pure _
  · exact .bind .advance fun _ => .bind (.nameOf _) fun _ => .pure _
  · exact .bind .advance fun _ => .map .stringType
  · exact .bind .advance fun _ => .map (.vecType hnested)
  · exact .bind .advance fun _ => .map (.arrayType hnested)
  · exact .bind (.expected _) fun _ => .pure _

theorem Nearsighted.typeIn : Nearsighted (typeIn nested) := by
  refine .peek fun token => Nearsighted.at (.bind (.plainType hnested) fun result => ?_) token
  cases result with
  | none => exact .missingType
  | some build =>
      refine .bind (.rangeSince _) fun _ => .bind (.newType _ _) fun type =>
        .bind (.acceptPunctuation _) fun nullable => ?_
      split
      · exact .bind (.rangeSince _) fun _ => .newType _ _
      · exact .pure _

/-! ### Operands -/

omit hnested in
theorem Nearsighted.literal (build : Origin → Expr) : Nearsighted (literal build) :=
  .bind .advance fun _ => .newExpr _ _

theorem Nearsighted.parenthesized : Nearsighted (parenthesized nested) :=
  .bind .advance fun _ => .bind hnested.expression fun _ =>
    .bind (.expectPunctuation _ _ _) fun _ => .bind (.rangeSince _) fun _ => .widenExpr _ _

theorem Nearsighted.nextElement (elements : List Expr) :
    Nearsighted (nextElement nested elements) := by
  refine .bind (.acceptPunctuation _) fun more => ?_
  split
  · refine .bind (.atPunctuation _) fun closes => ?_
    split
    · exact .pure _
    · exact .bind hnested.expression fun _ => .pure _
  · exact .pure _

theorem Nearsighted.arrayExpr : Nearsighted (arrayExpr nested) := by
  have hclose : Nearsighted (Parser.expectPunctuation .rBracket "to close the array"
      (Stop.rBracket :: RecoverySet.statement)) := .expectPunctuation _ _ _
  have hruns : Runs nested.expression := .ofRespects fun inv => (hnested.respects inv).expression
  refine .bind .advance fun start => .bind (.acceptPunctuation _) fun closed => ?_
  split
  · exact .bind (.rangeSince _) fun _ => .newExpr _ _
  · refine .bind hnested.expression fun first => .bind (.acceptPunctuation _) fun repeated => ?_
    split
    · exact .bind hnested.expression fun _ => .bind hclose fun _ =>
        .bind (.rangeSince _) fun _ => .newExpr _ _
    · exact .bind (.iterate (.nextElement hruns) (Nearsighted.nextElement hnested) _) fun _ =>
        .bind hclose fun _ => .bind (.rangeSince _) fun _ => .newExpr _ _

theorem Nearsighted.vecExpr : Nearsighted (vecExpr nested) := by
  refine .bind .advance fun start => .bind (.acceptOperator _) fun marked => ?_
  split
  · refine .bind (.atPunctuation _) fun opens => ?_
    split
    · exact .bind (.arrayExpr hnested) fun _ => .bind (.rangeSince _) fun _ => .newExpr _ _
    · exact .bind (.expected _) fun _ => .missingExpr
  · exact .bind (.expectedWithHelp _ _) fun _ => .missingExpr

theorem Nearsighted.primary : Nearsighted (primary nested) := by
  refine .peek fun token => Nearsighted.at ?_ token
  split
  · exact .literal _
  · exact .literal _
  · exact .bind (.intern _) fun _ => .literal _
  · exact .literal _
  · exact .literal _
  · exact .literal _
  · exact .bind (.nameOf _) fun _ => .literal _
  · exact .parenthesized hnested
  · exact .arrayExpr hnested
  · exact .vecExpr hnested
  · exact .bind .missingExpr fun _ => .bind .advance fun _ => .pure _
  · exact .bind (.expected _) fun _ => .missingExpr

/-! ### Operators -/

theorem Nearsighted.suffix (base : Expr) : Nearsighted (suffix nested base) := by
  refine .bind (.acceptPunctuation _) fun indexed => ?_
  split
  · exact .bind hnested.expression fun _ => .bind (.expectPunctuation _ _ _) fun _ =>
      .bind (.rangeSince _) fun _ => .bind (.newExpr _ _) fun _ => .pure _
  · refine .peek fun token => Nearsighted.at ?_ token
    split
    · exact .bind .advance fun _ => .bind hnested.type fun _ =>
        .bind (.rangeSince _) fun _ => .bind (.newExpr _ _) fun _ => .pure _
    · exact .pure _

theorem Nearsighted.suffixed : Nearsighted (suffixed nested) := by
  have hruns : Runs nested.expression := .ofRespects fun inv => (hnested.respects inv).expression
  have htype : Runs nested.type := .ofRespects fun inv => (hnested.respects inv).type
  exact .bind (.primary hnested) fun base =>
    .iterate (.suffix hruns htype) (Nearsighted.suffix hnested) base

theorem Nearsighted.unary : Nearsighted (unary nested) := by
  refine .peek fun token => Nearsighted.at ?_ token
  split
  · exact .bind .advance fun _ => .bind hnested.operand fun _ => .newExpr _ _
  · exact .suffixed hnested

omit hnested in
theorem Nearsighted.extendChain (layer : Nat) {tighter : Parser Chain}
    (htighter : Nearsighted tighter) (chain : Chain) :
    Nearsighted (extendChain layer tighter chain) := by
  refine .peek fun token => Nearsighted.at ?_ token
  split
  · refine .bind .advance fun first => .bind htighter fun right => .bind (.newExpr _ _) fun whole =>
      .peek fun next => Nearsighted.at ?_ next
    split
    · exact .bind (.report _) fun _ => .pure _
    · exact .pure _
  · exact .pure _

theorem Nearsighted.layered (layers : List Nat) : Nearsighted (layered nested layers) := by
  induction layers with
  | nil => exact .bind (.unary hnested) fun _ => .pure _
  | cons layer tighter ih =>
      have hruns : Runs (Parser.layered nested tighter) :=
        .ofRespects fun inv => .layered (hnested.respects inv) tighter
      exact .bind ih fun start => .iterate (.extendChain layer hruns)
        (Nearsighted.extendChain layer ih) start

theorem Nearsighted.expressionIn : Nearsighted (expressionIn nested) :=
  .bind (.layered hnested _) fun _ => .pure _

end Nested

/-! ### Nesting -/

theorem NestedNearsighted.around {inner : Unit → Nested} (hinner : NestedNearsighted (inner ())) :
    NestedNearsighted (around inner) where
  respects inv := .around (hinner.respects inv)
  expression := .expressionIn hinner
  operand := .unary hinner
  type := .typeIn hinner

theorem NestedNearsighted.along (levels : List Token) : NestedNearsighted (nestedAlong levels) := by
  induction levels with
  | nil => exact .around ⟨fun _ => ⟨.missingExpr, .missingExpr, .missingType⟩, .missingExpr,
      .missingExpr, .missingType⟩
  | cons token levels ih => exact .around ih

variable {α : Type} {p : Parser α} {along : List Token → Parser α}

/-- A parser that is given a level of nesting for each token at hand. More levels would do, so it
does not matter that the numbers of tokens differ. -/
theorem Nearsighted.ofLevels (halong : ∀ levels, Nearsighted (along levels))
    (hlevels : ∀ (levels : List Token) (s : ParserState), s.Ended →
      s.rest.length ≤ levels.length → p s = along levels s) (honward : ∀ s : ParserState, s.Onward (p s).2) :
    Nearsighted p := by
  refine ⟨honward, fun k s hbefore => ?_⟩
  have hfirst : k.Before s := hbefore.of_onward (honward s)
  let levels := s.rest ++ (k.switch s).rest
  have hhere : p s = along levels s := hlevels levels s hfirst.ended (by simp [levels])
  have hthere : p (k.switch s) = along levels (k.switch s) :=
    hlevels levels (k.switch s) k.ended (by simp [levels])
  rw [hhere] at hbefore ⊢
  rw [hthere]
  exact (halong levels).same k s hbefore

/-- **Expressions are nearsighted.** -/
theorem Nearsighted.expression : Nearsighted expression :=
  .ofLevels (fun levels => (NestedNearsighted.along levels).expression)
    (fun _ _ hended hlevels => expression_along hended hlevels)
    Runs.expression.onward

theorem Nearsighted.typeExpr : Nearsighted typeExpr :=
  .ofLevels (fun levels => (NestedNearsighted.along levels).type)
    (fun _ _ hended hlevels => typeExpr_along hended hlevels)
    (Runs.ofRespects fun _ => .typeExpr).onward

end BehaviorTree.Parser

/-!
## Items are nearsighted

Statements, blocks and declarations are parsed without a look behind a `;` or a brace that is not
consumed, whatever is wrong with them.
-/

namespace BehaviorTree.Parser

open ParserState

/-! ### Parts of items -/

theorem Nearsighted.docTurn (docs : Docs) : Nearsighted (docTurn docs) := by
  refine .peek fun token => Nearsighted.at ?_ token
  split
  · exact .bind .advance fun _ => .pure _
  · exact .bind (.report _) fun _ => .bind .advance fun _ => .pure _
  · exact .pure _

theorem Nearsighted.docComments : Nearsighted docComments := .iterate .docTurn .docTurn _

theorem Nearsighted.direction : Nearsighted direction := by
  refine .peek fun token => Nearsighted.at ?_ token
  split
  · exact .bind .advance fun _ => .pure _
  · exact .pure _

theorem Nearsighted.listGoesOn (context : String) (inBody : Bool) :
    Nearsighted (listGoesOn context inBody) := by
  refine .bind (.acceptPunctuation _) fun closed => ?_
  split
  · exact .pure _
  · refine .bind (.listBreaksOff _) fun breaks => ?_
    split
    · exact .bind (.unclosedList _) fun _ => .pure _
    · exact .pure _

theorem Nearsighted.listContinues (context what : String) (inBody : Bool) (set : RecoverySet) :
    Nearsighted (listContinues context what inBody set) := by
  refine .bind (.acceptPunctuation _) fun comma => ?_
  split
  · exact .pure _
  · refine .bind (.listGoesOn _ _) fun goesOn => ?_
    split
    · refine .bind (.expected _) fun _ => .bind (.synchronize _) fun _ =>
        .bind (.acceptPunctuation _) fun comma => ?_
      split
      · exact .pure _
      · exact .bind (.acceptPunctuation _) fun _ => .pure _
    · exact .pure _

theorem Nearsighted.declaredType : Nearsighted declaredType := by
  refine .bind (.acceptPunctuation _) fun colon => ?_
  split
  · exact .map .typeExpr
  · exact .pure _

theorem Nearsighted.initializer : Nearsighted initializer := by
  refine .bind (.acceptOperator _) fun equals => ?_
  split
  · exact .map .expression
  · exact .pure _

theorem Nearsighted.varParts (set : RecoverySet) : Nearsighted (varParts set) := by
  refine .bind .advance fun _ => .bind (.expectName _ _) fun name => ?_
  cases name with
  | none => exact .bind (.acceptPunctuation _) fun _ => .pure _
  | some name =>
      exact .bind .declaredType fun _ => .bind .initializer fun _ =>
        .bind (.expectSemi _ _) fun _ => .pure _

theorem Nearsighted.constParts (set : RecoverySet) : Nearsighted (constParts set) := by
  refine .bind .advance fun _ => .bind (.expectName _ _) fun name => ?_
  cases name with
  | none => exact .bind (.acceptPunctuation _) fun _ => .pure _
  | some name =>
      refine .bind .declaredType fun type => .bind (.expectOperator _ _ _) fun equals => ?_
      split
      · exact .bind .expression fun _ => .bind (.expectSemi _ _) fun _ => .pure _
      · exact .bind .missingExpr fun _ => .bind (.expectSemi _ _) fun _ => .pure _

theorem Nearsighted.foreignPart (shape : ForeignShape) (value : Unit) :
    Nearsighted (foreignPart shape value) := by
  refine .bind (.skip Skip.scan_header.near) fun _ => .bind (.atPunctuation _) fun opens => ?_
  split
  · refine .bind (.skip Skip.near_block) fun _ => .peek fun next => Nearsighted.at ?_ next
    split
    · exact .bind .advance fun _ => .pure _
    · exact .pure _
  · exact .bind (.acceptPunctuation _) fun _ => .pure _

theorem Nearsighted.skipForeign (word : ForeignWord) : Nearsighted (skipForeign word) :=
  .peek fun token => Nearsighted.at (.bind (.reportOnce _) fun _ => .bind .advance fun _ =>
    .iterate (.foreignPart _) (.foreignPart _) _) token

theorem Nearsighted.danglingDocs (range : Option SourceRange) : Nearsighted (danglingDocs range) := by
  cases range with
  | none => exact .pure _
  | some range => exact .report _

/-! ### Statements -/

theorem Nearsighted.preconditionBehind (found : List Precondition) (start : SourceRange)
    (kind : Option PreconditionKind) : Nearsighted (preconditionBehind found start kind) := by
  refine .bind (.expectPunctuation _ _ _) fun entered => ?_
  split
  · refine .bind .expression fun condition => .bind (.expectPunctuation _ _ _) fun _ =>
      .bind (.rangeSince _) fun range => ?_
    split
    · exact .pure _
    · exact .pure _
  · exact .pure _

theorem Nearsighted.preconditionTurn (found : List Precondition) :
    Nearsighted (preconditionTurn found) := by
  refine .peek fun token => Nearsighted.at (.bind (.acceptPunctuation _) fun opens => ?_) token
  split
  · refine .bind (.expectName _ _) fun name => ?_
    cases name with
    | none => exact .bind (.acceptPunctuation _) fun _ => .pure _
    | some name =>
        dsimp only
        split
        · exact .bind (.report _) fun _ => .preconditionBehind found _ _
        · exact .preconditionBehind found _ _
  · exact .pure _

theorem Nearsighted.preconditions : Nearsighted preconditions :=
  .iterate .preconditionTurn .preconditionTurn _

theorem Nearsighted.argumentName : Nearsighted argumentName := by
  refine .peek fun token => .peekSecond (fun hstop second second' => ?_)
    fun second => Nearsighted.at ?_ token
  · have hname : token.isIdentifier = false := by
      cases hname : token.isIdentifier with
      | false => rfl
      | true =>
          have hkind : token.kind = .identifier := by simpa [Token.isIdentifier] using hname
          rw [hkind] at hstop
          cases hstop
    rw [hname]
    rfl
  · split
    · exact .bind .advance fun _ => .bind .advance fun _ => .map (.nameOf _)
    · exact .pure _

theorem Nearsighted.argument : Nearsighted argument :=
  .peek fun token => Nearsighted.at (.bind .argumentName fun _ => .bind .direction fun _ =>
    .bind .expression fun _ => .bind (.rangeSince _) fun _ => .pure _) token

theorem Nearsighted.argumentTurn (arguments : List Argument) :
    Nearsighted (argumentTurn arguments) := by
  refine .bind (.listGoesOn _ _) fun more => ?_
  split
  · refine .bind .argument fun argument => .bind (.listContinues _ _ _ _) fun continues => ?_
    split
    · exact .pure _
    · exact .pure _
  · exact .pure _

theorem Nearsighted.arguments : Nearsighted arguments := by
  refine .bind (.acceptPunctuation _) fun opens => ?_
  split
  · exact .map (.iterate .argumentTurn .argumentTurn _)
  · exact .pure _

theorem Nearsighted.indexTurn (indices : List Expr) : Nearsighted (indexTurn indices) := by
  refine .bind (.acceptPunctuation _) fun opens => ?_
  split
  · refine .bind .expression fun position => .bind (.acceptPunctuation _) fun closed => ?_
    split
    · exact .pure _
    · refine .peek fun token => Nearsighted.at ?_ token
      split
      · exact .bind (.expected _) fun _ => .pure _
      · exact .bind (.expectPunctuation _ _ _) fun _ => .pure _
  · exact .pure _

theorem Nearsighted.abandonStatement : Nearsighted abandonStatement :=
  .bind (.synchronize _) fun _ => .bind (.acceptPunctuation _) fun _ => .pure _

theorem Nearsighted.assignment : Nearsighted assignment := by
  refine .bind .advance fun token => .bind (.nameOf _) fun target =>
    .bind (.iterate .indexTurn .indexTurn _) fun indices => .peek fun next => Nearsighted.at ?_ next
  split
  · exact .bind .advance fun _ => .bind .expression fun _ => .bind (.expectSemi _ _) fun _ => .pure _
  · exact .bind (.expected _) fun _ => .bind .abandonStatement fun _ => .pure _

theorem Nearsighted.semicolonAfterBlock : Nearsighted semicolonAfterBlock := by
  refine .peek fun token => Nearsighted.at (.bind (.acceptPunctuation _) fun found => ?_) token
  split
  · exact .report _
  · exact .pure _

theorem Nearsighted.leafBehind (callee : Name) (arguments : Option (List Argument)) :
    Nearsighted (leafBehind callee arguments) := by
  cases arguments with
  | some arguments => exact .bind (.expectSemi _ _) fun _ => .pure _
  | none => exact .bind (.expectedWithHelp _ _) fun _ => .bind .abandonStatement fun _ => .pure _

theorem Nearsighted.unattached (preconditions : List Precondition) (docs : Docs) :
    Nearsighted (unattached preconditions docs) := by
  cases preconditions with
  | nil => exact .danglingDocs _
  | cons first others => exact .report _

section Block

variable {block : Parser (List Stmt)} (hblock : Nearsighted block)
include hblock

theorem Nearsighted.node : Nearsighted (node block) := by
  refine .bind .advance fun token => .bind (.nameOf _) fun callee => .bind .arguments fun arguments =>
    .bind (.atPunctuation _) fun opens => ?_
  split
  · exact .bind hblock fun _ => .bind .semicolonAfterBlock fun _ => .pure _
  · exact .leafBehind callee arguments

theorem Nearsighted.bareStatement (preconditions : List Precondition) (docs : Docs) :
    Nearsighted (bareStatement block preconditions docs) := by
  have hunattached : Nearsighted (do
      Parser.unattached preconditions docs
      Pure.pure (none : Option (StmtHead → Stmt))) := .bind (.unattached _ _) fun _ => .pure _
  refine .peek fun token => ?_
  split
  · exact (Nearsighted.bind (.varParts _) fun _ => .pure _).at token
  · exact (Nearsighted.bind (.constParts _) fun _ => .pure _).at token
  · rename_i hkind
    split
    · exact (Nearsighted.bind (.skipForeign _) fun _ => .pure _).at token
    · refine .assignmentFollows (by rw [hkind]; rfl) fun isAssignment => ?_
      split
      · exact .assignment
      · exact .node hblock
  · exact hunattached.at token
  · exact hunattached.at token
  · refine Nearsighted.at ?_ token
    split
    · exact hunattached
    · exact .bind (.expectedWithHelp _ _) fun _ => .bind .abandonStatement fun _ => .pure _

omit hblock in
theorem Nearsighted.finishStmt (docs : Docs) (preconditions : List Precondition) (start : SourceRange)
    (build : Option (StmtHead → Stmt)) : Nearsighted (finishStmt docs preconditions start build) := by
  cases build with
  | none => exact .pure _
  | some build => exact .bind (.rangeSince _) fun _ => .map (.newStmt _ _)

theorem Nearsighted.statement : Nearsighted (statement block) := by
  refine .bind .docComments fun docs => .bind .preconditions fun preconditions =>
    .peek fun token => Nearsighted.at (.bind (.bareStatement hblock _ _) fun build => ?_) token
  exact .finishStmt docs preconditions _ build

theorem Nearsighted.blockTurn (opening : SourceRange) (stmts : List Stmt) :
    Nearsighted (blockTurn (Parser.statement block) opening stmts) := by
  refine .bind (.acceptPunctuation _) fun closed => ?_
  split
  · exact .pure _
  · refine .peek fun token => Nearsighted.at ?_ token
    split
    · exact .bind (.reportOnce _) fun _ => .pure _
    · exact .bind (.orStepOver (.statement hblock) _) fun _ => .pure _

theorem Nearsighted.blockOf (hrespects : ∀ inv, Respects inv block) :
    Nearsighted (blockOf (Parser.statement block)) :=
  .bind .advance fun opening => .iterate (.blockTurn hrespects opening.range)
    (Nearsighted.blockTurn hblock opening.range) []

end Block

theorem Nearsighted.blockAlong (levels : List Token) : Nearsighted (blockAlong levels) := by
  induction levels with
  | nil => exact .blockOf (.pure _) fun _ => .pure .nil
  | cons token levels ih => exact .blockOf ih fun _ => .blockAlong levels

/-- **Blocks are nearsighted.** -/
theorem Nearsighted.block : Nearsighted block :=
  .ofLevels Nearsighted.blockAlong (fun _ _ hended hlevels => block_along hended hlevels)
    (Runs.ofRespects fun _ => .block).onward

/-! ### Declarations -/

theorem Nearsighted.abandonDecl : Nearsighted abandonDecl :=
  .bind (.synchronize _) fun _ => .bind (.acceptPunctuation _) fun _ => .pure _

/-- What is given up. -/
theorem Nearsighted.abandoned {α : Type} (what help : String) (a : α) : Nearsighted (do
    Parser.expectedWithHelp what help
    Parser.abandonDecl
    Pure.pure a) := .bind (.expectedWithHelp _ _) fun _ => .bind .abandonDecl fun _ => .pure _

theorem Nearsighted.importDecl : Nearsighted importDecl := by
  refine .bind .advance fun _ => .peek fun token => Nearsighted.at ?_ token
  split
  · exact .bind .advance fun _ => .bind (.intern _) fun _ => .bind (.expectSemi _ _) fun _ => .pure _
  · exact .abandoned _ _ _

theorem Nearsighted.param (what : String) (set : RecoverySet) : Nearsighted (param what set) := by
  refine .bind .docComments fun docs => .peek fun token => Nearsighted.at (.bind .direction
    fun direction => .bind (.expectName _ _) fun name => ?_) token
  cases name with
  | none => exact .pure _
  | some name =>
      refine .bind (.expectPunctuation _ _ _) fun colon => ?_
      split
      · exact .bind .typeExpr fun _ => .bind .initializer fun _ => .bind (.rangeSince _) fun _ => .pure _
      · exact .bind .missingType fun _ => .bind .initializer fun _ => .bind (.rangeSince _) fun _ => .pure _

theorem Nearsighted.paramTurn (what : String) (params : List Param) :
    Nearsighted (paramTurn what params) := by
  refine .bind (.listGoesOn _ _) fun more => ?_
  split
  · refine .bind (.param _ _) fun param => .bind (.listContinues _ _ _ _) fun continues => ?_
    split
    · exact .pure _
    · exact .pure _
  · exact .pure _

theorem Nearsighted.paramList (what context : String) : Nearsighted (paramList what context) := by
  refine .bind (.expectPunctuation _ _ _) fun opened => ?_
  split
  · exact .iterate (.paramTurn what) (.paramTurn what) _
  · exact .pure _

theorem Nearsighted.nodeDecl (behavior : Option Behavior) : Nearsighted (nodeDecl behavior) := by
  refine .bind .advance fun _ => .peek fun token => Nearsighted.at ?_ token
  split
  · exact .abandoned _ _ _
  · refine .bind .advance fun _ => .bind (.expectName _ _) fun name => ?_
    cases name with
    | none => exact .bind .abandonDecl fun _ => .pure _
    | some name => exact .bind (.paramList _ _) fun _ => .bind (.expectSemi _ _) fun _ => .pure _

theorem Nearsighted.opaqueTypeDecl : Nearsighted opaqueTypeDecl := by
  refine .bind .advance fun _ => .bind .advance fun _ => .bind (.expectName _ _) fun name => ?_
  cases name with
  | none => exact .bind .abandonDecl fun _ => .pure _
  | some name => exact .bind (.expectSemi _ _) fun _ => .pure _

theorem Nearsighted.typeAliasDecl : Nearsighted typeAliasDecl := by
  refine .bind .advance fun _ => .bind (.expectName _ _) fun name => ?_
  cases name with
  | none => exact .bind .abandonDecl fun _ => .pure _
  | some name =>
      refine .bind (.expectOperator _ _ _) fun equals => ?_
      split
      · exact .bind .typeExpr fun _ => .bind (.expectSemi _ _) fun _ => .pure _
      · exact .bind .missingType fun _ => .bind (.expectSemi _ _) fun _ => .pure _

theorem Nearsighted.varDecl : Nearsighted varDecl := .bind (.varParts _) fun _ => .pure _

theorem Nearsighted.constDecl : Nearsighted constDecl := .bind (.constParts _) fun _ => .pure _

theorem Nearsighted.treeBody : Nearsighted treeBody := by
  refine .bind (.atPunctuation _) fun opens => ?_
  split
  · exact .block
  · exact .bind (.missing _ _ _) fun _ => .bind (.synchronize _) fun _ => .pure _

theorem Nearsighted.treeDecl : Nearsighted treeDecl := by
  refine .bind .advance fun _ => .bind (.expectName _ _) fun name => ?_
  cases name with
  | none =>
      refine .bind (.atPunctuation _) fun opens => ?_
      split
      · exact .bind (.skip Skip.near_group) fun _ => .pure _
      · exact .pure _
  | some name => exact .bind (.paramList _ _) fun _ => .bind .treeBody fun _ => .pure _

theorem Nearsighted.policy {α : Type} (what choices : String) (ofSpelling? : String → Option α)
    (set : RecoverySet) : Nearsighted (policy what choices ofSpelling? set) := by
  refine .bind (.expectName _ _) fun name => ?_
  cases name with
  | none => exact .pure _
  | some name =>
      dsimp only
      split
      · exact .pure _
      · exact .bind (.report _) fun _ => .pure _

theorem Nearsighted.flowPolicy (set : RecoverySet) : Nearsighted (flowPolicy set) := by
  refine .bind (.acceptPunctuation _) fun comma => ?_
  split
  · exact .policy _ _ _ _
  · exact .pure _

theorem Nearsighted.policies (set : RecoverySet) : Nearsighted (policies set) := by
  refine .bind (.expectPunctuation _ _ _) fun opened => ?_
  split
  · refine .bind (.policy _ _ _ _) fun data => .bind (.flowPolicy _) fun flow =>
      .bind (.expectPunctuation _ _ _) fun _ => ?_
    split
    · exact .pure _
    · exact .pure _
  · exact .pure _

theorem Nearsighted.attributeBody (set : RecoverySet) : Nearsighted (attributeBody set) := by
  refine .bind (.expectPunctuation _ _ _) fun opened => ?_
  split
  · refine .bind (.expectName _ _) fun name => ?_
    cases name with
    | none => exact .pure _
    | some name =>
        dsimp only
        split
        · exact .policies _
        · exact .bind (.report _) fun _ => .bind (.synchronize _) fun _ => .pure _
  · exact .pure _

theorem Nearsighted.attributeHere : Nearsighted attributeHere := by
  refine .peek fun token => Nearsighted.at (.bind (.acceptPunctuation _) fun opens => ?_) token
  split
  · exact .bind (.attributeBody _) fun _ => .bind (.expectPunctuation _ _ _) fun _ =>
      .bind (.rangeSince _) fun _ => .pure _
  · exact .pure _

theorem Nearsighted.finishDecl (build : Option (DeclHead → Decl)) (docs : Docs)
    (start : SourceRange) (attr : Option SourceRange) :
    Nearsighted (finishDecl build docs start attr) := by
  cases build with
  | none => exact .pure _
  | some build => exact .bind (.rangeSince _) fun _ => .map (.newDecl _ _)

theorem Nearsighted.plainDecl {parser : Parser (Option (DeclHead → Decl))}
    (hparser : Nearsighted parser) (docs : Docs) (attr : Option Attribute) :
    Nearsighted (plainDecl parser docs attr) := by
  refine .peek fun token => Nearsighted.at (.bind hparser fun build => ?_) token
  cases attr with
  | none => exact .finishDecl _ _ _ _
  | some attr => exact .bind (.report _) fun _ => .finishDecl _ _ _ _

theorem Nearsighted.nothingDeclared (docs : Docs) (attr : Option Attribute) :
    Nearsighted (nothingDeclared docs attr) := by
  cases attr with
  | none => exact .danglingDocs _
  | some attr => exact .expected _

theorem Nearsighted.noDeclaration : Nearsighted declarationAfter.noDeclaration :=
  .bind (.expectedWithHelp _ _) fun _ => .bind (.synchronize _) fun _ => .pure _

theorem Nearsighted.declarationAfter (docs : Docs) (attr : Option Attribute) :
    Nearsighted (declarationAfter docs attr) := by
  refine .peek fun token => ?_
  split
  · refine Nearsighted.at ?_ token
    split
    · exact .bind (.skipForeign _) fun _ => .pure _
    · exact .noDeclaration
  · exact (Nearsighted.plainDecl .importDecl docs attr).at token
  · rename_i hkind
    refine .peekSecond (fun hstop => ?_) fun second => Nearsighted.at ?_ token
    · rw [hkind] at hstop
      cases hstop
    · split
      · exact .plainDecl .opaqueTypeDecl docs attr
      · exact .bind (.nodeDecl _) fun _ => .finishDecl _ _ _ _
  · exact (Nearsighted.plainDecl .typeAliasDecl docs attr).at token
  · exact (Nearsighted.plainDecl .varDecl docs attr).at token
  · exact (Nearsighted.plainDecl .constDecl docs attr).at token
  · exact (Nearsighted.plainDecl .treeDecl docs attr).at token
  · exact (Nearsighted.bind (.nothingDeclared docs attr) fun _ => .pure _).at token
  · exact Nearsighted.noDeclaration.at token

/-- **Declarations are nearsighted.** -/
theorem Nearsighted.declaration : Nearsighted declaration :=
  .bind .docComments fun docs => .bind .attributeHere fun attr => .declarationAfter docs attr

theorem Nearsighted.moduleDocTurn (docs : List String) : Nearsighted (moduleDocTurn docs) := by
  refine .peek fun token => Nearsighted.at ?_ token
  split
  · exact .bind .advance fun _ => .pure _
  · exact .pure _

theorem Nearsighted.moduleDocs : Nearsighted moduleDocs := .iterate .moduleDocTurn .moduleDocTurn _

theorem Nearsighted.programTurn (decls : List Decl) : Nearsighted (programTurn decls) := by
  refine .bind .atEnd fun ended => ?_
  split
  · exact .pure _
  · exact .bind (.orStepOver .declaration _) fun _ => .pure _

end BehaviorTree.Parser
