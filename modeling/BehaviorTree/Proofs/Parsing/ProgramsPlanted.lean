import BehaviorTree.Parsing.Declaration
import BehaviorTree.Parsing.Statement
import BehaviorTree.Proofs.Parsing.TermsPlanted

/-!
# Statements and programs are planted

A statement is parsed before its head is known, so what is parsed first are the trees of its other
parts. The trees of its preconditions are kept meanwhile. What is given up on the way is left in the
arena, and no tree refers to it. So every declaration is a whole tree in the end.
-/

namespace BehaviorTree

def StmtHead.blank : StmtHead := ⟨.blank, [], []⟩

/-- A statement that waits for its head. -/
structure Stmt.Pending (build : StmtHead → Stmt) : Prop where
  head : ∀ head, (build head).head = head
  parts : ∀ head, (build head).parts = head.parts ++ (build .blank).parts
  shaped : ∀ head, (SyntaxNode.stmt (build head)).Shaped

def VarParts.parts (parts : VarParts) : List SyntaxNode :=
  parts.type.toList.map .type ++ parts.init.toList.map .expr

def ConstParts.parts (parts : ConstParts) : List SyntaxNode :=
  parts.type.toList.map .type ++ [.expr parts.value]

def Precondition.part (precondition : Precondition) : SyntaxNode := .expr precondition.condition

namespace Parser

/-! ### Parts of items -/

theorem Barren.docComments : Barren docComments := by
  refine .iterate (fun docs => Barren.peek.bind fun token => ?_) Docs.none
  split
  · exact Barren.advance.bind fun _ => .pure _
  · exact (Barren.report _).bind fun _ => Barren.advance.bind fun _ => .pure _
  · exact .pure _

theorem Barren.direction : Barren direction := by
  refine Barren.peek.bind fun token => ?_
  split
  · exact Barren.advance.bind fun _ => .pure _
  · exact .pure _

theorem Barren.listGoesOn (context : String) (inBody : Bool) : Barren (listGoesOn context inBody) := by
  refine (Barren.acceptPunctuation _).bind fun closed => ?_
  split
  · exact .pure _
  · refine (Barren.listBreaksOff _).bind fun broken => ?_
    split
    · exact (Barren.unclosedList _).bind fun _ => .pure _
    · exact .pure _

theorem Barren.listContinues (context what : String) (inBody : Bool) (set : RecoverySet) :
    Barren (listContinues context what inBody set) := by
  refine (Barren.acceptPunctuation _).bind fun comma => ?_
  split
  · exact .pure _
  · refine (Barren.listGoesOn _ _).bind fun more => ?_
    split
    · refine (Barren.expected _).bind fun _ => (Barren.synchronize _).bind fun _ => ?_
      refine (Barren.acceptPunctuation _).bind fun comma => ?_
      split
      · exact .pure _
      · exact (Barren.acceptPunctuation _).bind fun _ => .pure _
    · exact .pure _

theorem Plants.declaredType :
    Plants [] declaredType (fun _ => True) fun type => type.toList.map .type := by
  unfold Parser.declaredType
  refine .after (.acceptPunctuation _) fun declared => ?_
  split
  · exact Plants.typeExpr.map (fun _ _ => trivial) (by simp)
  · exact .pure trivial (List.Sublist.refl _)

theorem Plants.initializer :
    Plants [] initializer (fun _ => True) fun init => init.toList.map .expr := by
  unfold Parser.initializer
  refine .after (.acceptOperator _) fun initialized => ?_
  split
  · exact Plants.expression.map (fun _ _ => trivial) (by simp)
  · exact .pure trivial (List.Sublist.refl _)

theorem Plants.varParts (set : RecoverySet) :
    Plants [] (varParts set) (fun _ => True) fun parts => parts.toList.flatMap VarParts.parts := by
  unfold Parser.varParts
  refine .after .advance fun _ => .after (.expectName _ _) fun found => ?_
  cases found with
  | none => exact .after (.acceptPunctuation _) fun _ => .pure trivial (List.Sublist.refl _)
  | some name =>
      refine .bind .declaredType fun type _ => .bind .initializer fun init _ => ?_
      exact .after (.expectSemi _ _) fun _ => .pure trivial (by simp [VarParts.parts])

theorem Plants.constParts (set : RecoverySet) :
    Plants [] (constParts set) (fun _ => True) fun parts => parts.toList.flatMap ConstParts.parts := by
  unfold Parser.constParts
  refine .after .advance fun _ => .after (.expectName _ _) fun found => ?_
  cases found with
  | none => exact .after (.acceptPunctuation _) fun _ => .pure trivial (List.Sublist.refl _)
  | some name =>
      refine .bind .declaredType fun type _ => .after (.expectOperator _ _ _) fun equal => ?_
      have hfinish : ∀ value, True → Plants ([] ++ type.toList.map .type ++ [.expr value]) (do
          Parser.expectSemi "after constant declaration" set
          Pure.pure (some (ConstParts.mk name type value))) (fun _ => True)
            fun parts => parts.toList.flatMap ConstParts.parts := by
        intro value _
        exact .after (.expectSemi _ _) fun _ => .pure trivial (by simp [ConstParts.parts])
      dsimp only
      split
      · exact .bind .expression hfinish
      · exact .bind .missingExpr hfinish

theorem Plants.orStepOver {α : Type} {parser : Parser α} {exempt : Token → Bool}
    {good : α → Prop} {roots : α → List SyntaxNode} (hparser : Plants [] parser good roots) :
    Plants [] (orStepOver parser exempt) good roots := by
  have hsteps : Plants [] (parser >>= fun value => advance >>= fun _ => Pure.pure value) good roots :=
    .thread hparser fun value hvalue =>
      .after .advance fun _ => .pure hvalue (List.Sublist.refl _)
  intro base s hheld
  have hrun : Parser.orStepOver parser exempt s =
      if (parser s).2.position = s.position ∧ !exempt (parser s).2.current then
        (parser >>= fun value => advance >>= fun _ => Pure.pure value) s
      else parser s := rfl
  rw [hrun]
  split
  · exact hsteps base s hheld
  · exact hparser base s hheld

/-! ### Parts of statements -/

theorem Plants.preconditionBehind (found : List Precondition) (start : SourceRange)
    (kind : Option PreconditionKind) :
    Plants (found.map Precondition.part) (preconditionBehind found start kind) (fun _ => True)
      fun turn => turn.value.map Precondition.part := by
  unfold Parser.preconditionBehind Parser.preconditionClosed
  refine .after (.expectPunctuation _ _ _) fun entered => ?_
  split
  · refine .bind .expression fun condition _ => .after (.expectPunctuation _ _ _) fun _ => ?_
    refine .after (.rangeSince _) fun range => ?_
    split
    · exact .pure trivial (by simp [Turn.value, Precondition.part])
    · exact .pure trivial (List.sublist_append_left _ _)
  · exact .pure trivial (List.Sublist.refl _)

theorem Plants.preconditionTurn (found : List Precondition) :
    Plants (found.map Precondition.part) (preconditionTurn found) (fun _ => True)
      fun turn => turn.value.map Precondition.part := by
  unfold Parser.preconditionTurn
  refine .after .peek fun token => .after (.acceptPunctuation _) fun opened => ?_
  split
  · refine .after (.expectName _ _) fun name => ?_
    cases name with
    | none => exact .after (.acceptPunctuation _) fun _ => .pure trivial (List.Sublist.refl _)
    | some name =>
        dsimp only
        split
        · exact .after (.report _) fun _ => .preconditionBehind found _ _
        · exact .preconditionBehind found _ _
  · exact .pure trivial (List.Sublist.refl _)

theorem Plants.preconditions :
    Plants [] preconditions (fun _ => True) fun found => found.map Precondition.part :=
  .iterate (fun _ => True) (fun found => found.map Precondition.part) [] trivial
    fun found _ => .preconditionTurn found

theorem Barren.argumentName : Barren argumentName := by
  refine Barren.peek.bind fun token => Barren.peekSecond.bind fun second => ?_
  split
  · refine Barren.advance.bind fun _ => Barren.advance.bind fun _ => ?_
    exact (Barren.nameOf token).bind fun _ => .pure _
  · exact .pure _

theorem Plants.argument :
    Plants [] argument (fun _ => True) fun argument => [Argument.part argument] := by
  unfold Parser.argument
  refine .after .peek fun token => .after .argumentName fun name => .after .direction fun direction => ?_
  refine .bind .expression fun value _ => .after (.rangeSince _) fun range => ?_
  exact .pure trivial (List.Sublist.refl _)

theorem Plants.argumentTurn (arguments : List Argument) :
    Plants (arguments.map Argument.part) (argumentTurn arguments) (fun _ => True)
      fun turn => turn.value.map Argument.part := by
  unfold Parser.argumentTurn
  refine .after (.listGoesOn _ _) fun more => ?_
  split
  · refine .bind .argument fun argument _ => .after (.listContinues _ _ _ _) fun further => ?_
    split
    · exact .pure trivial (by simp [Turn.value])
    · exact .pure trivial (by simp [Turn.value])
  · exact .pure trivial (List.Sublist.refl _)

theorem Plants.arguments :
    Plants [] arguments (fun _ => True) fun arguments => (arguments.getD []).map Argument.part := by
  have hloop : Plants [] (Parser.iterate Parser.argumentTurn []) (fun _ => True)
      fun arguments => arguments.map Argument.part :=
    .iterate (fun _ => True) (fun arguments => arguments.map Argument.part) [] trivial
      fun arguments _ => .argumentTurn arguments
  unfold Parser.arguments
  refine .after (.acceptPunctuation _) fun opened => ?_
  split
  · exact hloop.map (fun _ _ => trivial) (by simp)
  · exact .pure trivial (List.Sublist.refl _)

theorem Plants.indexTurn (indices : List Expr) :
    Plants (indices.map .expr) (indexTurn indices) (fun _ => True)
      fun turn => turn.value.map .expr := by
  unfold Parser.indexTurn
  refine .after (.acceptPunctuation _) fun opened => ?_
  split
  · refine .bind .expression fun position _ => .after (.acceptPunctuation _) fun closed => ?_
    split
    · exact .pure trivial (by simp [Turn.value])
    · refine .after .peek fun next => ?_
      split
      · exact .after (.expected _) fun _ => .pure trivial (by simp [Turn.value])
      · exact .after (.expectPunctuation _ _ _) fun _ => .pure trivial (by simp [Turn.value])
  · exact .pure trivial (List.Sublist.refl _)

theorem Barren.abandonStatement : Barren abandonStatement :=
  (Barren.synchronize _).bind fun _ => (Barren.acceptPunctuation _).bind fun _ => .pure _

/-! ### Statements -/

/-- The parser returns a statement that waits for its head, or nothing. -/
def PlantsBare (p : Parser (Option (StmtHead → Stmt))) : Prop :=
  Plants [] p (fun result => ∀ build ∈ result, Stmt.Pending build)
    fun result => result.toList.flatMap fun build => (build .blank).parts

theorem Plants.bare {held : List SyntaxNode} {build : StmtHead → Stmt} (hbuild : Stmt.Pending build)
    (hparts : (build .blank).parts.Sublist held) :
    Plants held (Pure.pure (some build)) (fun result => ∀ build ∈ result, Stmt.Pending build)
      fun result => result.toList.flatMap fun build => (build .blank).parts :=
  .pure (by simpa using hbuild) (by simpa using hparts)

theorem Plants.notBare {held : List SyntaxNode} :
    Plants held (Pure.pure none) (fun result => ∀ build ∈ result, Stmt.Pending build)
      fun result => result.toList.flatMap fun build => (build .blank).parts :=
  .pure (by simp) (by simp)

theorem PlantsBare.assignment : PlantsBare assignment := by
  unfold PlantsBare Parser.assignment
  refine .after .advance fun token => .after (.nameOf _) fun target => ?_
  refine .thread (.iterate (fun _ => True) (fun indices => indices.map .expr) [] trivial
    fun indices _ => .indexTurn indices) fun indices _ => .after .peek fun token => ?_
  split
  · refine .after .advance fun _ => .bind .expression fun value _ => ?_
    refine .after (.expectSemi _ _) fun _ => .bare ⟨fun _ => rfl, ?_, ?_⟩ ?_
    · simp [Stmt.parts, StmtHead.parts, StmtHead.blank]
    · simp [SyntaxNode.Shaped, Stmt.callee?]
    · simp [Stmt.parts, StmtHead.parts, StmtHead.blank]
  · exact .after (.expected _) fun _ => .after .abandonStatement fun _ => .notBare

theorem Barren.semicolonAfterBlock : Barren semicolonAfterBlock := by
  refine Barren.peek.bind fun token => (Barren.acceptPunctuation _).bind fun found => ?_
  split
  · exact .report _
  · exact .pure _

section

variable {block : Parser (List Stmt)}

theorem Plants.leafBehind (callee : Name) (arguments : Option (List Argument)) :
    Plants ((arguments.getD []).map Argument.part) (leafBehind callee arguments)
      (fun result => ∀ build ∈ result, Stmt.Pending build)
      fun result => result.toList.flatMap fun build => (build .blank).parts := by
  cases arguments with
  | some arguments =>
      refine .after (.expectSemi _ _) fun _ => .bare ⟨fun _ => rfl, ?_, ?_⟩ ?_
      · simp [Stmt.parts, StmtHead.parts, StmtHead.blank]
      · simp [SyntaxNode.Shaped, Stmt.arguments?]
      · simp [Stmt.parts, StmtHead.parts, StmtHead.blank]
  | none => exact .after (.expectedWithHelp _ _) fun _ => .after .abandonStatement fun _ => .notBare

/-- A node has a list of arguments or a block of children. -/
theorem PlantsBare.node (hblock : Plants [] block (fun _ => True) fun stmts => stmts.map .stmt) :
    PlantsBare (node block) := by
  unfold PlantsBare Parser.node
  refine .after .advance fun token => .after (.nameOf _) fun callee => ?_
  refine .bind .arguments fun arguments _ => .after (.atPunctuation _) fun opens => ?_
  split
  · refine .bind hblock fun children _ => .after .semicolonAfterBlock fun _ => ?_
    refine .bare ⟨fun _ => rfl, ?_, ?_⟩ ?_
    · simp [Stmt.parts, StmtHead.parts, StmtHead.blank]
    · simp [SyntaxNode.Shaped, Stmt.children?]
    · simp [Stmt.parts, StmtHead.parts, StmtHead.blank]
  · exact .leafBehind callee arguments

theorem Barren.unattached (preconditions : List Precondition) (docs : Docs) :
    Barren (unattached preconditions docs) := by
  cases preconditions with
  | nil => exact .danglingDocs _
  | cons first rest => exact .report _

theorem PlantsBare.bareStatement
    (hblock : Plants [] block (fun _ => True) fun stmts => stmts.map .stmt)
    (preconditions : List Precondition) (docs : Docs) :
    PlantsBare (bareStatement block preconditions docs) := by
  unfold PlantsBare Parser.bareStatement
  refine .after .peek fun token => ?_
  split
  · refine .thread (.varParts _) fun parts _ => ?_
    cases parts with
    | none => exact .notBare
    | some parts =>
        refine .bare ⟨fun _ => rfl, ?_, ?_⟩ ?_
        · simp [Stmt.parts, StmtHead.parts, StmtHead.blank]
        · simp [SyntaxNode.Shaped, Stmt.callee?]
        · simp [Stmt.parts, StmtHead.parts, StmtHead.blank, VarParts.parts]
  · refine .thread (.constParts _) fun parts _ => ?_
    cases parts with
    | none => exact .notBare
    | some parts =>
        refine .bare ⟨fun _ => rfl, ?_, ?_⟩ ?_
        · simp [Stmt.parts, StmtHead.parts, StmtHead.blank]
        · simp [SyntaxNode.Shaped, Stmt.callee?]
        · simp [Stmt.parts, StmtHead.parts, StmtHead.blank, ConstParts.parts]
  · split
    · exact .after (.skipForeign _) fun _ => .notBare
    · refine .after (.read _) fun assigns => ?_
      split
      · exact PlantsBare.assignment
      · exact PlantsBare.node hblock
  · exact .after (.unattached _ _) fun _ => .notBare
  · exact .after (.unattached _ _) fun _ => .notBare
  · split
    · exact .after (.unattached _ _) fun _ => .notBare
    · exact .after (.expectedWithHelp _ _) fun _ => .after .abandonStatement fun _ => .notBare

theorem Plants.finishStmt {held : List SyntaxNode} (docs : Docs) (found : List Precondition)
    (start : SourceRange) {build : Option (StmtHead → Stmt)}
    (hbuild : ∀ make ∈ build, Stmt.Pending make ∧
      (found.map Precondition.part ++ (make .blank).parts).Sublist held) :
    Plants held (finishStmt docs found start build) (fun _ => True) fun stmt => stmt.toList.map .stmt := by
  cases build with
  | none => exact .pure trivial (List.nil_sublist _)
  | some make =>
      obtain ⟨hpending, hparts⟩ := hbuild make rfl
      refine .after (.rangeSince _) fun range => ?_
      refine Plants.map (.newStmt (fun origin => ?_) (fun origin => ?_) fun origin => hpending.shaped _)
        (fun _ _ => trivial) (by simp)
      · rw [hpending.parts]
        exact hparts
      · rw [hpending.head]

theorem Plants.statement (hblock : Plants [] block (fun _ => True) fun stmts => stmts.map .stmt) :
    Plants [] (statement block) (fun _ => True) fun stmt => stmt.toList.map .stmt := by
  unfold Parser.statement
  refine .after .docComments fun docs => .bind .preconditions fun found _ => ?_
  refine .after .peek fun token => .bind (PlantsBare.bareStatement hblock found docs) fun result hresult => ?_
  refine .finishStmt docs found _ fun build hbuild => ⟨hresult build hbuild, ?_⟩
  cases hbuild
  simp

end

/-! ### Blocks -/

section

variable {stmt : Parser (Option Stmt)}

theorem Plants.blockTurn
    (hstmt : Plants [] stmt (fun _ => True) fun stmt => stmt.toList.map .stmt)
    (opening : SourceRange) (stmts : List Stmt) :
    Plants (stmts.map .stmt) (blockTurn stmt opening stmts) (fun _ => True)
      fun turn => turn.value.map .stmt := by
  unfold Parser.blockTurn
  refine .after (.acceptPunctuation _) fun closed => ?_
  split
  · exact .pure trivial (List.Sublist.refl _)
  · refine .after .peek fun token => ?_
    split
    · exact .after (.reportOnce _) fun _ => .pure trivial (List.Sublist.refl _)
    · refine .bind (.orStepOver hstmt) fun found _ => .pure trivial ?_
      simp [Turn.value]

theorem Plants.blockOf
    (hstmt : Plants [] stmt (fun _ => True) fun stmt => stmt.toList.map .stmt) :
    Plants [] (blockOf stmt) (fun _ => True) fun stmts => stmts.map .stmt :=
  .after .advance fun token => .iterate (fun _ => True) (fun stmts => stmts.map .stmt) [] trivial
    fun stmts _ => .blockTurn hstmt token.range stmts

end

theorem Plants.blockAlong (levels : List Token) :
    Plants [] (blockAlong levels) (fun _ => True) fun stmts => stmts.map .stmt := by
  induction levels with
  | nil => exact .blockOf (.statement (.pure trivial (List.nil_sublist _)))
  | cons token levels ih => exact .blockOf (.statement ih)

theorem Plants.block : Plants [] block (fun _ => True) fun stmts => stmts.map .stmt :=
  fun base s => Plants.blockAlong s.rest base s

end Parser

end BehaviorTree

/-!
## Programs are planted

Every declaration of a program is a whole tree of the arena, whatever was wrong with the tokens.
-/

namespace BehaviorTree

def DeclHead.blank : DeclHead := ⟨.blank, []⟩

/-- A declaration that waits for its head. -/
structure Decl.Pending (build : DeclHead → Decl) : Prop where
  head : ∀ head, (build head).head = head
  parts : ∀ head, (build head).parts = (build .blank).parts

namespace Parser

/-- The parser returns a declaration that waits for its head, or nothing. -/
def PlantsUnheaded (p : Parser (Option (DeclHead → Decl))) : Prop :=
  Plants [] p (fun result => ∀ build ∈ result, Decl.Pending build)
    fun result => result.toList.flatMap fun build => (build .blank).parts

theorem Plants.unheaded {held : List SyntaxNode} {build : DeclHead → Decl}
    (hbuild : Decl.Pending build) (hparts : (build .blank).parts.Sublist held) :
    Plants held (Pure.pure (some build)) (fun result => ∀ build ∈ result, Decl.Pending build)
      fun result => result.toList.flatMap fun build => (build .blank).parts :=
  .pure (by simpa using hbuild) (by simpa using hparts)

theorem Plants.notUnheaded {held : List SyntaxNode} :
    Plants held (Pure.pure none) (fun result => ∀ build ∈ result, Decl.Pending build)
      fun result => result.toList.flatMap fun build => (build .blank).parts :=
  .pure (by simp) (by simp)

theorem Barren.abandonDecl : Barren abandonDecl :=
  (Barren.synchronize _).bind fun _ => (Barren.acceptPunctuation _).bind fun _ => .pure _

/-! ### Ports and parameters -/

theorem Plants.param (what : String) (set : RecoverySet) :
    Plants [] (param what set) (fun _ => True) fun param => param.toList.flatMap Param.parts := by
  unfold Parser.param
  refine .after .docComments fun docs => .after .peek fun token => ?_
  refine .after .direction fun direction => .after (.expectName _ _) fun found => ?_
  cases found with
  | none => exact .pure trivial (List.Sublist.refl _)
  | some name =>
      refine .after (.expectPunctuation _ _ _) fun typed => ?_
      have hfinish : ∀ type, True → Plants ([] ++ [.type type]) (do
          let default ← Parser.initializer
          return some (Param.mk docs.lines direction name type default
            (← Parser.rangeSince token.range))) (fun _ => True)
            fun param => param.toList.flatMap Param.parts := by
        intro type _
        refine .bind .initializer fun default _ => .after (.rangeSince _) fun range => ?_
        exact .pure trivial (by simp [Param.parts])
      dsimp only
      split
      · exact .bind .typeExpr hfinish
      · exact .bind .missingType hfinish

theorem Plants.paramTurn (what : String) (params : List Param) :
    Plants (params.flatMap Param.parts) (paramTurn what params) (fun _ => True)
      fun turn => turn.value.flatMap Param.parts := by
  unfold Parser.paramTurn
  refine .after (.listGoesOn _ _) fun more => ?_
  split
  · refine .bind (.param _ _) fun found _ => .after (.listContinues _ _ _ _) fun further => ?_
    split
    · exact .pure trivial (by simp [Turn.value])
    · exact .pure trivial (by simp [Turn.value])
  · exact .pure trivial (List.Sublist.refl _)

theorem Plants.paramList (what context : String) :
    Plants [] (paramList what context) (fun _ => True) fun params => params.flatMap Param.parts := by
  unfold Parser.paramList
  refine .after (.expectPunctuation _ _ _) fun opened => ?_
  split
  · exact .iterate (fun _ => True) (fun params => params.flatMap Param.parts) [] trivial
      fun params _ => .paramTurn what params
  · exact .pure trivial (List.Sublist.refl _)

/-! ### Declarations -/

theorem PlantsUnheaded.importDecl : PlantsUnheaded importDecl := by
  unfold PlantsUnheaded Parser.importDecl
  refine .after .advance fun _ => .after .peek fun token => ?_
  split
  · refine .after .advance fun _ => .after (.intern _) fun _ => .after (.expectSemi _ _) fun _ => ?_
    exact .unheaded ⟨fun _ => rfl, fun _ => rfl⟩ (List.nil_sublist _)
  · exact .after (.expectedWithHelp _ _) fun _ => .after .abandonDecl fun _ => .notUnheaded

theorem PlantsUnheaded.nodeDecl (behavior : Option Behavior) : PlantsUnheaded (nodeDecl behavior) := by
  unfold PlantsUnheaded Parser.nodeDecl
  refine .after .advance fun _ => .after .peek fun token => ?_
  split
  · exact .after (.expectedWithHelp _ _) fun _ => .after .abandonDecl fun _ => .notUnheaded
  · refine .after .advance fun _ => .after (.expectName _ _) fun found => ?_
    cases found with
    | none => exact .after .abandonDecl fun _ => .notUnheaded
    | some name =>
        refine .bind (.paramList _ _) fun ports _ => .after (.expectSemi _ _) fun _ => ?_
        exact .unheaded ⟨fun _ => rfl, fun _ => rfl⟩ (List.Sublist.refl _)

theorem PlantsUnheaded.opaqueTypeDecl : PlantsUnheaded opaqueTypeDecl := by
  unfold PlantsUnheaded Parser.opaqueTypeDecl
  refine .after .advance fun _ => .after .advance fun _ => .after (.expectName _ _) fun found => ?_
  cases found with
  | none => exact .after .abandonDecl fun _ => .notUnheaded
  | some name =>
      refine .after (.expectSemi _ _) fun _ => ?_
      exact .unheaded ⟨fun _ => rfl, fun _ => rfl⟩ (List.nil_sublist _)

theorem PlantsUnheaded.typeAliasDecl : PlantsUnheaded typeAliasDecl := by
  unfold PlantsUnheaded Parser.typeAliasDecl
  refine .after .advance fun _ => .after (.expectName _ _) fun found => ?_
  cases found with
  | none => exact .after .abandonDecl fun _ => .notUnheaded
  | some name =>
      refine .after (.expectOperator _ _ _) fun equal => ?_
      have hfinish : ∀ type, True → Plants ([] ++ [.type type]) (do
          Parser.expectSemi "after type alias" .top
          Pure.pure (some (Decl.typeAlias · name type)))
            (fun result => ∀ build ∈ result, Decl.Pending build)
            fun result => result.toList.flatMap fun build => (build .blank).parts := by
        intro type _
        refine .after (.expectSemi _ _) fun _ => ?_
        exact .unheaded ⟨fun _ => rfl, fun _ => rfl⟩ (List.Sublist.refl _)
      dsimp only
      split
      · exact .bind .typeExpr hfinish
      · exact .bind .missingType hfinish

theorem PlantsUnheaded.varDecl : PlantsUnheaded varDecl := by
  refine .thread (.varParts _) fun parts _ => ?_
  cases parts with
  | none => exact .notUnheaded
  | some parts =>
      exact .unheaded ⟨fun _ => rfl, fun _ => rfl⟩ (by simp [VarParts.parts, Decl.parts])

theorem PlantsUnheaded.constDecl : PlantsUnheaded constDecl := by
  refine .thread (.constParts _) fun parts _ => ?_
  cases parts with
  | none => exact .notUnheaded
  | some parts =>
      exact .unheaded ⟨fun _ => rfl, fun _ => rfl⟩ (by simp [ConstParts.parts, Decl.parts])

theorem Plants.treeBody : Plants [] treeBody (fun _ => True) fun body => body.map .stmt := by
  unfold Parser.treeBody
  refine .after (.atPunctuation _) fun opens => ?_
  split
  · exact .block
  · refine .after (.missing _ _ _) fun _ => .after (.synchronize _) fun _ => ?_
    exact .pure trivial (List.Sublist.refl _)

theorem PlantsUnheaded.treeDecl : PlantsUnheaded treeDecl := by
  unfold PlantsUnheaded Parser.treeDecl
  refine .after .advance fun _ => .after (.expectName _ _) fun found => ?_
  cases found with
  | none =>
      refine .after (.atPunctuation _) fun opens => ?_
      split
      · exact .after (.skip _) fun _ => .notUnheaded
      · exact .notUnheaded
  | some name =>
      refine .bind (.paramList _ _) fun params _ => .bind .treeBody fun body _ => ?_
      exact .unheaded ⟨fun _ => rfl, fun _ => rfl⟩ (List.Sublist.refl _)

/-! ### Attributes -/

theorem Barren.policy {α : Type} (what choices : String) (ofSpelling? : String → Option α)
    (set : RecoverySet) : Barren (policy what choices ofSpelling? set) := by
  refine (Barren.expectName _ _).bind fun found => ?_
  cases found with
  | none => exact .pure _
  | some name =>
      dsimp only
      split
      · exact .pure _
      · exact (Barren.report _).bind fun _ => .pure _

theorem Barren.flowPolicy (set : RecoverySet) : Barren (flowPolicy set) := by
  refine (Barren.acceptPunctuation _).bind fun comma => ?_
  split
  · exact .policy _ _ _ _
  · exact .pure _

theorem Barren.policies (set : RecoverySet) : Barren (policies set) := by
  refine (Barren.expectPunctuation _ _ _).bind fun opened => ?_
  split
  · refine (Barren.policy _ _ _ _).bind fun data => (Barren.flowPolicy _).bind fun flow => ?_
    refine (Barren.expectPunctuation _ _ _).bind fun _ => ?_
    split <;> exact .pure _
  · exact .pure _

theorem Barren.attributeBody (set : RecoverySet) : Barren (attributeBody set) := by
  refine (Barren.expectPunctuation _ _ _).bind fun opened => ?_
  split
  · refine (Barren.expectName _ _).bind fun found => ?_
    cases found with
    | none => exact .pure _
    | some name =>
        dsimp only
        split
        · exact .policies _
        · exact (Barren.report _).bind fun _ => (Barren.synchronize _).bind fun _ => .pure _
  · exact .pure _

theorem Barren.attributeHere : Barren attributeHere := by
  refine Barren.peek.bind fun token => (Barren.acceptPunctuation _).bind fun opened => ?_
  split
  · refine (Barren.attributeBody _).bind fun policies => (Barren.expectPunctuation _ _ _).bind fun _ => ?_
    exact (Barren.rangeSince _).bind fun _ => .pure _
  · exact .pure _

/-! ### Programs -/

theorem Plants.finishDecl {result : Option (DeclHead → Decl)} {docs : Docs} {start : SourceRange}
    {attr : Option SourceRange} (hresult : ∀ build ∈ result, Decl.Pending build) :
    Plants (result.toList.flatMap fun build => (build .blank).parts)
      (finishDecl result docs start attr) (fun _ => True) fun decl => decl.toList.map .decl := by
  cases result with
  | none => exact .pure trivial (List.nil_sublist _)
  | some build =>
      have hbuild : Decl.Pending build := hresult build rfl
      refine .after (.rangeSince _) fun own => ?_
      refine Plants.map (.newDecl (fun origin => ?_) fun origin => ?_) (fun _ _ => trivial) (by simp)
      · rw [hbuild.parts]
        simp
      · rw [hbuild.head]

theorem Plants.plainDecl {parser : Parser (Option (DeclHead → Decl))}
    (hparser : PlantsUnheaded parser) (docs : Docs) (attr : Option Attribute) :
    Plants [] (plainDecl parser docs attr) (fun _ => True) fun decl => decl.toList.map .decl := by
  unfold Parser.plainDecl
  refine .after .peek fun token => .thread hparser fun result hresult => ?_
  cases attr with
  | none => exact .finishDecl hresult
  | some attr => exact .after (.report _) fun _ => .finishDecl hresult

theorem Barren.nothingDeclared (docs : Docs) (attr : Option Attribute) :
    Barren (nothingDeclared docs attr) := by
  cases attr with
  | none => exact .danglingDocs _
  | some attr => exact .expected _

theorem Plants.declarationAfter (docs : Docs) (attr : Option Attribute) :
    Plants [] (declarationAfter docs attr) (fun _ => True) fun decl => decl.toList.map .decl := by
  have hnone : Plants [] declarationAfter.noDeclaration (fun _ => True)
      fun decl => decl.toList.map .decl :=
    .after (.expectedWithHelp _ _) fun _ => .after (.synchronize _) fun _ =>
      .pure trivial (List.nil_sublist _)
  unfold Parser.declarationAfter
  refine .after .peek fun token => ?_
  split
  · split
    · exact .after (.skipForeign _) fun _ => .pure trivial (List.nil_sublist _)
    · exact hnone
  · exact .plainDecl .importDecl docs attr
  · refine .after .peekSecond fun second => ?_
    split
    · exact .plainDecl .opaqueTypeDecl docs attr
    · exact .thread (PlantsUnheaded.nodeDecl _) fun _ hresult => .finishDecl hresult
  · exact .plainDecl .typeAliasDecl docs attr
  · exact .plainDecl .varDecl docs attr
  · exact .plainDecl .constDecl docs attr
  · exact .plainDecl .treeDecl docs attr
  · exact .after (.nothingDeclared _ _) fun _ => .pure trivial (List.nil_sublist _)
  · exact hnone

theorem Plants.declaration :
    Plants [] declaration (fun _ => True) fun decl => decl.toList.map .decl :=
  .after .docComments fun docs => .after .attributeHere fun attr => .declarationAfter docs attr

theorem Barren.moduleDocs : Barren moduleDocs := by
  refine .iterate (fun docs => Barren.peek.bind fun token => ?_) []
  split
  · exact Barren.advance.bind fun _ => .pure _
  · exact .pure _

theorem Plants.programTurn (decls : List Decl) :
    Plants (decls.map .decl) (programTurn decls) (fun _ => True) fun turn => turn.value.map .decl := by
  unfold Parser.programTurn
  refine .after .atEnd fun ended => ?_
  split
  · exact .pure trivial (List.Sublist.refl _)
  · refine .bind (.orStepOver .declaration) fun decl _ => .pure trivial ?_
    simp [Turn.value]

/-- **Whatever is parsed stands in the arena.** -/
theorem Plants.program :
    Plants [] program (fun _ => True) fun program => program.decls.map .decl := by
  unfold Parser.program
  refine .after .moduleDocs fun docs => ?_
  refine .thread (.iterate (fun _ => True) (fun decls => decls.map .decl) [] trivial
    fun decls _ => .programTurn decls) fun decls _ => ?_
  exact fun _ _ hheld => ⟨trivial, hheld⟩

end Parser

end BehaviorTree
