import BehaviorTree.Parsing.Declaration
import BehaviorTree.Parsing.Statement
import BehaviorTree.Proofs.Parsing.TermsRespect

/-!
# Statements and programs respect every invariant

The parsers of what statements and declarations are made of respect an invariant, and so do the
parsers of statements and blocks at any depth of nesting, and of programs.
-/

namespace BehaviorTree.Parser

variable {inv : Invariant}

/-! ### Parts of items -/

theorem meets_push {good : Mark → Prop} (hmerge : ∀ {left right : SourceRange}, Meets good left →
      Meets good right → Meets good (left.merge right)) {docs : Docs} {range : SourceRange}
    (line : String) (hdocs : Meets good docs) (hrange : Meets good range) :
    Meets good (docs.push line range) := by
  have hdocs : Meets good docs.range := hdocs
  show Meets good (some ((docs.range.map (·.merge range)).getD range))
  cases hfound : docs.range with
  | none => exact .some hrange
  | some found =>
      rw [hfound] at hdocs
      exact .some (hmerge hdocs.of_some hrange)

theorem Respects.docTurn {docs : Docs} (hdocs : Meets inv.good docs) :
    Respects inv (docTurn docs) := by
  unfold Parser.docTurn
  refine .bind .peek fun token htoken => ?_
  split
  · exact .bind .advance fun _ _ => .pure (meets_push inv.merge _ hdocs htoken.1)
  · exact .bind (.report (.misplacedModuleDoc _) (SyntaxReport.meets_misplacedModuleDoc htoken.1))
      fun _ _ => .bind .advance fun _ _ => .pure hdocs
  · exact .pure hdocs

theorem Respects.docComments : Respects inv docComments := by
  have hnothing : Meets inv.good (none : Option SourceRange) := .none
  exact .iterate (fun _ hdocs => .docTurn hdocs) hnothing

theorem Respects.direction : Respects inv direction := by
  refine .bind .peek fun token _ => ?_
  split
  · exact .bind .advance fun _ _ => .pure (.some trivial)
  · exact .pure .none

theorem Respects.listGoesOn (context : String) (inBody : Bool) :
    Respects inv (listGoesOn context inBody) := by
  refine .bind (.acceptPunctuation _) fun closed _ => ?_
  split
  · exact .pure trivial
  · refine .bind (.listBreaksOff _) fun broken _ => ?_
    split
    · exact .bind (.unclosedList _) fun _ _ => .pure trivial
    · exact .pure trivial

theorem Respects.listContinues (context what : String) (inBody : Bool) (set : RecoverySet) :
    Respects inv (listContinues context what inBody set) := by
  refine .bind (.acceptPunctuation _) fun comma _ => ?_
  split
  · exact .pure trivial
  · refine .bind (.listGoesOn _ _) fun more _ => ?_
    split
    · refine .bind (.expected _) fun _ _ => .bind (.synchronize _) fun _ _ => ?_
      refine .bind (.acceptPunctuation _) fun comma _ => ?_
      split
      · exact .pure trivial
      · exact .bind (.acceptPunctuation _) fun _ _ => .pure trivial
    · exact .pure trivial

theorem Respects.declaredType : Respects inv declaredType := by
  refine .bind (.acceptPunctuation _) fun declared _ => ?_
  split
  · exact Respects.typeExpr.mapSome
  · exact .pure .none

theorem Respects.initializer : Respects inv initializer := by
  refine .bind (.acceptOperator _) fun initialized _ => ?_
  split
  · exact Respects.expression.mapSome
  · exact .pure .none

theorem Begins.varParts (set : RecoverySet) : Begins inv (varParts set) := by
  unfold Parser.varParts
  refine .advance fun _ _ => .bind (.expectName _ _) fun found hfound => ?_
  cases found with
  | none => exact .bind (.acceptPunctuation _) fun _ _ => .pure .none
  | some name =>
      refine .bind .declaredType fun type htype => .bind .initializer fun init hinit => ?_
      exact .bind (.expectSemi _ _) fun _ _ => .pure (.some ⟨hfound.of_some, htype, hinit⟩)

theorem Begins.constParts (set : RecoverySet) : Begins inv (constParts set) := by
  unfold Parser.constParts
  refine .advance fun _ _ => .bind (.expectName _ _) fun found hfound => ?_
  cases found with
  | none => exact .bind (.acceptPunctuation _) fun _ _ => .pure .none
  | some name =>
      refine .bind .declaredType fun type htype => .bind (.expectOperator _ _ _) fun equal _ => ?_
      have hfinish : ∀ value, Meets inv.good value → Respects inv (do
          Parser.expectSemi "after constant declaration" set
          Pure.pure (some (ConstParts.mk name type value))) :=
        fun value hvalue => .bind (.expectSemi _ _) fun _ _ =>
          .pure (.some ⟨hfound.of_some, htype, hvalue⟩)
      dsimp only
      split
      · exact .bind .expression hfinish
      · exact .bind .missingExpr hfinish

/-! ### Parts of statements -/

theorem Respects.preconditionBehind {found : List Precondition} {start : SourceRange}
    (kind : Option PreconditionKind) (hfound : Meets inv.good found)
    (hstart : Meets inv.good start) : Respects inv (preconditionBehind found start kind) := by
  unfold Parser.preconditionBehind Parser.preconditionClosed
  refine .bind (.expectPunctuation _ _ _) fun entered _ => ?_
  split
  · refine .bind .expression fun condition hcondition => ?_
    refine .bind (.expectPunctuation _ _ _) fun _ _ => .bind (.rangeSince hstart) fun range hrange => ?_
    split
    · exact .pure (Meets.append hfound (.singleton ⟨hcondition, hrange⟩))
    · exact .pure hfound
  · exact .pure hfound

theorem Respects.preconditionTurn {found : List Precondition} (hfound : Meets inv.good found) :
    Respects inv (preconditionTurn found) := by
  unfold Parser.preconditionTurn
  refine .bind .peek fun token htoken => .bind (.acceptPunctuation _) fun opened _ => ?_
  split
  · refine .bind (.expectName _ _) fun name hname => ?_
    cases name with
    | none => exact .bind (.acceptPunctuation _) fun _ _ => .pure hfound
    | some name =>
        have hbehind := Respects.preconditionBehind (PreconditionKind.ofSpelling? name.text)
          hfound htoken.1
        have hrange : Meets inv.good name.range := hname.of_some.1
        dsimp only
        split
        · exact .bind (.report (.unknownPrecondition _ _)
            (SyntaxReport.meets_unknownPrecondition _ hrange)) fun _ _ => hbehind
        · exact hbehind
  · exact .pure hfound

theorem Respects.preconditions : Respects inv preconditions :=
  .iterate (fun _ hfound => .preconditionTurn hfound) .nil

theorem Respects.argumentName : Respects inv argumentName := by
  refine .bind .peek fun token htoken => .bind .peekSecond fun second _ => ?_
  split
  · refine .bind .advance fun _ _ => .bind .advance fun _ _ => ?_
    exact (Respects.nameOf htoken).mapSome
  · exact .pure .none

theorem Respects.argument : Respects inv argument := by
  unfold Parser.argument
  refine .bind .peek fun token htoken => .bind .argumentName fun name hname => ?_
  refine .bind .direction fun direction _ => .bind .expression fun value hvalue => ?_
  exact .bind (.rangeSince htoken.1) fun range hrange => .pure ⟨hname, hvalue, hrange⟩

theorem Respects.argumentTurn {arguments : List Argument} (harguments : Meets inv.good arguments) :
    Respects inv (argumentTurn arguments) := by
  unfold Parser.argumentTurn
  refine .bind (.listGoesOn _ _) fun more _ => ?_
  split
  · refine .bind .argument fun argument hargument => ?_
    have hmore := Meets.append harguments (.singleton hargument)
    refine .bind (.listContinues _ _ _ _) fun further _ => ?_
    split
    · exact .pure hmore
    · exact .pure hmore
  · exact .pure harguments

theorem Respects.arguments : Respects inv arguments := by
  have hloop : Respects inv (Parser.iterate Parser.argumentTurn []) :=
    .iterate (fun _ harguments => .argumentTurn harguments) .nil
  refine .bind (.acceptPunctuation _) fun opened _ => ?_
  split
  · exact hloop.mapSome
  · exact .pure .none

theorem Respects.indexTurn {indices : List Expr} (hindices : Meets inv.good indices) :
    Respects inv (indexTurn indices) := by
  unfold Parser.indexTurn
  refine .bind (.acceptPunctuation _) fun opened _ => ?_
  split
  · refine .bind .expression fun position hposition => ?_
    have hmore := Meets.append hindices (.singleton hposition)
    refine .bind (.acceptPunctuation _) fun closed _ => ?_
    split
    · exact .pure hmore
    · refine .bind .peek fun next _ => ?_
      split
      · exact .bind (.expected _) fun _ _ => .pure hmore
      · exact .bind (.expectPunctuation _ _ _) fun _ _ => .pure hmore
  · exact .pure hindices

theorem Respects.abandonStatement : Respects inv abandonStatement :=
  .bind (.synchronize _) fun _ _ => .bind (.acceptPunctuation _) fun _ _ => .pure trivial

/-! ### Statements -/

theorem Begins.assignment : Begins inv assignment := by
  unfold Parser.assignment
  refine .advance fun token htoken => .bind (.nameOf htoken) fun target htarget => ?_
  refine .bind (.iterate (fun _ hindices => .indexTurn hindices) .nil) fun indices hindices => ?_
  refine .bind .peek fun token _ => ?_
  split
  · refine .bind .advance fun _ _ => .bind .expression fun value hvalue => ?_
    refine .bind (.expectSemi _ _) fun _ _ => ?_
    exact .pure (.some fun _ hhead => ⟨hhead, htarget, hindices, hvalue⟩)
  · exact .bind (.expected _) fun _ _ => .bind .abandonStatement fun _ _ => .pure .none

theorem Respects.assignment : Respects inv assignment := Begins.assignment.respects

theorem Respects.semicolonAfterBlock : Respects inv semicolonAfterBlock := by
  refine .bind .peek fun token htoken => .bind (.acceptPunctuation _) fun found _ => ?_
  split
  · exact .report (.semicolonAfterBlock _) (SyntaxReport.meets_semicolonAfterBlock htoken.1)
  · exact .pure trivial

theorem Respects.unattached {preconditions : List Precondition} {docs : Docs}
    (hpreconditions : Meets inv.good preconditions) (hdocs : Meets inv.good docs) :
    Respects inv (unattached preconditions docs) := by
  cases preconditions with
  | nil => exact .danglingDocs hdocs
  | cons first rest =>
      have hfirst : Meets inv.good first := hpreconditions first List.mem_cons_self
      exact .report (.unattachedPrecondition _) (SyntaxReport.meets_unattachedPrecondition hfirst.2)

theorem Respects.leafBehind {callee : Name} {arguments : Option (List Argument)}
    (hcallee : Meets inv.good callee) (harguments : Meets inv.good arguments) :
    Respects inv (leafBehind callee arguments) := by
  cases arguments with
  | some arguments =>
      refine .bind (.expectSemi _ _) fun _ _ => ?_
      exact .pure (.some fun _ hhead => ⟨hhead, hcallee, harguments.of_some⟩)
  | none =>
      exact .bind (.expectedWithHelp _ _) fun _ _ => .bind .abandonStatement fun _ _ => .pure .none

section

variable {block : Parser (List Stmt)} (hblock : Respects inv block)
include hblock

theorem Begins.node : Begins inv (node block) := by
  unfold Parser.node
  refine .advance fun token htoken => .bind (.nameOf htoken) fun callee hcallee => ?_
  refine .bind .arguments fun arguments harguments => .bind (.atPunctuation _) fun opens _ => ?_
  split
  · refine .bind hblock fun children hchildren => .bind .semicolonAfterBlock fun _ _ => ?_
    exact .pure (.some fun _ hhead =>
      ⟨hhead, hcallee, harguments, Stmt.allMeet_iff.mpr hchildren⟩)
  · exact .leafBehind hcallee harguments

theorem Respects.node : Respects inv (node block) := (Begins.node hblock).respects

theorem Respects.bareStatement {preconditions : List Precondition} {docs : Docs}
    (hpreconditions : Meets inv.good preconditions) (hdocs : Meets inv.good docs) :
    Respects inv (bareStatement block preconditions docs) := by
  unfold Parser.bareStatement
  refine .bind .peek fun token _ => ?_
  split
  · refine .bind (Begins.varParts _).respects fun parts hparts => .pure (hparts.map fun found hfound => ?_)
    exact fun _ hhead => ⟨hhead, hfound⟩
  · refine .bind (Begins.constParts _).respects fun parts hparts => .pure (hparts.map fun found hfound => ?_)
    exact fun _ hhead => ⟨hhead, hfound⟩
  · split
    · exact .bind (.skipForeign _) fun _ _ => .pure .none
    · refine .bind (.read fun _ _ => trivial) fun assigns _ => ?_
      split
      · exact .assignment
      · exact .node hblock
  · exact .bind (.unattached hpreconditions hdocs) fun _ _ => .pure .none
  · exact .bind (.unattached hpreconditions hdocs) fun _ _ => .pure .none
  · split
    · exact .bind (.unattached hpreconditions hdocs) fun _ _ => .pure .none
    · exact .bind (.expectedWithHelp _ _) fun _ _ => .bind .abandonStatement fun _ _ => .pure .none

omit hblock in
theorem Respects.finishStmt (docs : Docs) {found : List Precondition} {start : SourceRange}
    {build : Option (StmtHead → Stmt)} (hfound : Meets inv.good found) (hstart : Meets inv.good start)
    (hbuild : Meets inv.good build) : Respects inv (finishStmt docs found start build) := by
  cases build with
  | none => exact .pure .none
  | some build =>
      refine .bind (.rangeSince hstart) fun range hrange => ?_
      refine (Respects.newStmt hrange fun origin horigin => ?_).mapSome
      exact hbuild.of_some _ ⟨horigin, hfound⟩

theorem Respects.statementBehind {docs : Docs} {found : List Precondition}
    (hdocs : Meets inv.good docs) (hfound : Meets inv.good found) :
    Respects inv (statementBehind block docs found) := by
  refine .bind .peek fun token htoken => ?_
  have hstart : Meets inv.good ((found.head?.map Precondition.range).getD token.range) := by
    cases found with
    | nil => exact htoken.1
    | cons first rest => exact (hfound first List.mem_cons_self).2
  exact .bind (.bareStatement hblock hfound hdocs) fun _ hbuild => .finishStmt docs hfound hstart hbuild

theorem Respects.statement : Respects inv (statement block) :=
  .bind .docComments fun _ hdocs => .bind .preconditions fun _ hfound =>
    .statementBehind hblock hdocs hfound

end

/-! ### Blocks -/

section

variable {stmt : Parser (Option Stmt)} (hstmt : Respects inv stmt)
include hstmt

theorem Respects.blockTurn {opening : SourceRange} {stmts : List Stmt}
    (hopening : Meets inv.good opening) (hstmts : Meets inv.good stmts) :
    Respects inv (blockTurn stmt opening stmts) := by
  have hgoes : Respects inv (do
      let stmt ← Parser.orStepOver stmt (·.isPunctuation .rBrace)
      Pure.pure (Turn.again (stmts ++ stmt.toList))) :=
    .bind (.orStepOver hstmt) fun found hfound => .pure (Meets.append hstmts hfound.toList)
  unfold Parser.blockTurn
  refine .bind (.acceptPunctuation _) fun closed _ => ?_
  split
  · exact .pure hstmts
  · refine .peekHere fun s hs => ?_
    split
    · exact ⟨hstmts, inv.reportOnce hs (.unclosedBlock opening)
        (SyntaxReport.meets_unclosedBlock (inv.token hs 0) hopening)⟩
    · exact hgoes s hs

theorem Respects.blockOf : Respects inv (blockOf stmt) :=
  .bind .advance fun _ htoken =>
    .iterate (fun _ hstmts => .blockTurn hstmt htoken.1 hstmts) .nil

end

theorem Respects.blockAlong (levels : List Token) : Respects inv (blockAlong levels) := by
  induction levels with
  | nil => exact .blockOf (.statement (.pure .nil))
  | cons token levels ih => exact .blockOf (.statement ih)

theorem Respects.block : Respects inv block := fun s hs => Respects.blockAlong s.rest s hs

end BehaviorTree.Parser

/-!
## Programs respect every invariant

Whatever outlasts moving on, reporting and enlarging the arena holds behind every program.
-/

namespace BehaviorTree.Parser

variable {inv : Invariant}

theorem Respects.abandonDecl : Respects inv abandonDecl :=
  .bind (.synchronize _) fun _ _ => .bind (.acceptPunctuation _) fun _ _ => .pure trivial

/-! ### Ports and parameters -/

theorem Respects.param (what : String) (set : RecoverySet) : Respects inv (param what set) := by
  unfold Parser.param
  refine .bind .docComments fun docs _ => .bind .peek fun token htoken => ?_
  refine .bind .direction fun direction _ => .bind (.expectName _ _) fun found hfound => ?_
  cases found with
  | none => exact .pure .none
  | some name =>
      refine .bind (.expectPunctuation _ _ _) fun typed _ => ?_
      have hfinish : ∀ type, Meets inv.good type → Respects inv (do
          let default ← Parser.initializer
          return some (Param.mk docs.lines direction name type default
            (← Parser.rangeSince token.range))) := by
        intro type htype
        refine .bind .initializer fun default hdefault => ?_
        refine .bind (.rangeSince htoken.1) fun range hrange => ?_
        exact .pure (.some ⟨hfound.of_some, htype, hdefault, hrange⟩)
      dsimp only
      split
      · exact .bind .typeExpr hfinish
      · exact .bind .missingType hfinish

theorem Respects.paramTurn (what : String) {params : List Param} (hparams : Meets inv.good params) :
    Respects inv (paramTurn what params) := by
  unfold Parser.paramTurn
  refine .bind (.listGoesOn _ _) fun more _ => ?_
  split
  · refine .bind (.param _ _) fun found hfound => ?_
    have hmore := Meets.append hparams hfound.toList
    refine .bind (.listContinues _ _ _ _) fun further _ => ?_
    split
    · exact .pure hmore
    · exact .pure hmore
  · exact .pure hparams

theorem Respects.paramList (what context : String) : Respects inv (paramList what context) := by
  unfold Parser.paramList
  refine .bind (.expectPunctuation _ _ _) fun opened _ => ?_
  split
  · exact .iterate (fun _ hparams => .paramTurn what hparams) .nil
  · exact .pure .nil

/-! ### Declarations -/

theorem Begins.importDecl : Begins inv importDecl := by
  unfold Parser.importDecl
  refine .advance fun _ _ => .bind .peek fun token htoken => ?_
  split
  · refine .bind .advance fun _ _ => .bind (.intern _) fun _ _ => .bind (.expectSemi _ _) fun _ _ => ?_
    exact .pure (.some fun _ hhead => ⟨hhead, htoken.1⟩)
  · exact .bind (.expectedWithHelp _ _) fun _ _ => .bind .abandonDecl fun _ _ => .pure .none

theorem Begins.nodeDecl {behavior : Option Behavior} (hbehavior : Meets inv.good behavior) :
    Begins inv (nodeDecl behavior) := by
  unfold Parser.nodeDecl
  refine .advance fun _ _ => .bind .peek fun token _ => ?_
  split
  · exact .bind (.expectedWithHelp _ _) fun _ _ => .bind .abandonDecl fun _ _ => .pure .none
  · refine .bind .advance fun _ _ => .bind (.expectName _ _) fun found hfound => ?_
    cases found with
    | none => exact .bind .abandonDecl fun _ _ => .pure .none
    | some name =>
        refine .bind (.paramList _ _) fun ports hports => .bind (.expectSemi _ _) fun _ _ => ?_
        exact .pure (.some fun _ hhead => ⟨hhead, hfound.of_some, hports, hbehavior⟩)

theorem Begins.opaqueTypeDecl : Begins inv opaqueTypeDecl := by
  unfold Parser.opaqueTypeDecl
  refine .advance fun _ _ => .bind .advance fun _ _ => ?_
  refine .bind (.expectName _ _) fun found hfound => ?_
  cases found with
  | none => exact .bind .abandonDecl fun _ _ => .pure .none
  | some name =>
      exact .bind (.expectSemi _ _) fun _ _ => .pure (.some fun _ hhead => ⟨hhead, hfound.of_some⟩)

theorem Begins.typeAliasDecl : Begins inv typeAliasDecl := by
  unfold Parser.typeAliasDecl
  refine .advance fun _ _ => .bind (.expectName _ _) fun found hfound => ?_
  cases found with
  | none => exact .bind .abandonDecl fun _ _ => .pure .none
  | some name =>
      refine .bind (.expectOperator _ _ _) fun equal _ => ?_
      have hfinish : ∀ type, Meets inv.good type → Respects inv (do
          Parser.expectSemi "after type alias" .top
          Pure.pure (some (Decl.typeAlias · name type))) :=
        fun type htype => .bind (.expectSemi _ _) fun _ _ =>
          .pure (.some fun _ hhead => ⟨hhead, hfound.of_some, htype⟩)
      dsimp only
      split
      · exact .bind .typeExpr hfinish
      · exact .bind .missingType hfinish

theorem Begins.varDecl : Begins inv varDecl :=
  .bind (.varParts _) fun _ hparts => .pure (hparts.map fun _ hfound _ hhead => ⟨hhead, hfound⟩)

theorem Begins.constDecl : Begins inv constDecl :=
  .bind (.constParts _) fun _ hparts => .pure (hparts.map fun _ hfound _ hhead => ⟨hhead, hfound⟩)

theorem Respects.treeBody : Respects inv treeBody := by
  unfold Parser.treeBody
  refine .bind (.atPunctuation _) fun opens _ => ?_
  split
  · exact .block
  · exact .bind (.missing _ _ _) fun _ _ => .bind (.synchronize _) fun _ _ => .pure .nil

theorem Begins.treeDecl : Begins inv treeDecl := by
  unfold Parser.treeDecl
  refine .advance fun _ _ => .bind (.expectName _ _) fun found hfound => ?_
  cases found with
  | none =>
      refine .bind (.atPunctuation _) fun opens _ => ?_
      split
      · exact .bind (.skip Skip.stops_group) fun _ _ => .pure .none
      · exact .pure .none
  | some name =>
      refine .bind (.paramList _ _) fun params hparams => .bind .treeBody fun body hbody => ?_
      exact .pure (.some fun _ hhead => ⟨hhead, hfound.of_some, hparams, hbody⟩)

/-! ### Attributes -/

theorem Respects.policy {α : Type} [Marked α] (what choices : String)
    {ofSpelling? : String → Option α} (hpolicy : ∀ policy : α, Meets inv.good policy)
    (set : RecoverySet) : Respects inv (policy what choices ofSpelling? set) := by
  unfold Parser.policy
  refine .bind (.expectName _ _) fun found hfound => ?_
  cases found with
  | none => exact .pure .none
  | some name =>
      dsimp only
      split
      · exact .pure (.some (hpolicy _))
      · exact .bind (.report (.unknownPolicy _ _ _ _)
          (SyntaxReport.meets_unknownPolicy _ _ _ hfound.of_some.1)) fun _ _ => .pure .none

theorem Respects.flowPolicy (set : RecoverySet) : Respects inv (flowPolicy set) := by
  have hflow : ∀ policy : FlowPolicy, Meets inv.good policy := fun _ => trivial
  unfold Parser.flowPolicy
  refine .bind (.acceptPunctuation _) fun comma _ => ?_
  split
  · exact .policy _ _ hflow _
  · exact .pure (.some trivial)

theorem Respects.policies (set : RecoverySet) : Respects inv (policies set) := by
  have hdata : ∀ policy : DataPolicy, Meets inv.good policy := fun _ => trivial
  unfold Parser.policies
  refine .bind (.expectPunctuation _ _ _) fun opened _ => ?_
  split
  · refine .bind (.policy _ _ hdata _) fun data _ => .bind (.flowPolicy _) fun flow _ => ?_
    refine .bind (.expectPunctuation _ _ _) fun _ _ => ?_
    split
    · exact .pure (.some ⟨trivial, trivial⟩)
    · exact .pure .none
  · exact .pure .none

theorem Respects.attributeBody (set : RecoverySet) : Respects inv (attributeBody set) := by
  unfold Parser.attributeBody
  refine .bind (.expectPunctuation _ _ _) fun opened _ => ?_
  split
  · refine .bind (.expectName _ _) fun found hfound => ?_
    cases found with
    | none => exact .pure .none
    | some name =>
        dsimp only
        split
        · exact .policies _
        · refine .bind (.report (.unknownAttribute _ _)
            (SyntaxReport.meets_unknownAttribute _ hfound.of_some.1)) fun _ _ => ?_
          exact .bind (.synchronize _) fun _ _ => .pure .none
  · exact .pure .none

theorem Respects.attributeBehind {start : SourceRange} (hstart : Meets inv.good start)
    (set : RecoverySet) : Respects inv (attributeBehind start set) := by
  refine .bind (.attributeBody _) fun policies hpolicies => ?_
  refine .bind (.expectPunctuation _ _ _) fun _ _ => .bind (.rangeSince hstart) fun range hrange => ?_
  exact .pure (.some ⟨hpolicies.map fun _ _ => hrange, hrange⟩)

theorem Respects.attributeHere : Respects inv attributeHere := by
  unfold Parser.attributeHere
  refine .bind .peek fun token htoken => .bind (.acceptPunctuation _) fun opened _ => ?_
  split
  · exact .attributeBehind htoken.1 _
  · exact .pure .none

/-! ### Programs -/

theorem Respects.finishDecl {build : Option (DeclHead → Decl)} {docs : Docs} {start : SourceRange}
    {attr : Option SourceRange} (hbuild : Meets inv.good build) (hstart : Meets inv.good start)
    (hattr : Meets inv.good attr) : Respects inv (finishDecl build docs start attr) := by
  cases build with
  | none => exact .pure .none
  | some build =>
      refine .bind (.rangeSince hstart) fun own hown => ?_
      have hrange : Meets inv.good ((attr.map (·.merge own)).getD own) := by
        cases attr with
        | none => exact hown
        | some attr => exact inv.merge hattr.of_some hown
      refine (Respects.newDecl hrange fun origin horigin => ?_).mapSome
      exact hbuild.of_some ⟨origin, docs.lines⟩ horigin

theorem Begins.plainDecl {parser : Parser (Option (DeclHead → Decl))}
    (hparser : Begins inv parser) (docs : Docs) {attr : Option Attribute}
    (hattr : Meets inv.good attr) : Begins inv (plainDecl parser docs attr) := by
  unfold Parser.plainDecl
  refine .peek fun token htoken => .bind hparser fun build hbuild => ?_
  cases attr with
  | none => exact .finishDecl hbuild htoken.1 .none
  | some attr =>
      refine .bind (.report (.misplacedAttribute _)
        (SyntaxReport.meets_misplacedAttribute hattr.of_some.2)) fun _ _ => ?_
      exact .finishDecl hbuild htoken.1 .none

/-- A node from outside, together with the attribute in front of it. -/
theorem Begins.finishedNodeDecl {token : Token} (docs : Docs) {attr : Option Attribute}
    (htoken : Meets inv.good token) (hattr : Meets inv.good attr) : Begins inv (do
      let build ← Parser.nodeDecl (attr.bind Attribute.behavior)
      Parser.finishDecl build docs token.range (attr.map Attribute.range)) := by
  have hbehavior : Meets inv.good (attr.bind Attribute.behavior) := by
    cases attr with
    | none => exact .none
    | some attr => exact hattr.of_some.1
  refine .bind (.nodeDecl hbehavior) fun build hbuild => ?_
  exact .finishDecl hbuild htoken.1 (hattr.map fun _ hfound => hfound.2)

theorem Respects.nothingDeclared {docs : Docs} (hdocs : Meets inv.good docs)
    (attr : Option Attribute) : Respects inv (nothingDeclared docs attr) := by
  cases attr with
  | none => exact .danglingDocs hdocs
  | some attr => exact .expected _

theorem Respects.noDeclaration : Respects inv declarationAfter.noDeclaration :=
  .bind (.expectedWithHelp _ _) fun _ _ => .bind (.synchronize _) fun _ _ => .pure .none

theorem Respects.declarationAfter {docs : Docs} {attr : Option Attribute}
    (hdocs : Meets inv.good docs) (hattr : Meets inv.good attr) :
    Respects inv (declarationAfter docs attr) := by
  unfold Parser.declarationAfter
  refine .bind .peek fun token htoken => ?_
  split
  · split
    · exact .bind (.skipForeign _) fun _ _ => .pure .none
    · exact .noDeclaration
  · exact (Begins.plainDecl .importDecl docs hattr).respects
  · refine .bind .peekSecond fun second _ => ?_
    split
    · exact (Begins.plainDecl .opaqueTypeDecl docs hattr).respects
    · exact (Begins.finishedNodeDecl docs htoken hattr).respects
  · exact (Begins.plainDecl .typeAliasDecl docs hattr).respects
  · exact (Begins.plainDecl .varDecl docs hattr).respects
  · exact (Begins.plainDecl .constDecl docs hattr).respects
  · exact (Begins.plainDecl .treeDecl docs hattr).respects
  · exact .bind (.nothingDeclared hdocs attr) fun _ _ => .pure .none
  · exact .noDeclaration

theorem Respects.declaration : Respects inv declaration :=
  .bind .docComments fun _ hdocs => .bind .attributeHere fun _ hattr => .declarationAfter hdocs hattr

theorem Respects.moduleDocs : Respects inv moduleDocs := by
  refine .iterate (fun docs hdocs => .bind .peek fun token _ => ?_) .nil
  split
  · exact .bind .advance fun _ _ => .pure (Meets.append hdocs (.singleton trivial))
  · exact .pure hdocs

theorem Respects.programTurn {decls : List Decl} (hdecls : Meets inv.good decls) :
    Respects inv (programTurn decls) := by
  unfold Parser.programTurn
  refine .bind .atEnd fun ended _ => ?_
  split
  · exact .pure hdecls
  · refine .bind (.orStepOver .declaration) fun decl hdecl => ?_
    exact .pure (Meets.append hdecls hdecl.toList)

/-- **Every program respects every invariant.** -/
theorem Respects.program : Respects inv program := by
  unfold Parser.program
  refine .bind .moduleDocs fun docs _ => ?_
  refine .bind (.iterate (fun _ hdecls => .programTurn hdecls) .nil) fun decls hdecls => ?_
  exact .read fun _ hs => ⟨inv.whole hs, hdecls⟩

end BehaviorTree.Parser
