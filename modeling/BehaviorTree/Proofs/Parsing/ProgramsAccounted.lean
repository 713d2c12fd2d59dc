import BehaviorTree.Parsing.Declaration
import BehaviorTree.Proofs.Parsing.StatementsAccounted

/-!
# Programs are accounted for

Declarations and whole programs. In the program of a text no stamp occurs twice: its nodes have
numbers of their own, and its names stand at places of their own in the text.
-/

namespace BehaviorTree

namespace SyntaxReport

theorem hasCode_misplacedAttribute (range : SourceRange) :
    (misplacedAttribute range).HasCodeIn codes :=
  ⟨Code.unknownAttribute, by simp [codes], rfl⟩

theorem hasCode_unknownAttribute (name : String) (range : SourceRange) :
    (unknownAttribute name range).HasCodeIn codes :=
  ⟨Code.unknownAttribute, by simp [codes], rfl⟩

theorem hasCode_unknownPolicy (what name choices : String) (range : SourceRange) :
    (unknownPolicy what name choices range).HasCodeIn codes :=
  ⟨Code.unknownAttribute, by simp [codes], rfl⟩

end SyntaxReport

namespace Parser

open Ledger

variable {ledger : Ledger} {gained : Nat} {s : ParserState}

/-! ### Parts of declarations -/

theorem Clean.abandonDecl : Clean ledger abandonDecl := by
  apply Clean.bind (Clean.synchronize _)
  intro _
  exact Clean.bind (Clean.acceptPunctuation _) fun _ => Clean.pure _

theorem Clean.expectName (what : String) (set : RecoverySet) : Clean ledger (expectName what set) :=
  fun _ => (Accounts.expectName what set).clean

theorem Clean.policy {α : Type} (what choices : String) (ofSpelling? : String → Option α)
    (set : RecoverySet) : Clean ledger (policy what choices ofSpelling? set) := by
  apply Clean.bind (Clean.expectName _ _)
  intro name
  split
  · exact Clean.pure _
  · split
    · exact Clean.pure _
    · apply Clean.bind (Clean.report (SyntaxReport.hasCode_unknownPolicy _ _ _ _))
      intro _
      exact Clean.pure _

theorem Clean.flowPolicy (set : RecoverySet) : Clean ledger (flowPolicy set) := by
  apply Clean.bind (Clean.acceptPunctuation _)
  intro comma
  split
  · exact Clean.policy _ _ _ _
  · exact Clean.pure _

theorem Clean.policies (set : RecoverySet) : Clean ledger (policies set) := by
  apply Clean.bind (Clean.expectPunctuation _ _ _)
  intro opened
  split
  · apply Clean.bind (Clean.policy _ _ _ _)
    intro data
    apply Clean.bind (Clean.flowPolicy _)
    intro flow
    apply Clean.bind (Clean.expectPunctuation _ _ _)
    intro _
    split <;> exact Clean.pure _
  · exact Clean.pure _

theorem Clean.attributeBody (set : RecoverySet) : Clean ledger (attributeBody set) := by
  apply Clean.bind (Clean.expectPunctuation _ _ _)
  intro opened
  split
  · apply Clean.bind (Clean.expectName _ _)
    intro name
    split
    · exact Clean.pure _
    · split
      · exact Clean.policies _
      · apply Clean.bind (Clean.report (SyntaxReport.hasCode_unknownAttribute _ _))
        intro _
        exact Clean.bind (Clean.synchronize _) fun _ => Clean.pure _
  · exact Clean.pure _

theorem Clean.attributeHere : Clean ledger attributeHere := by
  apply Clean.bind Clean.peek
  intro token
  apply Clean.bind (Clean.acceptPunctuation _)
  intro hash
  split
  · apply Clean.bind (Clean.attributeBody _)
    intro policies
    apply Clean.bind (Clean.expectPunctuation _ _ _)
    intro _
    exact Clean.bind (Clean.rangeSince _) fun _ => Clean.pure _
  · exact Clean.pure _

theorem Clean.nothingDeclared (docs : Docs) (attr : Option Attribute) :
    Clean ledger (nothingDeclared docs attr) := by
  cases attr with
  | some attr => exact Clean.expected _
  | none => exact Clean.danglingDocs _

def paramsStamps (params : List Param) : List Stamp := params.flatMap Param.stamps

theorem Accounts.param (what : String) (set : RecoverySet) :
    Accounts ledger 0 (param what set) s
      (ledger.Covers fun param => paramsStamps param.toList) := by
  apply Accounts.after Clean.docComments
  intro docs s'
  apply Accounts.after Clean.peek
  intro token s''
  apply Accounts.after Clean.direction
  intro direction s₃
  apply Accounts.bind (Accounts.expectName _ _)
  intro name n s₄ hname
  cases name with
  | none => exact Accounts.pure (Nat.zero_le _)
  | some name =>
      have hfinish : ∀ type m s₅, ledger.Covers TypeExpr.stamps type m →
          Accounts ledger (0 + n + m) (do
            let default ← Parser.initializer
            return some (Param.mk docs.lines direction name type default
              (← Parser.rangeSince token.range))) s₅
            (ledger.Covers fun param => paramsStamps param.toList) := by
        intro type m s₅ htype
        apply Accounts.bind Accounts.initializer
        intro default k s₆ hdefault
        apply Accounts.after (Clean.rangeSince _)
        intro range s₇
        apply Accounts.pure
        unfold Covers at hname htype hdefault ⊢
        simp [nameStamps, paramsStamps] at hname hdefault ⊢
        omega
      apply Accounts.after (Clean.expectPunctuation _ _ _)
      intro colon s₅
      split
      · exact Accounts.bind Accounts.typeExpr hfinish
      · exact Accounts.bind Accounts.missingType hfinish

theorem Accounts.paramTurn (what : String) {params : List Param}
    (hparams : ledger.Covers paramsStamps params gained) :
    Accounts ledger gained (paramTurn what params) s
      (Turn.Accounted (ledger.Covers paramsStamps)) := by
  apply Accounts.after (Clean.listGoesOn _ _)
  intro goesOn s'
  split
  · apply Accounts.bind (Accounts.param _ _)
    intro param n s'' hparam
    have hlonger : ledger.Covers paramsStamps (params ++ param.toList) (gained + n) := by
      unfold Covers paramsStamps at hparams ⊢
      simp only [Covers, paramsStamps] at hparam
      simp only [List.flatMap_append, count_append]
      omega
    apply Accounts.after (Clean.listContinues _ _ _ _)
    intro continues s₃
    split
    · exact Accounts.pure hlonger
    · exact Accounts.pure hlonger
  · exact Accounts.pure hparams

theorem Accounts.paramList (what context : String) :
    Accounts ledger 0 (paramList what context) s (ledger.Covers paramsStamps) := by
  apply Accounts.after (Clean.expectPunctuation _ _ _)
  intro opened s'
  split
  · apply Accounts.iterate
    · exact Nat.zero_le _
    · intro params n s'' hparams
      exact Accounts.paramTurn what hparams
  · exact Accounts.pure (Nat.zero_le _)

/-! ### Declarations -/

/-- A way to make a declaration, if there is one: apart from its number it is paid for. -/
def MayBuildDecl (ledger : Ledger) (build : Option (DeclHead → Decl)) (n : Nat) : Prop :=
  ∀ make ∈ build, ∀ head : DeclHead,
    ledger.count (make head).stamps ≤ n + ledger.one (.node .decl head.origin.id)

theorem mayBuildDecl_none {n : Nat} : MayBuildDecl ledger none n := by
  intro make hmake
  cases hmake

theorem mayBuildDecl_some {make : DeclHead → Decl} {n : Nat}
    (hmake : ∀ head : DeclHead,
      ledger.count (make head).stamps ≤ n + ledger.one (.node .decl head.origin.id)) :
    MayBuildDecl ledger (some make) n := by
  rintro other (_ | _)
  exact hmake

theorem Accounts.importDecl : Accounts ledger 0 importDecl s (MayBuildDecl ledger) := by
  apply Accounts.after Clean.advance
  intro _ s'
  apply Accounts.after Clean.peek
  intro token s''
  split
  · apply Accounts.after Clean.advance
    intro _ s₃
    apply Accounts.after (Clean.intern _)
    intro _ s₄
    apply Accounts.after (Clean.expectSemi _ _)
    intro _ s₅
    apply Accounts.pure
    apply mayBuildDecl_some
    intro head
    simp
  · apply Accounts.after (Clean.expectedWithHelp _ _)
    intro _ s₃
    apply Accounts.after Clean.abandonDecl
    intro _ s₄
    exact Accounts.pure mayBuildDecl_none

theorem Accounts.nodeDecl (behavior : Option Behavior) :
    Accounts ledger 0 (nodeDecl behavior) s (MayBuildDecl ledger) := by
  apply Accounts.after Clean.advance
  intro _ s'
  apply Accounts.after Clean.peek
  intro token s''
  split
  · apply Accounts.after (Clean.expectedWithHelp _ _)
    intro _ s₃
    apply Accounts.after Clean.abandonDecl
    intro _ s₄
    exact Accounts.pure mayBuildDecl_none
  · apply Accounts.after Clean.advance
    intro _ s₃
    apply Accounts.bind (Accounts.expectName _ _)
    intro name n s₄ hname
    cases name with
    | none =>
        apply Accounts.after Clean.abandonDecl
        intro _ s₅
        exact Accounts.pure mayBuildDecl_none
    | some name =>
        apply Accounts.bind (Accounts.paramList _ _)
        intro ports m s₅ hports
        apply Accounts.after (Clean.expectSemi _ _)
        intro _ s₆
        apply Accounts.pure
        apply mayBuildDecl_some
        intro head
        unfold Covers at hname hports
        simp [nameStamps, paramsStamps] at hname hports ⊢
        omega

theorem Accounts.opaqueTypeDecl : Accounts ledger 0 opaqueTypeDecl s (MayBuildDecl ledger) := by
  apply Accounts.after Clean.advance
  intro _ s'
  apply Accounts.after Clean.advance
  intro _ s''
  apply Accounts.bind (Accounts.expectName _ _)
  intro name n s₃ hname
  cases name with
  | none =>
      apply Accounts.after Clean.abandonDecl
      intro _ s₄
      exact Accounts.pure mayBuildDecl_none
  | some name =>
      apply Accounts.after (Clean.expectSemi _ _)
      intro _ s₄
      apply Accounts.pure
      apply mayBuildDecl_some
      intro head
      unfold Covers at hname
      simp [nameStamps] at hname ⊢
      omega

theorem Accounts.typeAliasDecl : Accounts ledger 0 typeAliasDecl s (MayBuildDecl ledger) := by
  apply Accounts.after Clean.advance
  intro _ s'
  apply Accounts.bind (Accounts.expectName _ _)
  intro name n s'' hname
  cases name with
  | none =>
      apply Accounts.after Clean.abandonDecl
      intro _ s₃
      exact Accounts.pure mayBuildDecl_none
  | some name =>
      have hfinish : ∀ type m s₃, ledger.Covers TypeExpr.stamps type m →
          Accounts ledger (0 + n + m) (do
            Parser.expectSemi "after type alias" .top
            Pure.pure (some fun head => Decl.typeAlias head name type)) s₃
            (MayBuildDecl ledger) := by
        intro type m s₃ htype
        apply Accounts.after (Clean.expectSemi _ _)
        intro _ s₄
        apply Accounts.pure
        apply mayBuildDecl_some
        intro head
        unfold Covers at hname htype
        simp [nameStamps] at hname ⊢
        omega
      apply Accounts.after (Clean.expectOperator _ _ _)
      intro equals s₃
      split
      · exact Accounts.bind Accounts.typeExpr hfinish
      · exact Accounts.bind Accounts.missingType hfinish

theorem Accounts.varDecl : Accounts ledger 0 varDecl s (MayBuildDecl ledger) := by
  apply Accounts.thread (Accounts.varParts _)
  intro parts n s' hparts
  apply Accounts.pure
  cases parts with
  | none => exact mayBuildDecl_none
  | some parts =>
      apply mayBuildDecl_some
      intro head
      unfold Covers at hparts
      simp [varStamps] at hparts ⊢
      omega

theorem Accounts.constDecl : Accounts ledger 0 constDecl s (MayBuildDecl ledger) := by
  apply Accounts.thread (Accounts.constParts _)
  intro parts n s' hparts
  apply Accounts.pure
  cases parts with
  | none => exact mayBuildDecl_none
  | some parts =>
      apply mayBuildDecl_some
      intro head
      unfold Covers at hparts
      simp [constStamps] at hparts ⊢
      omega

theorem Accounts.treeBody : Accounts ledger 0 treeBody s (ledger.Covers stmtsStamps) := by
  apply Accounts.after (Clean.atPunctuation _)
  intro brace s'
  split
  · exact Accounts.block
  · apply Accounts.after (Clean.missing _ _ _)
    intro _ s''
    apply Accounts.after (Clean.synchronize _)
    intro _ s₃
    exact Accounts.pure (Nat.zero_le _)

theorem Accounts.treeDecl : Accounts ledger 0 treeDecl s (MayBuildDecl ledger) := by
  apply Accounts.after Clean.advance
  intro _ s'
  apply Accounts.bind (Accounts.expectName _ _)
  intro name n s'' hname
  cases name with
  | none =>
      apply Accounts.after (Clean.atPunctuation _)
      intro brace s₃
      split
      · exact Accounts.after (Clean.skip _) fun _ _ => Accounts.pure mayBuildDecl_none
      · exact Accounts.pure mayBuildDecl_none
  | some name =>
      apply Accounts.bind (Accounts.paramList _ _)
      intro params m s₃ hparams
      apply Accounts.bind Accounts.treeBody
      intro body k s₄ hbody
      apply Accounts.pure
      apply mayBuildDecl_some
      intro head
      unfold Covers at hname hparams hbody
      simp [nameStamps, paramsStamps, stmtsStamps] at hname hparams hbody ⊢
      omega

def declsStamps (decls : List Decl) : List Stamp := decls.flatMap Decl.stamps

theorem Accounts.finishDecl {build : Option (DeclHead → Decl)} {docs : Docs} {start : SourceRange}
    {attr : Option SourceRange} (hbuild : MayBuildDecl ledger build gained) :
    Accounts ledger gained (finishDecl build docs start attr) s
      (ledger.Covers fun decl => declsStamps decl.toList) := by
  cases build with
  | none => exact Accounts.pure (Nat.zero_le _)
  | some make =>
      apply Accounts.after (Clean.rangeSince _)
      intro own s'
      have hnew : Accounts ledger gained
          (Parser.newDecl ((attr.map (·.merge own)).getD own) fun origin =>
            make ⟨origin, docs.lines⟩) s' (ledger.Covers Decl.stamps) := by
        apply Accounts.newDecl
        intro origin
        exact hbuild make rfl ⟨origin, docs.lines⟩
      apply Accounts.map hnew
      intro decl n hdecl
      simpa [Covers, declsStamps] using hdecl

theorem Accounts.plainDecl {parser : Parser (Option (DeclHead → Decl))}
    (hparser : ∀ s, Accounts ledger 0 parser s (MayBuildDecl ledger)) (docs : Docs)
    (attr : Option Attribute) : Accounts ledger 0 (plainDecl parser docs attr) s
      (ledger.Covers fun decl => declsStamps decl.toList) := by
  apply Accounts.peek
  apply Accounts.thread (hparser s)
  intro build n s' hbuild
  cases attr with
  | some attr =>
      apply Accounts.after (Clean.report (SyntaxReport.hasCode_misplacedAttribute _))
      intro _ s''
      exact Accounts.finishDecl hbuild
  | none => exact Accounts.finishDecl hbuild

theorem Accounts.declarationAfter (docs : Docs) (attr : Option Attribute) :
    Accounts ledger 0 (declarationAfter docs attr) s
      (ledger.Covers fun decl => declsStamps decl.toList) := by
  have hnone : ∀ s, Accounts ledger 0 declarationAfter.noDeclaration s
      (ledger.Covers fun decl => declsStamps decl.toList) := by
    intro s
    apply Accounts.after (Clean.expectedWithHelp _ _)
    intro _ s'
    apply Accounts.after (Clean.synchronize _)
    intro _ s''
    exact Accounts.pure (Nat.zero_le _)
  apply Accounts.peek
  split
  · split
    · exact Accounts.after (Clean.skipForeign _) fun _ _ => Accounts.pure (Nat.zero_le _)
    · exact hnone s
  · exact Accounts.plainDecl (fun _ => Accounts.importDecl) docs attr
  · apply Accounts.after Clean.peekSecond
    intro second s'
    split
    · exact Accounts.plainDecl (fun _ => Accounts.opaqueTypeDecl) docs attr
    · apply Accounts.thread (Accounts.nodeDecl _)
      intro build n s'' hbuild
      exact Accounts.finishDecl hbuild
  · exact Accounts.plainDecl (fun _ => Accounts.typeAliasDecl) docs attr
  · exact Accounts.plainDecl (fun _ => Accounts.varDecl) docs attr
  · exact Accounts.plainDecl (fun _ => Accounts.constDecl) docs attr
  · exact Accounts.plainDecl (fun _ => Accounts.treeDecl) docs attr
  · exact Accounts.after (Clean.nothingDeclared _ _) fun _ _ => Accounts.pure (Nat.zero_le _)
  · exact hnone s

theorem Accounts.declaration :
    Accounts ledger 0 declaration s (ledger.Covers fun decl => declsStamps decl.toList) := by
  apply Accounts.after Clean.docComments
  intro docs s'
  apply Accounts.after Clean.attributeHere
  intro attr s''
  exact Accounts.declarationAfter docs attr

/-! ### Programs -/

theorem Clean.moduleDocs : Clean ledger moduleDocs := by
  apply Clean.iterate
  intro docs
  apply Clean.bind Clean.peek
  intro token
  split
  · exact Clean.bind Clean.advance fun _ => Clean.pure _
  · exact Clean.pure _

theorem Accounts.programTurn {decls : List Decl}
    (hdecls : ledger.Covers declsStamps decls gained) :
    Accounts ledger gained (programTurn decls) s (Turn.Accounted (ledger.Covers declsStamps)) := by
  apply Accounts.after Clean.atEnd
  intro ended s'
  split
  · exact Accounts.pure hdecls
  · apply Accounts.bind (Accounts.orStepOver Accounts.declaration)
    intro decl n s'' hdecl
    apply Accounts.pure
    unfold Covers declsStamps at hdecls
    simp only [Covers, declsStamps] at hdecl
    simp only [Turn.Accounted, Covers, declsStamps, List.flatMap_append, count_append]
    omega

/-- **Whatever is parsed is accounted for.** -/
theorem Accounts.program :
    Accounts ledger 0 program s fun program n =>
      ledger.count program.stamps ≤ n ∧ program.file = ledger.file := by
  apply Accounts.after Clean.moduleDocs
  intro docs s'
  have hloop : Accounts ledger 0 (Parser.iterate Parser.programTurn []) s'
      (ledger.Covers declsStamps) := by
    apply Accounts.iterate
    · exact Nat.zero_le _
    · intro decls n s'' hdecls
      exact Accounts.programTurn hdecls
  apply Accounts.thread hloop
  intro decls n s'' hdecls hholds
  exact ⟨hholds, n, Nat.le_refl _, hdecls, hholds.file⟩

end Parser

end BehaviorTree
