import BehaviorTree.Parsing.Declaration
import BehaviorTree.Proofs.Lexical.Stream
import BehaviorTree.Proofs.Parsing.StatementsAgree

/-!
# Runs on programs agree

Declarations, programs and source texts. Main statement: what a text declares, and how grave the
reports on it are, does not depend on the number of its file or on what was parsed before.
-/

namespace BehaviorTree

namespace Parser

open ParserState

variable {α : Type}

/-- Two ways to make a declaration. -/
abbrev MayDeclareAlike := MayBuildWith DeclHead.shape Decl.shape

theorem Same.abandonDecl : Same abandonDecl abandonDecl := by
  apply Agrees.next (Same.synchronize _)
  intro _
  exact Agrees.next (Same.acceptPunctuation _) fun _ => Same.pure _

theorem Agrees.importDecl : Agrees importDecl importDecl MayDeclareAlike := by
  apply Agrees.advance
  intro _ _ _ _ _
  apply Agrees.peek
  intro kind text range range' line
  dsimp only
  split
  · apply Agrees.advance
    intro _ _ _ _ _
    apply Agrees.next (Same.intern _ _)
    intro _
    apply Agrees.next (Same.expectSemi _ _)
    intro _
    apply Agrees.pure
    intro head head' hhead
    simp only [Decl.shape, hhead]
  · apply Agrees.next (Same.expectedWithHelp _ _ _ _)
    intro _
    exact Agrees.next Same.abandonDecl fun _ => Agrees.pure trivial

/-! ### Ports and parameters -/

theorem Agrees.param (what : String) (set : RecoverySet) :
    Agrees (param what set) (param what set) (Alike (Option.map Param.shape)) := by
  apply Agrees.bind Agrees.docComments
  intro docs docs' hdocs
  apply Agrees.peek
  intro kind text range range' line
  apply Agrees.next Same.direction
  intro direction
  apply Agrees.named
  · exact Agrees.pure rfl
  · intro name name' hname
    have htext : name.text = name'.text := by simpa using hname
    dsimp only
    rw [htext]
    apply Agrees.next (Same.expectPunctuation _ _ _)
    intro colon
    have hfinish : ∀ type type', Alike TypeExpr.shape type type' →
        Agrees (do
          let default ← Parser.initializer
          return some ⟨docs.lines, direction, name, type, default, ← Parser.rangeSince range⟩) (do
          let default ← Parser.initializer
          return some ⟨docs'.lines, direction, name', type', default, ← Parser.rangeSince range'⟩)
          (Alike (Option.map Param.shape)) := by
      intro type type' htype
      apply Agrees.bind Agrees.initializer
      intro default default' hdefault
      apply Agrees.rangeSince
      intro _ _
      apply Agrees.pure
      have hlines : docs.lines = docs'.lines := congrArg Prod.fst hdocs
      unfold Alike at htype hdefault
      simp [Alike, Param.shape, -Name.shape, hname, hlines, htype, hdefault]
    split
    · exact Agrees.bind Agrees.typeExpr hfinish
    · exact Agrees.bind Agrees.missingType hfinish

theorem Agrees.paramTurn (what : String) {params params' : List Param}
    (hparams : Alike (List.map Param.shape) params params') :
    Agrees (paramTurn what params) (paramTurn what params')
      (Turn.Agrees (Alike (List.map Param.shape))) := by
  apply Agrees.next (Same.listGoesOn _ _)
  intro goesOn
  split
  · apply Agrees.bind (Agrees.param _ _)
    intro param param' hparam
    have hlonger : Alike (List.map Param.shape) (params ++ param.toList)
        (params' ++ param'.toList) := by
      unfold Alike at hparams hparam ⊢
      rw [List.map_append, List.map_append, hparams, ← Option.toList_map, hparam,
        Option.toList_map]
    apply Agrees.next (Same.listContinues _ _ _ _)
    intro continues
    split
    · exact Agrees.pure hlonger
    · exact Agrees.pure hlonger
  · exact Agrees.pure hparams

theorem Agrees.paramList (what context : String) :
    Agrees (paramList what context) (paramList what context) (Alike (List.map Param.shape)) := by
  apply Agrees.next (Same.expectPunctuation _ _ _)
  intro opened
  split
  · apply Agrees.loop
    intro params params' hparams
    exact Agrees.paramTurn what hparams
  · exact Agrees.pure rfl

/-! ### Declarations -/

theorem Agrees.nodeDecl {behavior behavior' : Option Behavior}
    (hbehavior : Alike (Option.map Behavior.shape) behavior behavior') :
    Agrees (nodeDecl behavior) (nodeDecl behavior') MayDeclareAlike := by
  apply Agrees.advance
  intro _ _ _ _ _
  apply Agrees.peek
  intro kind text range range' line
  dsimp only [Token.keyword?]
  split
  · apply Agrees.next (Same.expectedWithHelp _ _ _ _)
    intro _
    exact Agrees.next Same.abandonDecl fun _ => Agrees.pure trivial
  · apply Agrees.advance
    intro _ _ _ _ _
    apply Agrees.named
    · exact Agrees.next Same.abandonDecl fun _ => Agrees.pure trivial
    · intro name name' hname
      apply Agrees.bind (Agrees.paramList _ _)
      intro ports ports' hports
      apply Agrees.next (Same.expectSemi _ _)
      intro _
      apply Agrees.pure
      intro head head' hhead
      unfold Alike at hports hbehavior
      simp only [Decl.shape, hhead, hname, hports, hbehavior]

theorem Agrees.opaqueTypeDecl : Agrees opaqueTypeDecl opaqueTypeDecl MayDeclareAlike := by
  apply Agrees.advance
  intro _ _ _ _ _
  apply Agrees.advance
  intro _ _ _ _ _
  apply Agrees.named
  · exact Agrees.next Same.abandonDecl fun _ => Agrees.pure trivial
  · intro name name' hname
    apply Agrees.next (Same.expectSemi _ _)
    intro _
    apply Agrees.pure
    intro head head' hhead
    simp only [Decl.shape, hhead, hname]

theorem Agrees.typeAliasDecl : Agrees typeAliasDecl typeAliasDecl MayDeclareAlike := by
  apply Agrees.advance
  intro _ _ _ _ _
  apply Agrees.named
  · exact Agrees.next Same.abandonDecl fun _ => Agrees.pure trivial
  · intro name name' hname
    apply Agrees.next (Same.expectOperator _ _ _)
    intro equals
    have hfinish : ∀ type type', Alike TypeExpr.shape type type' →
        Agrees (do
          Parser.expectSemi "after type alias" .top
          Pure.pure (some (Decl.typeAlias · name type))) (do
          Parser.expectSemi "after type alias" .top
          Pure.pure (some (Decl.typeAlias · name' type'))) MayDeclareAlike := by
      intro type type' htype
      apply Agrees.next (Same.expectSemi _ _)
      intro _
      apply Agrees.pure
      intro head head' hhead
      unfold Alike at htype
      simp only [Decl.shape, hhead, hname, htype]
    dsimp only
    split
    · exact Agrees.bind Agrees.typeExpr hfinish
    · exact Agrees.bind Agrees.missingType hfinish

theorem Agrees.varDecl : Agrees varDecl varDecl MayDeclareAlike := by
  apply Agrees.build (Agrees.varParts _) trivial
  intro parts parts' hparts head head' hhead
  simp only [VarParts.shape, VarParts.mk.injEq] at hparts
  simp only [Decl.shape, hhead, hparts]

theorem Agrees.constDecl : Agrees constDecl constDecl MayDeclareAlike := by
  apply Agrees.build (Agrees.constParts _) trivial
  intro parts parts' hparts head head' hhead
  simp only [ConstParts.shape, ConstParts.mk.injEq] at hparts
  simp only [Decl.shape, hhead, hparts]

theorem Agrees.treeBody : Agrees treeBody treeBody (Alike Stmt.shapes) := by
  apply Agrees.next (Same.atPunctuation _)
  intro brace
  split
  · exact Agrees.block
  · apply Agrees.next (Same.missing _ _ _ _ _)
    intro _
    exact Agrees.next (Same.synchronize _) fun _ => Agrees.pure rfl

theorem Agrees.treeDecl : Agrees treeDecl treeDecl MayDeclareAlike := by
  apply Agrees.advance
  intro _ _ _ _ _
  apply Agrees.named
  · apply Agrees.next (Same.atPunctuation _)
    intro brace
    split
    · exact Agrees.next (Same.skip fun _ => Skip.group_blank) fun _ => Agrees.pure trivial
    · exact Agrees.pure trivial
  · intro name name' hname
    apply Agrees.bind (Agrees.paramList _ _)
    intro params params' hparams
    apply Agrees.bind Agrees.treeBody
    intro body body' hbody
    apply Agrees.pure
    intro head head' hhead
    unfold Alike at hparams hbody
    rw [Stmt.shapes_eq_map, Stmt.shapes_eq_map] at hbody
    simp only [Decl.shape, hhead, hname, hparams, hbody]

/-! ### Attributes -/

theorem Same.policy (what choices : String) (ofSpelling? : String → Option α)
    (set : RecoverySet) :
    Same (policy what choices ofSpelling? set) (policy what choices ofSpelling? set) := by
  apply Agrees.named
  · exact Same.pure _
  · intro name name' hname
    have htext : name.text = name'.text := by simpa using hname
    dsimp only
    rw [htext]
    split
    · exact Same.pure _
    · exact Agrees.next (Same.report _ _ rfl) fun _ => Same.pure _

theorem Same.flowPolicy (set : RecoverySet) : Same (flowPolicy set) (flowPolicy set) := by
  apply Agrees.next (Same.acceptPunctuation _)
  intro comma
  split
  · exact Same.policy _ _ _ _
  · exact Same.pure _

theorem Same.policies (set : RecoverySet) : Same (policies set) (policies set) := by
  apply Agrees.next (Same.expectPunctuation _ _ _)
  intro opened
  split
  · apply Agrees.next (Same.policy _ _ _ _)
    intro data
    apply Agrees.next (Same.flowPolicy _)
    intro flow
    apply Agrees.next (Same.expectPunctuation _ _ _)
    intro _
    split
    · exact Same.pure _
    · exact Same.pure _
  · exact Same.pure _

theorem Same.attributeBody (set : RecoverySet) : Same (attributeBody set) (attributeBody set) := by
  apply Agrees.next (Same.expectPunctuation _ _ _)
  intro opened
  split
  · apply Agrees.named
    · exact Same.pure _
    · intro name name' hname
      have htext : name.text = name'.text := by simpa using hname
      dsimp only
      rw [htext]
      split
      · exact Same.policies _
      · apply Agrees.next (Same.report _ _ (by rfl))
        intro _
        exact Agrees.next (Same.synchronize _) fun _ => Same.pure _
  · exact Same.pure _

/-- What an attribute says. -/
def attributeShape (attr : Attribute) : Option Behavior := attr.behavior.map Behavior.shape

theorem Agrees.attributeHere :
    Agrees attributeHere attributeHere (Alike (Option.map attributeShape)) := by
  apply Agrees.peek
  intro kind text range range' line
  apply Agrees.next (Same.acceptPunctuation _)
  intro hash
  split
  · apply Agrees.next (Same.attributeBody _)
    intro policies
    apply Agrees.next (Same.expectPunctuation _ _ _)
    intro _
    apply Agrees.rangeSince
    intro _ _
    apply Agrees.pure
    cases policies <;> rfl
  · exact Agrees.pure rfl

/-! ### Declarations with what stands in front -/

variable {docs docs' : Docs} {attr attr' : Option Attribute}

theorem Agrees.finishDecl {build build' : Option (DeclHead → Decl)} {start start' : SourceRange}
    {own own' : Option SourceRange} (hbuild : MayDeclareAlike build build')
    (hdocs : Alike Docs.shape docs docs') :
    Agrees (finishDecl build docs start own) (finishDecl build' docs' start' own')
      (Alike (Option.map Decl.shape)) := by
  have hlines : docs.lines = docs'.lines := congrArg Prod.fst hdocs
  cases build with
  | none =>
      cases build' with
      | none => exact Agrees.pure rfl
      | some build' => cases hbuild
  | some build =>
      cases build' with
      | none => cases hbuild
      | some build' =>
          apply Agrees.rangeSince
          intro _ _
          apply Agrees.found
          apply Agrees.newDecl
          intro o o'
          apply hbuild
          simp only [DeclHead.shape, hlines]

theorem Agrees.plainDecl {parser : Parser (Option (DeclHead → Decl))}
    (hparser : Agrees parser parser MayDeclareAlike) (hdocs : Alike Docs.shape docs docs')
    (hattr : Alike (Option.map attributeShape) attr attr') :
    Agrees (plainDecl parser docs attr) (plainDecl parser docs' attr')
      (Alike (Option.map Decl.shape)) := by
  apply Agrees.peek
  intro kind text range range' line
  apply Agrees.bind hparser
  intro build build' hbuild
  cases attr with
  | none =>
      cases attr' with
      | none => exact Agrees.finishDecl hbuild hdocs
      | some attr' => cases hattr
  | some attr =>
      cases attr' with
      | none => cases hattr
      | some attr' =>
          exact Agrees.next (Same.report _ _ rfl) fun _ => Agrees.finishDecl hbuild hdocs

theorem Same.nothingDeclared (hdocs : Alike Docs.shape docs docs')
    (hattr : Alike (Option.map attributeShape) attr attr') :
    Same (nothingDeclared docs attr) (nothingDeclared docs' attr') := by
  cases attr with
  | none =>
      cases attr' with
      | none => exact Same.danglingDocs (congrArg Prod.snd hdocs)
      | some attr' => cases hattr
  | some attr =>
      cases attr' with
      | none => cases hattr
      | some attr' => exact Same.expected _ _

theorem Agrees.declarationAfter (hdocs : Alike Docs.shape docs docs')
    (hattr : Alike (Option.map attributeShape) attr attr') :
    Agrees (declarationAfter docs attr) (declarationAfter docs' attr')
      (Alike (Option.map Decl.shape)) := by
  have hno : Agrees Parser.declarationAfter.noDeclaration Parser.declarationAfter.noDeclaration
      (Alike (Option.map Decl.shape)) := by
    apply Agrees.next (Same.expectedWithHelp _ _ _ _)
    intro _
    exact Agrees.next (Same.synchronize _) fun _ => Agrees.pure rfl
  apply Agrees.peek
  intro kind text range range' line
  dsimp only
  split
  case h_1 =>
    split
    · exact Agrees.next (Same.skipForeign _) fun _ => Agrees.pure rfl
    · exact hno
  case h_2 => exact Agrees.plainDecl Agrees.importDecl hdocs hattr
  case h_3 =>
    apply Agrees.peekSecond
    intro _ _ _ _ _
    apply Agrees.ite Iff.rfl
    · exact fun _ => Agrees.plainDecl Agrees.opaqueTypeDecl hdocs hattr
    · intro _
      have hbehavior : Alike (Option.map Behavior.shape) (attr.bind Attribute.behavior)
          (attr'.bind Attribute.behavior) := by
        cases attr <;> cases attr'
        · rfl
        · cases hattr
        · cases hattr
        · exact Option.some.inj hattr
      apply Agrees.bind (Agrees.nodeDecl hbehavior)
      intro build build' hbuild
      exact Agrees.finishDecl hbuild hdocs
  case h_4 => exact Agrees.plainDecl Agrees.typeAliasDecl hdocs hattr
  case h_5 => exact Agrees.plainDecl Agrees.varDecl hdocs hattr
  case h_6 => exact Agrees.plainDecl Agrees.constDecl hdocs hattr
  case h_7 => exact Agrees.plainDecl Agrees.treeDecl hdocs hattr
  case h_8 => exact Agrees.next (Same.nothingDeclared hdocs hattr) fun _ => Agrees.pure rfl
  case h_9 => exact hno

theorem Agrees.declaration :
    Agrees declaration declaration (Alike (Option.map Decl.shape)) := by
  apply Agrees.bind Agrees.docComments
  intro docs docs' hdocs
  apply Agrees.bind Agrees.attributeHere
  intro attr attr' hattr
  exact Agrees.declarationAfter hdocs hattr

/-! ### Programs -/

theorem Same.moduleDocs : Same moduleDocs moduleDocs := by
  apply Agrees.iterate rfl
  rintro docs _ rfl
  apply Agrees.peek
  intro kind text range range' line
  dsimp only
  split
  · exact Agrees.advance fun _ _ _ _ _ => Agrees.pure rfl
  · exact Agrees.pure rfl

/-- A turn keeps any relation that holds on behind declarations of the same shape. -/
theorem Agrees.programTurnKeeping {rel : List Decl → List Decl → Prop} {decls decls' : List Decl}
    (hkeeps : ∀ decl decl', Alike (Option.map Decl.shape) decl decl' →
      rel (decls ++ decl.toList) (decls' ++ decl'.toList)) (hdecls : rel decls decls') :
    Agrees (programTurn decls) (programTurn decls') (Turn.Agrees rel) := by
  apply Agrees.next Same.atEnd
  intro ended
  split
  · exact Agrees.pure hdecls
  · apply Agrees.bind (Agrees.orStepOver (fun _ => rfl) Agrees.declaration)
    exact fun decl decl' hdecl => Agrees.pure (hkeeps decl decl' hdecl)

theorem Agrees.programTurn {decls decls' : List Decl}
    (hdecls : Alike (List.map Decl.shape) decls decls') :
    Agrees (programTurn decls) (programTurn decls')
      (Turn.Agrees (Alike (List.map Decl.shape))) := by
  refine .programTurnKeeping (fun decl decl' hdecl => ?_) hdecls
  unfold Alike at hdecls hdecl
  simp only [Alike, List.map_append, hdecls, ← Option.toList_map, hdecl]

theorem Agrees.program : Agrees program program (Alike Program.shape) := by
  apply Agrees.next Same.moduleDocs
  intro docs
  have hloop : Agrees (Parser.iterate Parser.programTurn []) (Parser.iterate Parser.programTurn [])
      (Alike (List.map Decl.shape)) := by
    apply Agrees.loop
    intro decls decls' hdecls
    exact Agrees.programTurn hdecls
  apply Agrees.bind hloop
  intro decls decls' hdecls books s t htwins
  refine ⟨?_, htwins⟩
  show Program.shape _ = Program.shape _
  unfold Alike at hdecls
  simp only [Program.shape, hdecls]

end Parser

/-! ### Source texts -/

namespace TokenStream

theorem severities_reports (faults : List LocatedFault) (file : FileId) (base : Nat) :
    Diagnostics.severities (reports faults file base) = faults.map fun _ => .error := by
  unfold Diagnostics.severities reports
  rw [List.map_map]
  apply List.map_congr_left
  intro fault _
  show (fault.fault.report _).severity = .error
  unfold LexicalFault.report
  split
  · rfl
  · rfl
  · split <;> rfl
  · rfl

/-- The same tokens and as many faults, whatever file a text stands in. -/
theorem scanFrom_alike (file file' : FileId) (offset : Nat) (chars : List Char) :
    (scanFrom file offset chars).tokens.map Token.blank =
        (scanFrom file' offset chars).tokens.map Token.blank ∧
      Diagnostics.severities (scanFrom file offset chars).diagnostics =
        Diagnostics.severities (scanFrom file' offset chars).diagnostics := by
  fun_induction scanFrom file offset chars with
  | case1 offset chars gap start gapReports hrest =>
      rw [scanFrom_of_rest_nil file' offset hrest]
      exact ⟨rfl, by rw [severities_reports, severities_reports]⟩
  | case2 offset chars gap start gapReports c rest hrest scanned stop later ih =>
      rw [scanFrom_of_rest_cons file' offset hrest]
      refine ⟨congrArg (_ :: ·) ih.1, ?_⟩
      simp only [Diagnostics.severities_append, gapReports, severities_reports]
      rw [ih.2]

end TokenStream

namespace Parsed

variable {file file' : FileId} {arena arena' : Arena}

theorem twins_initial {tokens tokens' : List Token}
    (htokens : tokens.map Token.blank = tokens'.map Token.blank) :
    (initial file tokens arena).Twins .same (initial file' tokens' arena') := by
  have hlast : tokens.getLast?.map Token.blank = tokens'.getLast?.map Token.blank := by
    rw [← List.getLast?_map, htokens, List.getLast?_map]
  have hclosed : (tokens.getLast?.map Token.isEndOfFile).getD false =
      (tokens'.getLast?.map Token.isEndOfFile).getD false := by
    have hend := congrArg (Option.map Token.isEndOfFile) hlast
    rw [Option.map_map, Option.map_map] at hend
    exact congrArg (Option.getD · false) hend
  have hclosing : (closing file tokens).blank = (closing file' tokens').blank := rfl
  refine ⟨?_, ?_, ⟨rfl, rfl, rfl⟩⟩
  · show (if _ then tokens else tokens ++ [closing file tokens]).map Token.blank =
      (if _ then tokens' else tokens' ++ [closing file' tokens']).map Token.blank
    rw [hclosed]
    split
    · exact htokens
    · rw [List.map_append, List.map_append, htokens, List.map_singleton, hclosing,
        List.map_singleton]
  · show Token.blank (if _ then _ else _) = Token.blank (if _ then _ else _)
    rw [hclosed]
    split
    · cases hs : tokens.getLast? <;> cases ht : tokens'.getLast? <;> rw [hs, ht] at hlast
      · rfl
      · cases hlast
      · cases hlast
      · exact Option.some.inj hlast
    · rfl

/-- **The program of a text.** Its shape and the severities of the reports on it are the text's own:
neither the number of the file nor the nodes of other files come into them. -/
theorem ofText_alike (text : String) :
    (ofText file text arena).program.shape = (ofText file' text arena').program.shape ∧
      Diagnostics.severities (ofText file text arena).diagnostics =
        Diagnostics.severities (ofText file' text arena').diagnostics := by
  obtain ⟨htokens, hfaults⟩ := TokenStream.scanFrom_alike file file' 0 text.toList
  have htwins : (initial file (TokenStream.ofText file text).tokens arena).Twins .same
      (initial file' (TokenStream.ofText file' text).tokens arena') := twins_initial htokens
  obtain ⟨hshape, hstates⟩ := Parser.Agrees.program _ _ _ htwins
  refine ⟨hshape, ?_⟩
  show Diagnostics.severities (_ ++ _) = Diagnostics.severities (_ ++ _)
  rw [Diagnostics.severities_append, Diagnostics.severities_append]
  exact congr (congrArg _ hfaults) hstates.related.severities

end Parsed

end BehaviorTree
