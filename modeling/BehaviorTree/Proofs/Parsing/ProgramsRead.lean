import BehaviorTree.Parsing.Declaration
import BehaviorTree.Proofs.Parsing.StatementsRead

/-!
# What silent runs read: declarations and programs

A program over whose text nothing is reported is a sentence of the grammar, and its tree is the tree
of a derivation of that sentence.
-/

namespace BehaviorTree

open ParserState

namespace Parser

variable {s : ParserState}

/-- A declaration has been read, whatever documentation stands in front of it. -/
def DeclRead (result : Option (DeclHead → Decl)) (ts : List Terminal) : Prop :=
  ∃ build, result = some build ∧ ∀ head, (build head).head = head ∧
    BareDeclForm (build head).shape ts

theorem Recovers.abandonDecl : Recovers abandonDecl s := by
  unfold Parser.abandonDecl
  refine Recovers.bind Recovers.synchronize fun _ _ => ?_
  exact Recovers.bind Recovers.acceptPunctuation fun _ _ => Recovers.pure _

theorem Reads.importDecl (hkind : s.current.kind = .keyword .importWord) :
    Reads importDecl s fun result ts _ => DeclRead result ts := by
  unfold Parser.importDecl
  refine Reads.advance_of hkind (by simp) (by simp) fun s₁ _ => Reads.peek ?_
  split
  · rename_i path hpath
    refine Reads.advance_of hpath (by simp) (by simp) fun s₂ _ => Reads.intern fun s₃ _ => ?_
    refine Reads.bind Reads.expectSemi fun _ s₄ _ => Reads.pure ?_
    rintro _ rfl
    exact ⟨_, rfl, fun head => ⟨rfl, .importFile head.shape path⟩⟩
  · refine Reads.bind_false Reads.expectedWithHelp fun _ _ => ?_
    exact Recovers.bind Recovers.abandonDecl fun _ _ => Recovers.pure _

/-! ### Ports and parameters -/

theorem Reads.param {what : String} {set : RecoverySet} :
    Reads (param what set) s fun result ts _ =>
      ∃ param, result = some param ∧ ParamForm param.shape ts := by
  unfold Parser.param
  refine Reads.bind Reads.docComments fun docs s₁ _ => Reads.peek ?_
  dsimp only
  refine Reads.bind Reads.direction fun direction s₂ _ => ?_
  refine Reads.bind Reads.expectName fun name s₃ _ => ?_
  cases name with
  | none =>
      refine Reads.pure ?_
      rintro _ ⟨_, h, -⟩
      cases h
  | some name =>
      dsimp only
      refine Reads.bind Reads.expectPunctuation fun found s₄ _ => ?_
      split
      · refine Reads.bind Reads.typeExpr fun type s₅ _ => ?_
        refine Reads.bind Reads.initializer fun default s₆ _ => Reads.rangeSince fun range => ?_
        refine Reads.pure ?_
        rintro ds hdefault ts ⟨htype, -⟩ _ ⟨-, rfl⟩ _ ⟨_, ⟨rfl⟩, rfl⟩ _ rfl _ ⟨rfl, -⟩
        refine ⟨_, rfl, ?_⟩
        simpa [Param.shape] using ParamForm.mk docs.lines direction name.text htype hdefault
      · rename_i hfound
        refine (Recovers.bind Recovers.missingType fun _ _ => Recovers.bind
          Reads.initializer.recovers fun _ _ => Reads.rangeSince fun _ => Recovers.pure _).mono ?_
        rintro _ _ _ - - _ ⟨h, -⟩
        exact absurd h hfound

theorem Reads.paramTurn {what : String} (params : List Param) : Reads (paramTurn what params) s
    (CollectsClosed (fun param => ParamForm param.shape) params) := by
  unfold Parser.paramTurn
  dsimp only
  refine Reads.bind Reads.listGoesOn fun goesOn s₁ _ => ?_
  cases goesOn with
  | false => exact Reads.pure fun ts hts => .inl ⟨rfl, by simpa using hts⟩
  | true =>
      refine Reads.bind Reads.param fun result s₂ _ => ?_
      refine Reads.bind Reads.listContinues fun goesOn s₃ _ => ?_
      cases goesOn with
      | true =>
          refine Reads.pure ?_
          rintro ms hms is ⟨param, rfl, hparam⟩ ts hts
          exact ⟨param, is, rfl, hparam, by simp [hts, hms]⟩
      | false =>
          refine Reads.pure ?_
          rintro ms hms is ⟨param, rfl, hparam⟩ ts hts
          exact .inr ⟨param, is, rfl, hparam, by simp [hts, hms]⟩

theorem Reads.paramList {what context : String} : Reads (paramList what context) s
    fun params ts _ => ∃ ps, ts = .mark .lParen :: ps ∧
      Closed ParamForm (params.map Param.shape) ps := by
  unfold Parser.paramList
  refine Reads.bind Reads.expectPunctuation fun found s₁ _ => ?_
  split
  · refine (Reads.iterate _ ?_ fun params s₂ _ => Reads.paramTurn params).mono
      fun params ts us _ hloop => ?_
    · rintro v w vs ⟨_, _, _, _, h⟩
      simp at h
    · rintro _ ⟨-, rfl⟩
      obtain ⟨more, rfl, hmore⟩ := hloop.closed
      exact ⟨ts, rfl, hmore.map⟩
  · rename_i hfound
    exact Reads.pure fun _ h => absurd h.1 hfound

/-! ### Declarations without attributes -/

theorem Reads.opaqueTypeDecl (hkind : s.current.kind = .keyword .externWord)
    (hsecond : (s.tokenAt 1).kind = .keyword .typeWord) :
    Reads opaqueTypeDecl s fun result ts _ => DeclRead result ts := by
  unfold Parser.opaqueTypeDecl
  refine Reads.advance_skip (by simp [Token.isEndOfFile, hkind]) fun _ => ?_
  rw [Token.terminal_eq_of hkind (by simp)]
  rw [← current_skip_one] at hsecond
  refine Reads.advance_of hsecond (by simp) (by simp) fun s₂ _ => ?_
  refine Reads.bind Reads.expectName fun name s₃ _ => ?_
  cases name with
  | none =>
      refine (Recovers.bind Recovers.abandonDecl fun _ _ => Recovers.pure _).mono ?_
      rintro _ _ _ - - ts ⟨_, h, -⟩
      cases h
  | some name =>
      refine Reads.bind Reads.expectSemi fun _ s₄ _ => Reads.pure ?_
      rintro _ rfl _ ⟨_, ⟨rfl⟩, rfl⟩
      exact ⟨_, rfl, fun head => ⟨rfl, .opaqueType head.shape name.text⟩⟩

theorem Reads.typeAliasDecl (hkind : s.current.kind = .keyword .typeWord) :
    Reads typeAliasDecl s fun result ts _ => DeclRead result ts := by
  unfold Parser.typeAliasDecl
  refine Reads.advance_of hkind (by simp) (by simp) fun s₁ _ => ?_
  refine Reads.bind Reads.expectName fun name s₂ _ => ?_
  cases name with
  | none =>
      refine (Recovers.bind Recovers.abandonDecl fun _ _ => Recovers.pure _).mono ?_
      rintro _ _ _ - - ts ⟨_, h, -⟩
      cases h
  | some name =>
      dsimp only
      refine Reads.bind Reads.expectOperator fun found s₃ _ => ?_
      split
      · refine Reads.bind Reads.typeExpr fun type s₄ _ => ?_
        refine Reads.bind Reads.expectSemi fun _ s₅ _ => Reads.pure ?_
        rintro _ rfl ts ⟨htype, -⟩ _ ⟨-, rfl⟩ _ ⟨_, ⟨rfl⟩, rfl⟩
        refine ⟨_, rfl, fun head => ⟨rfl, ?_⟩⟩
        simpa [Decl.shape, Terminal.word] using BareDeclForm.typeAlias head.shape name.text htype
      · rename_i hfound
        refine (Recovers.bind Recovers.missingType fun _ _ => Recovers.bind
          Reads.expectSemi.recovers fun _ _ => Recovers.pure _).mono ?_
        rintro _ _ _ - - _ ⟨h, -⟩
        exact absurd h hfound

theorem Reads.varDecl (hkind : s.current.kind = .keyword .varWord) :
    Reads varDecl s fun result ts _ => DeclRead result ts := by
  unfold Parser.varDecl
  refine Reads.bind (Reads.varParts hkind) fun result s₁ _ => Reads.pure ?_
  rintro _ ⟨parts, rfl, types, inits, htypes, hinits, rfl⟩
  refine ⟨_, rfl, fun head => ⟨rfl, ?_⟩⟩
  simpa [Decl.shape] using BareDeclForm.varDecl head.shape parts.name.text htypes hinits

theorem Reads.constDecl (hkind : s.current.kind = .keyword .constWord) :
    Reads constDecl s fun result ts _ => DeclRead result ts := by
  unfold Parser.constDecl
  refine Reads.bind (Reads.constParts hkind) fun result s₁ _ => Reads.pure ?_
  rintro _ ⟨parts, rfl, types, values, htypes, hvalues, rfl⟩
  refine ⟨_, rfl, fun head => ⟨rfl, ?_⟩⟩
  simpa [Decl.shape] using BareDeclForm.constDecl head.shape parts.name.text htypes hvalues

theorem Reads.treeBody : Reads treeBody s fun stmts ts _ =>
    ∃ cs, StmtForm (.stmts (Stmt.shapes stmts)) cs ∧
      ts = .mark .lBrace :: (cs ++ [.mark .rBrace]) := by
  unfold Parser.treeBody
  refine Reads.atPunctuation ?_
  split
  · rename_i hbrace
    exact Reads.block (by simpa [Token.isPunctuation] using hbrace)
  · refine Reads.bind_false Reads.missing fun _ _ => ?_
    exact Recovers.bind Recovers.synchronize fun _ _ => Recovers.pure _

theorem Reads.treeDecl (hkind : s.current.kind = .keyword .treeWord) :
    Reads treeDecl s fun result ts _ => DeclRead result ts := by
  unfold Parser.treeDecl
  refine Reads.advance_of hkind (by simp) (by simp) fun s₁ _ => ?_
  refine Reads.bind Reads.expectName fun name s₂ _ => ?_
  cases name with
  | none =>
      dsimp only
      refine Reads.atPunctuation ?_
      split
      · refine (Recovers.bind (Recovers.skip Skip.stops_group) fun _ _ => Recovers.pure _).mono ?_
        rintro _ _ _ - - ts ⟨_, h, -⟩
        cases h
      · refine Reads.pure ?_
        rintro _ ⟨_, h, -⟩
        cases h
  | some name =>
      refine Reads.bind Reads.paramList fun params s₃ _ => ?_
      refine Reads.bind Reads.treeBody fun body s₄ _ => Reads.pure ?_
      rintro _ ⟨cs, hbody, rfl⟩ _ ⟨ps, rfl, hparams⟩ _ ⟨_, ⟨rfl⟩, rfl⟩
      refine ⟨_, rfl, fun head => ⟨rfl, ?_⟩⟩
      rw [Stmt.shapes_eq_map] at hbody
      simpa [Decl.shape, Terminal.word] using BareDeclForm.tree head.shape name.text hparams hbody

/-! ### Attributes and nodes -/

theorem Reads.policy {α : Type} {what choices : String} {ofSpelling? : String → Option α}
    {set : RecoverySet} : Reads (policy what choices ofSpelling? set) s fun result ts _ =>
      ∃ policy text, result = some policy ∧ ofSpelling? text = some policy ∧ ts = [.name text] := by
  unfold Parser.policy
  refine Reads.bind Reads.expectName fun name s₁ _ => ?_
  cases name with
  | none =>
      refine Reads.pure ?_
      rintro _ ⟨_, h, -⟩
      cases h
  | some name =>
      dsimp only
      split
      · rename_i policy hpolicy
        refine Reads.pure ?_
        rintro _ ⟨_, ⟨rfl⟩, rfl⟩
        exact ⟨policy, name.text, rfl, hpolicy, rfl⟩
      · exact Reads.bind_false Reads.report fun _ _ => Recovers.pure _

theorem Reads.flowPolicy {set : RecoverySet} : Reads (flowPolicy set) s fun result ts _ =>
    ∃ flow, result = some flow ∧
      (ts = [.mark .comma, .name flow.spelling] ∨ ts = [] ∧ flow = defaultFlowPolicy) := by
  unfold Parser.flowPolicy
  refine Reads.acceptPunctuation (fun s₁ _ => ?_) fun _ => Reads.pure ?_
  · refine Reads.policy.mono ?_
    rintro _ _ _ - ⟨flow, text, rfl, hflow, rfl⟩
    exact ⟨flow, rfl, .inl (by rw [FlowPolicy.spelling_of_ofSpelling? hflow])⟩
  · exact ⟨_, rfl, .inr ⟨rfl, rfl⟩⟩

theorem Reads.policies {set : RecoverySet} : Reads (policies set) s fun result ts _ =>
    ∃ data flow, result = some (data, flow) ∧ BehaviorForm ⟨data, flow, .none⟩
      (.mark .hash :: .mark .lBracket :: .name behaviorAttribute :: (ts ++ [.mark .rBracket])) := by
  unfold Parser.policies
  dsimp only
  refine Reads.bind Reads.expectPunctuation fun found s₁ _ => ?_
  split
  · refine Reads.bind Reads.policy fun data s₂ _ => ?_
    refine Reads.bind Reads.flowPolicy fun flow s₃ _ => ?_
    refine Reads.bind Reads.expectPunctuation fun _ s₄ _ => ?_
    cases data with
    | none =>
        refine Reads.pure ?_
        rintro _ - _ - _ ⟨_, _, h, -⟩
        cases h
    | some data =>
        cases flow with
        | none =>
            refine Reads.pure ?_
            rintro _ - _ ⟨_, h, -⟩
            cases h
        | some flow =>
            refine Reads.pure ?_
            rintro _ ⟨-, rfl⟩ _ ⟨_, ⟨rfl⟩, hflow⟩ _ ⟨_, text, ⟨rfl⟩, hdata, rfl⟩ _ ⟨-, rfl⟩
            refine ⟨data, flow, rfl, ?_⟩
            rw [← DataPolicy.spelling_of_ofSpelling? hdata]
            obtain rfl | ⟨rfl, rfl⟩ := hflow
            · exact .full data flow
            · exact .short data
  · rename_i hfound
    exact Reads.pure fun _ h => absurd h.1 hfound

theorem Reads.attributeBody {set : RecoverySet} : Reads (attributeBody set) s fun result ts _ =>
    ∃ data flow, result = some (data, flow) ∧ BehaviorForm ⟨data, flow, .none⟩
      (.mark .hash :: (ts ++ [.mark .rBracket])) := by
  unfold Parser.attributeBody
  refine Reads.bind Reads.expectPunctuation fun found s₁ _ => ?_
  split
  · refine Reads.bind Reads.expectName fun name s₂ _ => ?_
    cases name with
    | none =>
        refine Reads.pure ?_
        rintro _ ⟨_, h, -⟩
        cases h
    | some name =>
        dsimp only
        split
        · rename_i hbehavior
          refine Reads.policies.mono ?_
          rintro _ ts _ - ⟨data, flow, rfl, hform⟩ _ ⟨_, ⟨rfl⟩, rfl⟩ _ ⟨-, rfl⟩
          rw [hbehavior]
          exact ⟨data, flow, rfl, hform⟩
        · refine Reads.bind_false Reads.report fun _ _ => ?_
          exact Recovers.bind Recovers.synchronize fun _ _ => Recovers.pure _
  · rename_i hfound
    exact Reads.pure fun _ h => absurd h.1 hfound

/-- What an attribute says has been read, or there is none. -/
def AttributeRead (attr : Option Attribute) (ts : List Terminal) : Prop :=
  attr = none ∧ ts = [] ∨
    ∃ a behavior, attr = some a ∧ a.behavior = some behavior ∧ BehaviorForm behavior.shape ts

theorem Reads.attributeHere : Reads attributeHere s fun attr ts _ => AttributeRead attr ts := by
  unfold Parser.attributeHere
  dsimp only
  refine Reads.peek (Reads.acceptPunctuation (fun s₁ _ => ?_) fun _ => Reads.pure (.inl ⟨rfl, rfl⟩))
  refine Reads.bind Reads.attributeBody fun policies s₂ _ => ?_
  refine Reads.bind Reads.expectPunctuation fun _ s₃ _ => Reads.rangeSince fun range => ?_
  refine Reads.pure ?_
  rintro _ ⟨-, rfl⟩ ts ⟨data, flow, rfl, hform⟩
  exact .inr ⟨_, _, rfl, rfl, by simpa [Behavior.shape] using hform⟩

theorem Reads.nodeDecl {attr : Option Attribute} (hkind : s.current.kind = .keyword .externWord) :
    Reads (nodeDecl (attr.bind Attribute.behavior)) s fun result ts _ =>
      ∀ bs, AttributeRead attr bs → DeclRead result (bs ++ ts) := by
  unfold Parser.nodeDecl
  refine Reads.advance_of hkind (by simp) (by simp) fun s₁ _ => Reads.peek ?_
  split
  · refine Reads.bind_false Reads.expectedWithHelp fun _ _ => ?_
    exact Recovers.bind Recovers.abandonDecl fun _ _ => Recovers.pure _
  · rename_i category hcategory
    obtain ⟨word, hword, hof⟩ := Option.bind_eq_some_iff.mp hcategory
    have hkeyword := NodeCategory.keyword_of_ofKeyword? hof
    refine Reads.advance_of (Token.kind_of_keyword? hword) (by simp) (by simp) fun s₂ _ => ?_
    refine Reads.bind Reads.expectName fun name s₃ _ => ?_
    cases name with
    | none =>
        refine (Recovers.bind Recovers.abandonDecl fun _ _ => Recovers.pure _).mono ?_
        rintro _ _ _ - - ts ⟨_, h, -⟩
        cases h
    | some name =>
        refine Reads.bind Reads.paramList fun ports s₄ _ => ?_
        refine Reads.bind Reads.expectSemi fun _ s₅ _ => Reads.pure ?_
        rintro _ rfl _ ⟨ps, rfl, hports⟩ _ ⟨_, ⟨rfl⟩, rfl⟩ bs hattr
        refine ⟨_, rfl, fun head => ⟨rfl, ?_⟩⟩
        have hattribute : AttributeForm ((attr.bind Attribute.behavior).map Behavior.shape) bs := by
          obtain ⟨rfl, rfl⟩ | ⟨a, behavior, rfl, hbehavior, hform⟩ := hattr
          · exact .absent
          · simpa [hbehavior] using AttributeForm.present hform
        have hform := BareDeclForm.node head.shape category name.text hattribute hports
        rw [hkeyword] at hform
        simpa [Decl.shape, Terminal.word] using hform

/-! ### Declarations -/

/-- A declaration has been read behind its documentation and its attribute. -/
def DeclDone (docs : Docs) (attr : Option Attribute) (result : Option Decl) (ts : List Terminal) :
    Prop :=
  ∀ bs, AttributeRead attr bs → ∃ decl, result = some decl ∧
    decl.shape.head = ⟨.blank, docs.lines⟩ ∧ BareDeclForm decl.shape (bs ++ ts)

theorem Reads.finishDecl {build : Option (DeclHead → Decl)} {docs : Docs} {start : SourceRange}
    {attr : Option SourceRange} : Reads (finishDecl build docs start attr) s fun result us _ =>
      us = [] ∧ ∀ ts, DeclRead build ts → ∃ decl, result = some decl ∧
        decl.shape.head = ⟨.blank, docs.lines⟩ ∧ BareDeclForm decl.shape ts := by
  unfold Parser.finishDecl
  cases build with
  | none =>
      refine Reads.pure ⟨rfl, ?_⟩
      rintro _ ⟨_, h, -⟩
      cases h
  | some build =>
      refine Reads.rangeSince fun own => Reads.map Reads.newDecl ?_
      rintro _ _ us ⟨⟨origin, rfl⟩, rfl⟩
      refine ⟨rfl, ?_⟩
      rintro ts ⟨_, ⟨rfl⟩, hbuild⟩
      obtain ⟨hhead, hform⟩ := hbuild ⟨origin, docs.lines⟩
      exact ⟨_, rfl, by rw [Decl.head_shape, hhead]; rfl, hform⟩

theorem Reads.plainDecl {parser : Parser (Option (DeclHead → Decl))} {docs : Docs}
    {attr : Option Attribute} (hparser : Reads parser s fun result ts _ => DeclRead result ts) :
    Reads (plainDecl parser docs attr) s fun result ts _ => DeclDone docs attr result ts := by
  unfold Parser.plainDecl
  dsimp only
  refine Reads.peek (Reads.bind hparser fun build s₁ _ => ?_)
  cases attr with
  | some attr =>
      exact Reads.bind_false Reads.report fun _ _ => Reads.finishDecl.recovers
  | none =>
      refine Reads.finishDecl.mono ?_
      rintro result _ _ - ⟨rfl, hfinish⟩ ts hread bs (⟨-, rfl⟩ | ⟨_, _, h, -⟩)
      · obtain ⟨decl, rfl, hhead, hform⟩ := hfinish ts hread
        exact ⟨decl, rfl, hhead, by simpa using hform⟩
      · cases h

theorem Reads.noDeclaration : Reads declarationAfter.noDeclaration s fun _ _ _ => False := by
  unfold Parser.declarationAfter.noDeclaration
  refine Reads.bind_false Reads.expectedWithHelp fun _ _ => ?_
  exact Recovers.bind Recovers.synchronize fun _ _ => Recovers.pure _

theorem Reads.nothingDeclared {docs : Docs} {attr : Option Attribute} :
    Reads (nothingDeclared docs attr) s fun _ ts _ => attr = none ∧ docs.range = none ∧ ts = [] := by
  unfold Parser.nothingDeclared
  split
  · exact Reads.expected.mono fun _ _ _ _ h => h.elim
  · unfold Parser.danglingDocs
    split
    · exact Reads.report.mono fun _ _ _ _ h => h.elim
    · rename_i hrange
      exact Reads.pure ⟨rfl, hrange, rfl⟩

theorem Reads.declarationAfter {docs : Docs} {attr : Option Attribute} :
    Reads (declarationAfter docs attr) s fun result ts _ => DeclDone docs attr result ts ∨
      attr = none ∧ docs.range = none ∧ ts = [] ∧ s.current.isEndOfFile = true := by
  unfold Parser.declarationAfter
  refine Reads.peek ?_
  split
  · split
    · exact Reads.bind_false Reads.skipForeign fun _ _ => Recovers.pure _
    · exact Reads.noDeclaration.mono fun _ _ _ _ h => h.elim
  · rename_i hkind
    exact (Reads.plainDecl (Reads.importDecl hkind)).mono fun _ _ _ _ h => .inl h
  · rename_i hkind
    refine Reads.peekSecond ?_
    split
    · rename_i hsecond
      have htype : (s.tokenAt 1).kind = .keyword .typeWord := by
        simpa [Token.isKeyword] using hsecond
      exact (Reads.plainDecl (Reads.opaqueTypeDecl hkind htype)).mono fun _ _ _ _ h => .inl h
    · refine Reads.bind (Reads.nodeDecl hkind) fun build s₁ _ => ?_
      refine Reads.finishDecl.mono ?_
      rintro result _ _ - ⟨rfl, hfinish⟩ ts hread
      refine .inl fun bs hattr => ?_
      rw [List.append_nil]
      exact hfinish _ (hread bs hattr)
  · rename_i hkind
    exact (Reads.plainDecl (Reads.typeAliasDecl hkind)).mono fun _ _ _ _ h => .inl h
  · rename_i hkind
    exact (Reads.plainDecl (Reads.varDecl hkind)).mono fun _ _ _ _ h => .inl h
  · rename_i hkind
    exact (Reads.plainDecl (Reads.constDecl hkind)).mono fun _ _ _ _ h => .inl h
  · rename_i hkind
    exact (Reads.plainDecl (Reads.treeDecl hkind)).mono fun _ _ _ _ h => .inl h
  · rename_i hkind
    refine Reads.bind Reads.nothingDeclared fun _ s₁ _ => Reads.pure ?_
    rintro ts ⟨hattr, hrange, rfl⟩
    exact .inr ⟨hattr, hrange, rfl, by simp [Token.isEndOfFile, hkind]⟩
  · exact Reads.noDeclaration.mono fun _ _ _ _ h => h.elim

theorem Reads.declaration (hcurrent : s.current.isEndOfFile = false) :
    Reads declaration s fun result ts _ =>
      ∃ decl, result = some decl ∧ DeclForm decl.shape ts := by
  refine Reads.of_ready fun hready => ?_
  unfold Parser.declaration
  refine Reads.bind_coming Reads.docComments fun docs s₁ _ => ?_
  refine Reads.bind_coming Reads.attributeHere fun attr s₂ _ => ?_
  refine Reads.of_ready fun hready₂ => Reads.declarationAfter.mono ?_
  rintro result ts _ - hread bs hbs hattr ds hds ⟨rfl, hranged⟩
  obtain hdone | ⟨hnone, hrange, -, hend⟩ := hread
  · obtain ⟨decl, rfl, hhead, hform⟩ := hdone bs hattr
    exact ⟨decl, rfl, .mk docs.lines hhead hform⟩
  · -- Where nothing was read the file has not ended.
    obtain ⟨-, rfl⟩ | ⟨_, _, hsome, -⟩ := hattr
    · rw [hranged hrange] at hds
      have hkind := hready.current_kind_eq hready₂ (hds.trans hbs)
      simp only [Token.isEndOfFile, hkind] at hend hcurrent
      rw [hend] at hcurrent
      cases hcurrent
    · rw [hnone] at hsome
      cases hsome

/-! ### Programs -/

theorem Reads.moduleDocs : Reads moduleDocs s fun docs ts _ =>
    ts = docs.map fun line => .of (.moduleDoc line) := by
  refine (Reads.iterate (Collects (fun line ts => ts = [.of (.moduleDoc line)]) []) ?_
    fun docs s₁ _ => ?_).mono fun docs ts us _ hloop => ?_
  · rintro v w vs ⟨_, _, h⟩
    cases h
  · unfold Parser.moduleDocTurn
    refine Reads.peek ?_
    split
    · rename_i line hkind
      exact Reads.advance_of hkind (by simp) (by simp) fun _ _ => Reads.pure ⟨line, rfl, rfl⟩
    · exact Reads.pure ⟨rfl, rfl⟩
  · obtain ⟨more, ms, rfl, rfl, hmore⟩ := hloop.sequence
    rw [List.append_nil, hmore.eq_flatMap, ← List.map_eq_flatMap]

/-- The end of the file is at hand behind the last declaration. -/
def ProgramTurn (decls : List Decl) (result : Turn (List Decl)) (ts us : List Terminal) : Prop :=
  Collects (fun decl => DeclForm decl.shape) [] decls result ts us ∧
    ∀ last, result = .done last → us.head?.map Terminal.kind = some .endOfFile

theorem Reads.programTurn (decls : List Decl) :
    Reads (programTurn decls) s (ProgramTurn decls) := by
  unfold Parser.programTurn
  refine Reads.of_ready fun hready => Reads.atEnd ?_
  split
  · rename_i hend
    refine Reads.pure ⟨⟨rfl, rfl⟩, fun _ _ => ?_⟩
    have hkind : s.current.kind = .endOfFile := by simpa [Token.isEndOfFile] using hend
    rw [coming, hready.rest_eq]
    exact congrArg some hkind
  · rename_i hcurrent
    have hdecl := Reads.declaration (s := s) (by simpa using hcurrent)
    refine Reads.bind (Reads.orStepOver hdecl ?_) fun result s₁ _ => Reads.pure ?_
    · rintro _ _ ⟨decl, -, hform⟩
      exact hform.ne_nil rfl
    · rintro ts ⟨decl, rfl, hform⟩
      exact ⟨⟨decl, rfl, by simpa using hform⟩, fun _ h => by cases h⟩

theorem Iterated.program {first last : List Decl} {ts us : List Terminal}
    (h : Iterated ProgramTurn first last ts us) :
    Iterated (Collects (fun decl => DeclForm decl.shape) []) first last ts us ∧
      us.head?.map Terminal.kind = some .endOfFile := by
  induction h with
  | done hturn => exact ⟨.done hturn.1, hturn.2 _ rfl⟩
  | again hturn _ ih => exact ⟨.again hturn.1 ih.1, ih.2⟩

theorem Reads.program : Reads program s fun program ts us =>
    ProgramForm program.shape ts ∧ us.head?.map Terminal.kind = some .endOfFile := by
  unfold Parser.program
  refine Reads.bind Reads.moduleDocs fun docs s₁ _ => ?_
  refine Reads.bind (Reads.iterate _ ?_ fun decls s₂ _ => Reads.programTurn decls)
    fun decls s₂ _ => ?_
  · rintro v w vs ⟨⟨_, _, h⟩, -⟩
    exact h.ne_nil rfl
  · refine Reads.of_bind_pure (Reads.still ⟨rfl, rfl, rfl, rfl, rfl⟩ fun s₃ _ => Reads.pure ?_)
    rintro ts hloop _ rfl
    obtain ⟨hdecls, hend⟩ := hloop.program
    obtain ⟨more, ds, rfl, rfl, hmore⟩ := hdecls.sequence
    refine ⟨?_, hend⟩
    simpa [Program.shape] using ProgramForm.mk docs hmore.map

end Parser

end BehaviorTree
