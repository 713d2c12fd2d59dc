import BehaviorTree.Parsing.Declaration
import BehaviorTree.Proofs.Parsing.StatementsAccepted
import BehaviorTree.Proofs.Syntax.Spelling

/-!
# Accepted programs

Ports and parameters, attributes and declarations are accepted as the grammar derives them. A
program whose trees are made of plain statements is therefore accepted in front of the end of the
file, and nothing is reported about it.

The parser is complete: whatever is a plain sentence of the grammar is read in silence, as the program
that the grammar derives it for. In particular a well-formed program is got back from its spelling:
error recovery never interferes, and no lookahead takes one construct for another.
-/

namespace BehaviorTree

open ParserState

namespace Parser

variable {ts us : List Terminal}

/-! ### Ports and parameters -/

theorem front_directed {docs : List String} {direction : Option Direction} {name : String} :
    (front (docTerminals docs ++ directionTerminals direction ++ .name name :: ts)).kind ≠
        .punctuation .rParen ∧
      (front (docTerminals docs ++ directionTerminals direction ++ .name name :: ts)).kind ≠
        .endOfFile := by
  cases docs <;> cases direction <;>
    simp [docTerminals, directionTerminals, Terminal.word, Terminal.name, Terminal.of]

/-- What a parameter starts with neither closes a list nor ends a file. -/
theorem front_param {item : Param} (h : ParamForm item ts) :
    (front (ts ++ us)).kind ≠ .punctuation .rParen ∧ (front (ts ++ us)).kind ≠ .endOfFile := by
  cases h with
  | mk docs direction name _ _ =>
      rw [List.append_assoc, List.cons_append]
      exact front_directed

theorem Accepts.param {what : String} {set : RecoverySet} {item : Param} (h : ParamForm item ts)
    (hcloses : Closes us) :
    Accepts (param what set) ts us fun result =>
      ∃ found, result = some found ∧ found.shape = item := by
  cases h with
  | @mk type default types defaults docs direction name htype hdefault =>
      unfold Parser.param
      rw [List.append_assoc]
      have hfront : ∀ rest, (front (directionTerminals direction ++ .name name :: rest)).kind =
          .identifier ∨ ∃ word, (front (directionTerminals direction ++ .name name :: rest)).kind =
            .keyword word := by
        intro rest
        cases direction with
        | none => exact .inl rfl
        | some direction => exact .inr ⟨direction.keyword, rfl⟩
      have hdocs : Accepts Parser.docComments (docTerminals docs) (directionTerminals direction ++
          .name name :: .mark .colon :: (types ++ defaults) ++ us) (·.lines = docs) := by
        rw [List.append_assoc, List.cons_append]
        apply Accepts.docComments
        · intro line hline
          rcases hfront _ with hname | ⟨word, hword⟩
          · cases hname.symm.trans hline
          · cases hword.symm.trans hline
        · intro line hline
          rcases hfront _ with hname | ⟨word, hword⟩
          · cases hname.symm.trans hline
          · cases hword.symm.trans hline
      refine Accepts.bind hdocs fun docs' hdocs' => ?_
      apply Accepts.peek
      intro token _
      refine Accepts.bind (Accepts.direction fun _ => by simp [Terminal.name]) ?_
      rintro _ rfl
      change Accepts _ ([.name name] ++ ([.mark .colon] ++ (types ++ defaults))) us _
      refine Accepts.bind Accepts.expectName ?_
      rintro _ ⟨name', rfl, hname⟩
      refine Accepts.bind Accepts.expectPunctuation ?_
      rintro _ rfl
      rw [if_pos rfl]
      have hends : EndsType types (defaults ++ us) := by
        cases hdefault with
        | absent => exact hcloses.endsType types
        | present _ =>
            exact ⟨by simp [Terminal.op, Terminal.of], fun _ => by simp [Terminal.op, Terminal.of]⟩
      refine Accepts.bind (Accepts.typeExpr htype hends) fun type' htype' => ?_
      refine Accepts.bind_nil (Accepts.initializer hdefault hcloses) fun default' hdefault' => ?_
      apply Accepts.rangeSince
      intro range
      refine Accepts.pure ⟨_, rfl, ?_⟩
      rw [Param.shape, hdocs', Name.shape, hname, htype', hdefault']

/-- Lists of ports and parameters are read as lists in parentheses are. -/
theorem paramTurn_eq (what : String) :
    let set : RecoverySet := [.comma, .rParen, .lBrace] ++ RecoverySet.top
    paramTurn what = listTurn ("to close the " ++ what ++ " list")
      ("`,` or `)` in " ++ what ++ " list") false set (param what set)
      fun params param => params ++ param.toList := rfl

theorem Accepts.paramList {what context : String} {items : List Param}
    (h : Closed ParamForm items ts) :
    Accepts (paramList what context) (.mark .lParen :: ts) us
      fun found => found.map Param.shape = items := by
  unfold Parser.paramList
  change Accepts _ ([.mark .lParen] ++ ts) us _
  refine Accepts.bind Accepts.expectPunctuation ?_
  rintro _ rfl
  rw [if_pos rfl]
  have hlist : Accepts (iterate (paramTurn what) []) ([] ++ ts) us
      fun found => found.map Param.shape = [] ++ items := by
    rw [paramTurn_eq]
    refine Leads.listed (fun _ _ _ hform => front_param hform) ?_ h Leads.nothing_found
    intro item is mark us found hform hmark
    have hcloses : Closes (.mark mark :: us) := by
      rcases hmark with rfl | rfl <;> exact Closes.mark (by simp) (by simp)
    refine (Accepts.param hform hcloses).mono ?_
    rintro _ ⟨param, rfl, hparam⟩
    exact ⟨param, rfl, hparam⟩
  exact hlist

/-! ### Attributes -/

theorem Accepts.policy {α : Type} {what choices text : String} {ofSpelling? : String → Option α}
    {set : RecoverySet} {chosen : α} (h : ofSpelling? text = some chosen) :
    Accepts (policy what choices ofSpelling? set) [.name text] us (· = some chosen) := by
  unfold Parser.policy
  apply Accepts.bind_nil Accepts.expectName
  rintro _ ⟨name, rfl, hname⟩
  dsimp only
  rw [hname, h]
  exact Accepts.pure rfl

theorem Accepts.policies {behavior : Behavior} (h : BehaviorForm behavior ts) (set : RecoverySet)
    (us : List Terminal) : ∃ inner, ts = .mark .hash :: .mark .lBracket :: .name behaviorAttribute ::
        (inner ++ [.mark .rBracket]) ∧
      Accepts (policies set) inner ([.mark .rBracket] ++ us)
        (· = some (behavior.data, behavior.flow)) := by
  cases h with
  | full data flow =>
      refine ⟨[.mark .lParen, .name data.spelling, .mark .comma, .name flow.spelling,
        .mark .rParen], rfl, ?_⟩
      unfold Parser.policies
      dsimp only
      change Accepts _ ([.mark .lParen] ++ ([.name data.spelling] ++
        ([.mark .comma, .name flow.spelling] ++ [.mark .rParen]))) _ _
      apply Accepts.bind Accepts.expectPunctuation
      rintro _ rfl
      apply Accepts.bind (Accepts.policy (DataPolicy.ofSpelling?_spelling data))
      rintro _ rfl
      have hflow : Accepts (flowPolicy (set ++ [.rParen])) [.mark .comma, .name flow.spelling]
          ([.mark .rParen] ++ ([.mark .rBracket] ++ us)) (· = some flow) := by
        unfold Parser.flowPolicy
        exact Accepts.punctuation (Accepts.policy (FlowPolicy.ofSpelling?_spelling flow))
      apply Accepts.bind hflow
      rintro _ rfl
      exact Accepts.bind_nil Accepts.expectPunctuation fun _ _ => Accepts.pure rfl
  | short data =>
      refine ⟨[.mark .lParen, .name data.spelling, .mark .rParen], rfl, ?_⟩
      unfold Parser.policies
      dsimp only
      change Accepts _ ([.mark .lParen] ++ ([.name data.spelling] ++ [.mark .rParen])) _ _
      apply Accepts.bind Accepts.expectPunctuation
      rintro _ rfl
      apply Accepts.bind (Accepts.policy (DataPolicy.ofSpelling?_spelling data))
      rintro _ rfl
      have hflow : Accepts (flowPolicy (set ++ [.rParen])) [] ([.mark .rParen] ++ ([.mark .rBracket] ++ us))
          (· = some defaultFlowPolicy) := by
        unfold Parser.flowPolicy
        exact Accepts.noPunctuation (by simp [Terminal.mark, Terminal.of]) (Accepts.pure rfl)
      apply Accepts.bind_nil_left hflow
      rintro _ rfl
      exact Accepts.bind_nil Accepts.expectPunctuation fun _ _ => Accepts.pure rfl

theorem Accepts.attributeBody {set : RecoverySet} {found : Option (DataPolicy × FlowPolicy)}
    {inner : List Terminal} (hpolicies : Accepts (Parser.policies set) inner us (· = found)) :
    Accepts (Parser.attributeBody set) (.mark .lBracket :: .name behaviorAttribute :: inner) us
      (· = found) := by
  unfold Parser.attributeBody
  change Accepts _ ([.mark .lBracket] ++ ([.name behaviorAttribute] ++ inner)) _ _
  apply Accepts.bind Accepts.expectPunctuation
  rintro _ rfl
  rw [if_pos rfl]
  apply Accepts.bind Accepts.expectName
  rintro _ ⟨name, rfl, hname⟩
  dsimp only
  rw [if_pos hname]
  exact hpolicies

theorem Accepts.attributeHere {behavior : Option Behavior} (h : AttributeForm behavior ts)
    (hfront : (front us).kind ≠ .punctuation .hash) :
    Accepts attributeHere ts us fun attr => (behavior = none → attr = none) ∧
      (attr.bind Attribute.behavior).map Behavior.shape = behavior := by
  unfold Parser.attributeHere
  apply Accepts.peek
  intro token _
  cases h with
  | absent => exact Accepts.noPunctuation hfront (Accepts.pure ⟨fun _ => rfl, rfl⟩)
  | @present behavior ts hbehavior =>
      have hshape : (⟨behavior.data, behavior.flow, .none⟩ : Behavior) = behavior := by
        cases hbehavior <;> rfl
      obtain ⟨inner, rfl, hpolicies⟩ :=
        Accepts.policies hbehavior (Stop.rBracket :: RecoverySet.top) us
      apply Accepts.punctuation
      unfold Parser.attributeBehind
      apply Accepts.bind (Accepts.attributeBody hpolicies)
      rintro _ rfl
      apply Accepts.bind_nil Accepts.expectPunctuation
      intro _ _
      apply Accepts.rangeSince
      intro range
      exact Accepts.pure ⟨nofun, congrArg some hshape⟩

/-! ### Declarations -/

/-- What was read is all of a declaration but its documentation. -/
def CompletesDecl (decl : Decl) (result : Option (DeclHead → Decl)) : Prop :=
  ∃ build, result = some build ∧ ∀ head : DeclHead, head.shape = decl.head → (build head).shape = decl

/-- A declaration was read. -/
def Makes (decl : Decl) (result : Option Decl) : Prop :=
  ∃ found, result = some found ∧ found.shape = decl

theorem Accepts.finishDecl {decl : Decl} {build : Option (DeclHead → Decl)} {docs : Docs}
    {start : SourceRange} {attr : Option SourceRange} (hbuild : CompletesDecl decl build)
    (hhead : decl.head = ⟨.blank, docs.lines⟩) :
    Accepts (finishDecl build docs start attr) [] us (Makes decl) := by
  obtain ⟨build, rfl, hshape⟩ := hbuild
  unfold Parser.finishDecl
  apply Accepts.rangeSince
  intro own
  have hnew : ∀ range, Accepts (Parser.newDecl range fun origin => build ⟨origin, docs.lines⟩) [] us
      (·.shape = decl) := by
    intro range
    apply Accepts.of_bind_pure
    apply Accepts.newDecl
    intro origin
    exact Accepts.pure (hshape _ (by rw [hhead, DeclHead.shape]))
  exact Accepts.map (hnew _) fun found hfound => ⟨found, rfl, hfound⟩

theorem Accepts.plainDecl {decl : Decl} {parser : Parser (Option (DeclHead → Decl))} {docs : Docs}
    (hparser : Accepts parser ts us (CompletesDecl decl))
    (hhead : decl.head = ⟨.blank, docs.lines⟩) :
    Accepts (plainDecl parser docs none) ts us (Makes decl) := by
  unfold Parser.plainDecl
  apply Accepts.peek
  intro token _
  apply Accepts.bind_nil hparser
  intro build hbuild
  exact Accepts.finishDecl hbuild hhead

theorem Accepts.importDecl {head : DeclHead} {path : String} :
    Accepts importDecl [.word .importWord, .of (.string path), .mark .semi] us
      (CompletesDecl (.importFile head path .none)) := by
  unfold Parser.importDecl
  apply Accepts.advance (by simp [Terminal.word, Terminal.of])
  intro _ _
  apply Accepts.peek
  intro token htoken
  rw [show token.kind = .string path from Token.kind_of_terminal htoken]
  apply Accepts.advance (by simp [Terminal.of])
  intro _ _
  apply Accepts.intern
  apply Accepts.bind_nil Accepts.expectSemi
  intro _ _
  refine Accepts.pure ⟨_, rfl, fun head' hhead => ?_⟩
  rw [Decl.shape, hhead]
  rfl

theorem Accepts.nodeDecl (head : DeclHead) {category : NodeCategory} {name : String}
    {ports : List Param} {behavior : Option Behavior} {ps : List Terminal}
    (hports : Closed ParamForm ports ps) :
    Accepts (nodeDecl behavior) (.word .externWord :: .word category.keyword :: .name name ::
        .mark .lParen :: (ps ++ [.mark .semi])) us
      (CompletesDecl (.node head category ⟨name, .none⟩ ports (behavior.map Behavior.shape))) := by
  unfold Parser.nodeDecl
  apply Accepts.advance (by simp [Terminal.word, Terminal.of])
  intro _ _
  apply Accepts.peek
  intro token htoken
  have hcategory : token.keyword?.bind NodeCategory.ofKeyword? = some category := by
    rw [Token.keyword?, show token.kind = .keyword category.keyword from Token.kind_of_terminal htoken]
    exact NodeCategory.ofKeyword?_keyword category
  rw [hcategory]
  apply Accepts.advance (by simp [Terminal.word, Terminal.of])
  intro _ _
  change Accepts _ ([.name name] ++ ((.mark .lParen :: ps) ++ [.mark .semi])) us _
  apply Accepts.bind Accepts.expectName
  rintro _ ⟨name', rfl, hname⟩
  apply Accepts.bind (Accepts.paramList hports)
  intro ports' hports'
  apply Accepts.bind_nil Accepts.expectSemi
  intro _ _
  refine Accepts.pure ⟨_, rfl, fun head' hhead => ?_⟩
  rw [Decl.shape, Name.shape, hname, hports', hhead]
  rfl

theorem Accepts.opaqueTypeDecl {head : DeclHead} {name : String} :
    Accepts opaqueTypeDecl [.word .externWord, .word .typeWord, .name name, .mark .semi] us
      (CompletesDecl (.opaqueType head ⟨name, .none⟩)) := by
  unfold Parser.opaqueTypeDecl
  apply Accepts.advance (by simp [Terminal.word, Terminal.of])
  intro _ _
  apply Accepts.advance (by simp [Terminal.word, Terminal.of])
  intro _ _
  change Accepts _ ([.name name] ++ [.mark .semi]) us _
  apply Accepts.bind Accepts.expectName
  rintro _ ⟨name', rfl, hname⟩
  apply Accepts.bind_nil Accepts.expectSemi
  intro _ _
  refine Accepts.pure ⟨_, rfl, fun head' hhead => ?_⟩
  rw [Decl.shape, Name.shape, hname, hhead]
  rfl

theorem Accepts.typeAliasDecl {head : DeclHead} {name : String} {type : TypeExpr}
    (htype : Derives (.type type) ts) :
    Accepts typeAliasDecl (.word .typeWord :: .name name :: .op .eq :: (ts ++ [.mark .semi])) us
      (CompletesDecl (.typeAlias head ⟨name, .none⟩ type)) := by
  unfold Parser.typeAliasDecl
  apply Accepts.advance (by simp [Terminal.word, Terminal.of])
  intro _ _
  change Accepts _ ([.name name] ++ ([.op .eq] ++ (ts ++ [.mark .semi]))) us _
  apply Accepts.bind Accepts.expectName
  rintro _ ⟨name', rfl, hname⟩
  apply Accepts.bind Accepts.expectOperator
  rintro _ rfl
  rw [if_pos rfl]
  apply Accepts.bind (Accepts.typeExpr htype ((Closes.mark (by simp) (by simp)).endsType ts))
  intro type' htype'
  apply Accepts.bind_nil Accepts.expectSemi
  intro _ _
  refine Accepts.pure ⟨_, rfl, fun head' hhead => ?_⟩
  rw [Decl.shape, Name.shape, hname, htype', hhead]
  rfl

theorem Accepts.varDecl {head : DeclHead} {name : String} {type : Option TypeExpr}
    {init : Option Expr} {is : List Terminal} (htype : TypePart type ts)
    (hinit : ValuePart init is) :
    Accepts varDecl (.word .varWord :: .name name :: (ts ++ is ++ [.mark .semi])) us
      (CompletesDecl (.varDecl head ⟨name, .none⟩ type init)) := by
  unfold Parser.varDecl
  apply Accepts.bind_nil (Accepts.varParts htype hinit)
  rintro _ ⟨parts, rfl, hname, htype', hinit'⟩
  refine Accepts.pure ⟨_, rfl, fun head' hhead => ?_⟩
  rw [Decl.shape, Name.shape, hname, htype', hinit', hhead]
  rfl

theorem Accepts.constDecl {head : DeclHead} {name : String} {type : Option TypeExpr}
    {value : Expr} {vs : List Terminal} (htype : TypePart type ts)
    (hvalue : Derives (.expr value) vs) :
    Accepts constDecl (.word .constWord :: .name name :: (ts ++ .op .eq :: (vs ++ [.mark .semi]))) us
      (CompletesDecl (.constDecl head ⟨name, .none⟩ type value)) := by
  unfold Parser.constDecl
  apply Accepts.bind_nil (Accepts.constParts htype hvalue)
  rintro _ ⟨parts, rfl, hname, htype', hvalue'⟩
  refine Accepts.pure ⟨_, rfl, fun head' hhead => ?_⟩
  rw [Decl.shape, Name.shape, hname, htype', hvalue', hhead]
  rfl

theorem Accepts.treeDecl {head : DeclHead} {name : String} {params : List Param}
    {body : List Stmt} {ps bs : List Terminal} (hparams : Closed ParamForm params ps)
    (hbody : StmtForm (.stmts body) bs) (hplain : Stmt.AllPlain body) :
    Accepts treeDecl (.word .treeWord :: .name name :: .mark .lParen ::
        (ps ++ .mark .lBrace :: (bs ++ [.mark .rBrace]))) us
      (CompletesDecl (.tree head ⟨name, .none⟩ params body)) := by
  unfold Parser.treeDecl
  apply Accepts.advance (by simp [Terminal.word, Terminal.of])
  intro _ _
  change Accepts _ ([.name name] ++ ((.mark .lParen :: ps) ++
    .mark .lBrace :: (bs ++ [.mark .rBrace]))) us _
  apply Accepts.bind Accepts.expectName
  rintro _ ⟨name', rfl, hname⟩
  apply Accepts.bind (Accepts.paramList hparams)
  intro params' hparams'
  have hblock : Accepts treeBody (.mark .lBrace :: (bs ++ [.mark .rBrace])) us
      fun found => found.map Stmt.shape = body := by
    unfold Parser.treeBody
    exact Accepts.atPunctuation (Accepts.block hbody hplain)
  apply Accepts.bind_nil hblock
  intro body' hbody'
  refine Accepts.pure ⟨_, rfl, fun head' hhead => ?_⟩
  rw [Decl.shape, Name.shape, hname, hparams', hbody', hhead]
  rfl

theorem Accepts.declaration {decl : Decl} {docs : List String} {behavior : Option Behavior}
    {bs : List Terminal} {word : Keyword} (hattribute : AttributeForm behavior bs)
    (hafter : ∀ found attr, found.lines = docs → (behavior = none → attr = none) →
      (attr.bind Attribute.behavior).map Behavior.shape = behavior →
        Accepts (declarationAfter found attr) (.word word :: ts) us (Makes decl)) :
    Accepts declaration (docTerminals docs ++ (bs ++ .word word :: ts)) us (Makes decl) := by
  unfold Parser.declaration
  have hfront : (front (bs ++ .word word :: ts ++ us)).kind = .keyword word ∨
      (front (bs ++ .word word :: ts ++ us)).kind = .punctuation .hash := by
    cases hattribute with
    | absent => exact .inl rfl
    | present hbehavior => cases hbehavior <;> exact .inr rfl
  have hdocs : Accepts Parser.docComments (docTerminals docs) (bs ++ .word word :: ts ++ us)
      (·.lines = docs) := by
    apply Accepts.docComments
    · intro line hline
      rcases hfront with hfront | hfront <;> cases hfront.symm.trans hline
    · intro line hline
      rcases hfront with hfront | hfront <;> cases hfront.symm.trans hline
  apply Accepts.bind hdocs
  intro found hfound
  apply Accepts.bind (Accepts.attributeHere hattribute (by simp [Terminal.word, Terminal.of]))
  rintro attr ⟨hnone, hbehavior⟩
  exact hafter found attr hfound hnone hbehavior

/-- A declaration that starts with a word other than `extern`, or with `extern type`. -/
theorem Accepts.plain_declaration {decl : Decl} {docs : List String} {word : Keyword}
    {parser : Parser (Option (DeclHead → Decl))} (hhead : decl.head = ⟨.blank, docs⟩)
    (hparser : Accepts parser (.word word :: ts) us (CompletesDecl decl))
    (hword : ∀ found : Docs,
      Accepts (Parser.plainDecl parser found none) (.word word :: ts) us (Makes decl) →
        Accepts (declarationAfter found none) (.word word :: ts) us (Makes decl)) :
    Accepts Parser.declaration (docTerminals docs ++ .word word :: ts) us (Makes decl) := by
  refine Accepts.declaration .absent fun found attr hfound hnone _ => ?_
  rw [hnone rfl]
  exact hword found (Accepts.plainDecl hparser (hhead.trans (by rw [hfound])))

theorem DeclForm.accepted {decl : Decl} (h : DeclForm decl ts) (hplain : decl.Plain) :
    Accepts declaration ts us (Makes decl) := by
  cases h with
  | mk docs hhead hbare =>
      cases hbare with
      | importFile head path =>
          refine Accepts.plain_declaration hhead Accepts.importDecl fun found hdecl => ?_
          refine Accepts.peek fun token htoken => ?_
          rw [show token.kind = .keyword .importWord from Token.kind_of_terminal htoken]
          exact hdecl
      | node head category name hattribute hports =>
          refine Accepts.declaration hattribute fun found attr hfound _ hbehavior => ?_
          refine Accepts.peek fun token htoken => ?_
          rw [show token.kind = .keyword .externWord from Token.kind_of_terminal htoken]
          refine Accepts.peekSecond fun second hsecond => ?_
          have hkind : second.isKeyword .typeWord = false := by
            rw [Token.isKeyword, Token.kind_of_terminal hsecond]
            cases category <;> rfl
          rw [hkind, if_neg (by simp)]
          refine Accepts.bind_nil (Accepts.nodeDecl head hports) fun build hbuild => ?_
          rw [hbehavior] at hbuild
          exact Accepts.finishDecl hbuild (hhead.trans (by rw [hfound]))
      | opaqueType head name =>
          refine Accepts.plain_declaration hhead Accepts.opaqueTypeDecl fun found hdecl => ?_
          refine Accepts.peek fun token htoken => ?_
          rw [show token.kind = .keyword .externWord from Token.kind_of_terminal htoken]
          refine Accepts.peekSecond fun second hsecond => ?_
          rw [Token.isKeyword, Token.kind_of_terminal hsecond]
          exact hdecl
      | typeAlias head name htype =>
          refine Accepts.plain_declaration hhead (Accepts.typeAliasDecl htype) fun found hdecl => ?_
          refine Accepts.peek fun token htoken => ?_
          rw [show token.kind = .keyword .typeWord from Token.kind_of_terminal htoken]
          exact hdecl
      | varDecl head name htype hinit =>
          refine Accepts.plain_declaration hhead (Accepts.varDecl htype hinit) fun found hdecl => ?_
          refine Accepts.peek fun token htoken => ?_
          rw [show token.kind = .keyword .varWord from Token.kind_of_terminal htoken]
          exact hdecl
      | constDecl head name htype hvalue =>
          refine Accepts.plain_declaration hhead (Accepts.constDecl htype hvalue) fun found hdecl => ?_
          refine Accepts.peek fun token htoken => ?_
          rw [show token.kind = .keyword .constWord from Token.kind_of_terminal htoken]
          exact hdecl
      | tree head name hparams hbody =>
          refine Accepts.plain_declaration hhead (Accepts.treeDecl hparams hbody hplain)
            fun found hdecl => ?_
          refine Accepts.peek fun token htoken => ?_
          rw [show token.kind = .keyword .treeWord from Token.kind_of_terminal htoken]
          exact hdecl

/-! ### Programs -/

theorem Accepts.moduleDocs {docs : List String}
    (hfront : ∀ line, (front us).kind ≠ .moduleDoc line) :
    Accepts moduleDocs (docs.map fun line => .of (.moduleDoc line)) us (· = docs) := by
  have hloop : ∀ (docs before : List String) (vs : List Terminal),
      Leads moduleDocTurn Parser.moduleDocs vs
        (docs.map (fun line => .of (.moduleDoc line)) ++ us) (· = before) →
      Leads moduleDocTurn Parser.moduleDocs
        (vs ++ docs.map fun line => .of (.moduleDoc line)) us (· = before ++ docs) := by
    intro docs
    induction docs with
    | nil => simp
    | cons line docs ih =>
        intro before vs hlead
        have hfirst : Leads moduleDocTurn Parser.moduleDocs (vs ++ [.of (.moduleDoc line)])
            (docs.map (fun line => .of (.moduleDoc line)) ++ us) (· = before ++ [line]) := by
          refine Leads.turn hlead (by simp) fun found hfound => ?_
          refine Accepts.peek fun token htoken => ?_
          rw [show token.kind = .moduleDoc line from Token.kind_of_terminal htoken]
          apply Accepts.advance (by simp [Terminal.of])
          intro _ _
          exact Accepts.pure ⟨_, rfl, by rw [hfound]⟩
        have hall := ih _ _ hfirst
        simpa using hall
  refine Leads.stop_nil (hloop docs [] [] (Leads.iterate rfl)) fun found hfound => ?_
  refine Accepts.peek fun token htoken => ?_
  split
  · rename_i line hline
    exact absurd ((Token.kind_of_terminal htoken).symm.trans hline) (hfront line)
  · exact Accepts.pure ⟨found, rfl, hfound⟩

theorem DeclForm.front {decl : Decl} (h : DeclForm decl ts) :
    (front (ts ++ us)).kind ≠ .endOfFile ∧ ∀ line, (front (ts ++ us)).kind ≠ .moduleDoc line := by
  cases h with
  | mk docs _ hbare =>
      cases docs with
      | cons line docs => simp [docTerminals, Terminal.of]
      | nil =>
          cases hbare with
          | node head category name hattribute _ =>
              cases hattribute with
              | absent => simp [docTerminals, Terminal.word, Terminal.of]
              | present hbehavior =>
                  cases hbehavior <;> simp [docTerminals, Terminal.mark, Terminal.of]
          | _ => simp [docTerminals, Terminal.word, Terminal.of]

theorem Accepts.programTurn {decl : Decl} {found : List Decl} (h : DeclForm decl ts)
    (hplain : decl.Plain) :
    Accepts (programTurn found) ts us fun result =>
      ∃ longer, result = .again longer ∧ Finds Decl.shape found decl longer := by
  unfold Parser.programTurn
  apply Accepts.atEnd
  rw [if_neg (by simpa using (DeclForm.front h).1)]
  apply Accepts.bind_nil (Accepts.orStepOver h.ne_nil (DeclForm.accepted h hplain))
  rintro _ ⟨decl', rfl, hdecl⟩
  exact Accepts.pure ⟨_, rfl, decl', rfl, hdecl⟩

/-- **Every plain program is accepted.** In front of the end of the file its tree is read. -/
theorem Accepts.program {program : Program} (h : ProgramForm program ts) (hplain : program.Plain) :
    Accepts Parser.program ts [.of .endOfFile] (·.shape = program) := by
  cases h with
  | @mk decls ts docs hdecls =>
      unfold Parser.program
      have hdocs : Accepts Parser.moduleDocs (docs.map fun line => .of (.moduleDoc line))
          (ts ++ [.of .endOfFile]) (· = docs) := by
        apply Accepts.moduleDocs
        cases hdecls with
        | nil => simp [Terminal.of]
        | cons hfirst _ =>
            rw [List.append_assoc]
            exact (DeclForm.front hfirst).2
      have hloop : Accepts (iterate Parser.programTurn []) ts [.of .endOfFile]
          fun found => found.map Decl.shape = decls := by
        have hstart : Leads Parser.programTurn (iterate Parser.programTurn []) []
            (ts ++ [.of .endOfFile]) fun found => found.map Decl.shape = [] := Leads.nothing_found
        have hall := Leads.sequence (fun _ => True) (fun _ _ hitem => hitem.1.ne_nil)
          (fun _ _ _ _ => trivial) (fun _ _ _ _ hitem _ _ => Accepts.programTurn hitem.1 hitem.2)
          (hdecls.and hplain) trivial (Nat.le_refl _) hstart
        refine Leads.stop_nil hall fun found hfound => ?_
        exact Accepts.atEnd (Accepts.pure ⟨found, rfl, hfound⟩)
      apply Accepts.bind hdocs
      rintro _ rfl
      apply Accepts.bind_nil hloop
      intro decls' hdecls'
      refine Accepts.of_bind_pure (Accepts.still (fun _ => ⟨rfl, rfl, rfl, rfl⟩) fun s => ?_)
      exact Accepts.pure (by rw [Program.shape, hdecls'])

end Parser

/-! ### Completeness -/

/-- Every declaration ends in a mark. -/
theorem DeclForm.getLast? {decl : Decl} {ts : List Terminal} (h : DeclForm decl ts) :
    ∃ mark, ts.getLast? = some (.mark mark) := by
  cases h with
  | mk docs _ hbare =>
      cases hbare with
      | tree => exact ⟨.rBrace, by simp [List.getLast?_append, List.getLast?_cons]⟩
      | _ => exact ⟨.semi, by simp [List.getLast?_append, List.getLast?_cons]⟩

theorem ProgramForm.getLast_ne_endOfFile {program : Program} {ts : List Terminal}
    (h : ProgramForm program ts) : ∀ t ∈ ts.getLast?, t.kind ≠ .endOfFile := by
  cases h with
  | @mk decls ts docs hdecls =>
      have hlast : ts = [] ∨ ∃ mark, ts.getLast? = some (.mark mark) := by
        clear docs
        induction hdecls with
        | nil => exact .inl rfl
        | cons hfirst _ ih =>
            right
            rcases ih with rfl | ⟨mark, hmark⟩
            · rw [List.append_nil]
              exact hfirst.getLast?
            · exact ⟨mark, by rw [List.getLast?_append, hmark, Option.some_or]⟩
      intro t ht hend
      rcases hlast with rfl | ⟨mark, hmark⟩
      · rw [List.append_nil, List.getLast?_map] at ht
        obtain ⟨line, -, rfl⟩ := Option.map_eq_some_iff.mp ht
        cases hend
      · rw [List.getLast?_append, hmark, Option.some_or] at ht
        cases ht
        cases hend

namespace Parsed

variable {tokens : List Token} {ts : List Terminal}

/-- The parser starts in front of the given tokens and the end of the file. -/
theorem coming_initial (file : FileId) (arena : Arena) (hend : ∀ t ∈ ts.getLast?, t.kind ≠ .endOfFile)
    (htokens : tokens.map Token.terminal = ts ∨
      tokens.map Token.terminal = ts ++ [.of .endOfFile])
    (hlines : ∀ token ∈ tokens, token.newlineBefore = false) :
    (initial file tokens arena).Level ∧
      (initial file tokens arena).rest.map Token.terminal = ts ++ [.of .endOfFile] := by
  rcases htokens with htokens | htokens
  · have hopen : (tokens.getLast?.map Token.isEndOfFile).getD false = false := by
      cases hlast : tokens.getLast? with
      | none => rfl
      | some token =>
          have hkind : token.terminal ∈ ts.getLast? := by
            rw [← htokens, List.getLast?_map, hlast]
            rfl
          have hgoes : token.kind ≠ .endOfFile := hend _ hkind
          simpa [Token.isEndOfFile] using hgoes
    have hrest : (initial file tokens arena).rest = tokens ++ [closing file tokens] := by
      simp [initial, hopen]
    refine ⟨⟨?_, ?_, ?_⟩, ?_⟩
    · simp [initial, hopen, closing, Token.isEndOfFile]
    · simp [initial, hopen, closing]
    · intro token htoken
      rw [hrest, List.mem_append, List.mem_singleton] at htoken
      rcases htoken with htoken | rfl
      · exact hlines token htoken
      · rfl
    · rw [hrest, List.map_append, htokens]
      rfl
  · obtain ⟨before, closed, rfl, -, hclosed⟩ := List.map_eq_append_iff.mp htokens
    obtain ⟨last, nothing, rfl, hlast, hnothing⟩ := List.map_eq_cons_iff.mp hclosed
    obtain rfl := List.map_eq_nil_iff.mp hnothing
    have hclosed : last.isEndOfFile = true := by
      rw [Token.isEndOfFile, Token.kind_of_terminal hlast]
      rfl
    have hrest : (initial file (before ++ [last]) arena).rest = before ++ [last] := by
      simp [initial, hclosed]
    have hfinal : (initial file (before ++ [last]) arena).final = last := by
      simp [initial, hclosed]
    refine ⟨⟨?_, ?_, ?_⟩, ?_⟩
    · rw [hfinal, hclosed]
    · rw [hfinal]
      exact hlines last (by simp)
    · rw [hrest]
      exact hlines
    · rw [hrest, htokens]

/-- **Completeness.** Tokens that make up a plain program, all on one line, are read as that program,
and nothing is reported. -/
theorem ofTokens_complete (file : FileId) (arena : Arena) {program : Program} (h : ProgramForm program ts) (hplain : program.Plain)
    (htokens : tokens.map Token.terminal = ts ∨
      tokens.map Token.terminal = ts ++ [.of .endOfFile])
    (hlines : ∀ token ∈ tokens, token.newlineBefore = false) :
    (ofTokens file tokens arena).diagnostics = [] ∧
      (ofTokens file tokens arena).program.shape = program := by
  obtain ⟨hlevel, hcoming⟩ := coming_initial file arena h.getLast_ne_endOfFile htokens hlines
  obtain ⟨hshape, hreached⟩ := Parser.Accepts.program h hplain _ hlevel hcoming
  exact ⟨hreached.diagnostics, hshape⟩

/-- **Parsing undoes spelling.** The tokens of a well-formed program, all on one line, are read in
silence, and what comes out is the program. -/
theorem ofTokens_spelled (file : FileId) (arena : Arena) {program : Program}
    (hprogram : program.wellFormed = true)
    (htokens : tokens.map Token.terminal = program.spelled ∨
      tokens.map Token.terminal = program.spelled ++ [.of .endOfFile])
    (hlines : ∀ token ∈ tokens, token.newlineBefore = false) :
    (ofTokens file tokens arena).diagnostics = [] ∧
      (ofTokens file tokens arena).program.shape = program.shape := by
  obtain ⟨hform, hplain⟩ := Program.form_spelled hprogram
  exact ofTokens_complete file arena hform hplain htokens hlines

/-- `type T = string<8>?; tree Main(in n: T) { xs[n + 1] += 2; Go { } }` is got back. -/
theorem ofTokens_spelled_of_tree :
    let name (text : String) : Name := ⟨text, .none⟩
    let ref (text : String) : Expr := .ref .blank (name text)
    let head : StmtHead := ⟨.blank, ["what it does"], []⟩
    let program : Program := ⟨.detached, ["about this file"],
      [.typeAlias ⟨.blank, []⟩ (name "T") (.nullable .blank (.string .blank (some 8))),
        .tree ⟨.blank, []⟩ (name "Main")
          [⟨[], some .input, name "n", .named .blank (name "T"), none, .none⟩]
          [.assignment head (name "xs") [.binary .blank .add (ref "n") (.int .blank 1)] .add
              (.int .blank 2),
            .compound head (name "Go") none []]], .none⟩
    let tokens := program.spelled.map fun t => (⟨t.kind, t.text, .none, false⟩ : Token)
    program.wellFormed = true ∧ tokens.map Token.terminal = program.spelled ∧
      (∀ token ∈ tokens, token.newlineBefore = false) ∧
      (ofTokens .detached tokens .empty).diagnostics = [] ∧
      (ofTokens .detached tokens .empty).program.shape = program.shape := by
  intro name ref head program tokens
  have hprogram : program.wellFormed = true := by decide
  have htokens : tokens.map Token.terminal = program.spelled := by decide
  have hlines : ∀ token ∈ tokens, token.newlineBefore = false := by
    intro token htoken
    obtain ⟨t, -, rfl⟩ := List.mem_map.mp htoken
    rfl
  exact ⟨hprogram, htokens, hlines, ofTokens_spelled .detached .empty hprogram (.inl htokens) hlines⟩

end Parsed

end BehaviorTree
