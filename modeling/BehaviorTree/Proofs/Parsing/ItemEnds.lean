import BehaviorTree.Proofs.Parsing.Crossings

/-!
# Statements and declarations end behind a `;` or a block

What a silent run parses as a statement is a declaration, an assignment or a call up to its `;`, or a
node up to its block; what it parses as a declaration is one up to its `;`, or a tree up to its block.
-/

namespace BehaviorTree.Parser

open ParserState

variable {s : ParserState}

/-! ### Items without blocks -/

theorem Blockless.varParts {set : RecoverySet} (hword : s.current.kind = .keyword .varWord) :
    Blockless (varParts set) s := by
  unfold Parser.varParts
  refine .advance hword rfl rfl fun _ s' => .expectName (fun name s' => ?_)
    (Retains.bind (Retains.acceptPunctuation _) fun _ => Retains.pure _)
  exact .bind .declaredType .declaredType fun _ _ => .bind .initializer .initializer fun _ _ =>
    .terminated (.pure _)

theorem Blockless.constParts {set : RecoverySet} (hword : s.current.kind = .keyword .constWord) :
    Blockless (constParts set) s := by
  unfold Parser.constParts
  refine .advance hword rfl rfl fun _ s' => .expectName (fun name s' => ?_)
    (Retains.bind (Retains.acceptPunctuation _) fun _ => Retains.pure _)
  refine .bind .declaredType .declaredType fun _ _ => .expectOperator (fun s' => ?_) ?_
  · exact .bind .expression .expression fun _ _ => .terminated (.pure _)
  · exact Retains.bind Retains.missingExpr fun _ =>
      Retains.bind (fun _ => Delivers.expectSemi.retains) fun _ => Retains.pure _

theorem Blockless.assignment (hname : s.current.kind = .identifier) : Blockless assignment s := by
  unfold Parser.assignment
  refine .advance hname rfl rfl fun token s' => .bind (.nameOf _) (.nameOf _) fun target s' => ?_
  refine .bind (.iterate .indexTurn .indexTurn _) (.iterate fun indices _ => .indexTurn indices)
    fun indices s' => .peek ?_
  split
  · rename_i op hop
    obtain ⟨sign, hsign, -⟩ := Option.bind_eq_some_iff.mp hop
    exact .advance (Token.kind_of_operator? hsign) rfl rfl fun _ _ =>
      .bind .expression .expression fun _ _ => .terminated (.pure _)
  · exact .fail Delivers.expected fun _ => Retains.bind Retains.abandonStatement fun _ => Retains.pure _

theorem Blockless.leafBehind (callee : Name) (arguments : Option (List Argument)) :
    Blockless (leafBehind callee arguments) s := by
  unfold Parser.leafBehind
  cases arguments with
  | some arguments => exact .terminated (.pure _)
  | none => exact .fail Delivers.expectedWithHelp fun _ =>
      Retains.bind Retains.abandonStatement fun _ => Retains.pure _

/-! ### Nodes -/

/-- How a node may be finished. -/
def FinishesNode (finish : List Stmt → Parser (Option (StmtHead → Stmt))) : Prop :=
  ∃ callee arguments, finish = finishNode callee arguments

theorem Retains.finishNode (callee : Name) (arguments : Option (List Argument)) (children : List Stmt) :
    Retains (finishNode callee arguments children) :=
  Retains.bind (fun _ => Delivers.semicolonAfterBlock.retains) fun _ => Retains.pure _

theorem Crosses.node (hname : s.current.kind = .identifier) :
    Crosses True (Behind FinishesNode) (Parser.node Parser.block) s := by
  have hnode : Parser.node Parser.block = Parser.advance >>= fun token =>
      Parser.nameOf token >>= fun callee =>
      Parser.arguments >>= fun arguments => Parser.peek >>= fun next =>
        if next.isPunctuation .lBrace then Parser.block >>= Parser.finishNode callee arguments
        else Parser.leafBehind callee arguments := rfl
  rw [hnode]
  refine .advance hname rfl rfl fun token s' => .bind (.nameOf _) (.nameOf _) fun callee s' => ?_
  refine .bind .arguments .arguments fun arguments s' => .peek ?_
  split
  · rename_i hopens
    exact .block (by simpa [Token.isPunctuation] using hopens) ⟨.nil 0, callee, arguments, rfl⟩
      (Retains.finishNode callee arguments)
  · exact (Blockless.leafBehind callee arguments).crosses

/-! ### Statements -/

theorem Heedless.finishStmt (docs : Docs) (preconditions : List Precondition) (start : SourceRange)
    (build : Option (StmtHead → Stmt)) : Heedless (finishStmt docs preconditions start build) := by
  cases build with
  | none => exact .pure _
  | some build => exact .bind (.rangeSince _) fun _ => .bind (.newStmt _ _) fun _ => .pure _

theorem Crosses.bareStatement (preconditions : List Precondition) (docs : Docs)
    (hopen : s.current.isPunctuation .rBrace = false) (hgoes : breaksBlock s.current = false) :
    Crosses True (Behind FinishesNode) (Parser.bareStatement Parser.block preconditions docs) s := by
  have hclosed : ∀ {p : Parser (Option (StmtHead → Stmt))}, Blockless p s →
      Crosses True (Behind FinishesNode) p s := fun hp => hp.crosses
  unfold Parser.bareStatement
  refine .peek ?_
  split
  · rename_i hkind
    exact hclosed (Crosses.then (Blockless.varParts hkind) (fun _ => .pure _) fun _ _ h => h.2.elim)
  · rename_i hkind
    exact hclosed (Crosses.then (Blockless.constParts hkind) (fun _ => .pure _) fun _ _ h => h.2.elim)
  · rename_i hkind
    split
    · exact .fail Delivers.skipForeign fun _ => Retains.pure _
    · refine .read (fun k hk => hk.assignmentFollows (by rw [hkind]; rfl)) ?_
      split
      · exact hclosed (Blockless.assignment hkind)
      · exact .node hkind
  · rename_i hkind
    simp [Token.isPunctuation, hkind] at hopen
  · rename_i hkind
    simp [breaksBlock, Token.isEndOfFile, hkind] at hgoes
  · rename_i hvar hconst _ _ _
    split
    · rename_i hword
      simp [breaksBlock, hword, Token.isKeyword] at hgoes
      exact absurd (hgoes.2 hvar) hconst
    · exact .fail Delivers.expectedWithHelp fun _ =>
        Retains.bind Retains.abandonStatement fun _ => Retains.pure _

/-- A turn that asks for another one has found a line of documentation, or reports. -/
theorem docTurn_again {docs next : Docs} (hagain : (docTurn docs s).1 = .again next)
    (hsilent : (docTurn docs s).2.Silent) : next.range.isSome = true := by
  cases hcurrent : s.current with
  | mk kind text range line =>
      simp only [docTurn, bind, StateT.bind, Parser.peek, hcurrent] at hagain hsilent
      cases kind with
      | docComment _ =>
          cases hagain
          rfl
      | moduleDoc _ =>
          cases hagain
          have hadvanced : Reached (s.report (SyntaxReport.misplacedModuleDoc range)) _ :=
            Runs.advance (s.report (SyntaxReport.misplacedModuleDoc range))
          exact (not_silent_report _ (hadvanced.silent hsilent)).elim
      | _ => cases hagain

theorem docTurn_done {docs last : Docs} (hdone : (docTurn docs s).1 = .done last) :
    (docTurn docs s).2 = s ∧ last = docs := by
  cases hcurrent : s.current with
  | mk kind text range line =>
      simp only [docTurn, bind, StateT.bind, Parser.peek, hcurrent] at hdone ⊢
      cases kind with
      | docComment _ => cases hdone
      | moduleDoc _ => cases hdone
      | _ =>
          cases hdone
          exact ⟨rfl, rfl⟩

/-- Documentation without a range is no documentation. -/
theorem Loop.docs_nothing {docs last : Docs} {s' : ParserState} (hloop : Loop docTurn docs s last s')
    (hsilent : s'.Silent) (hnone : last.range = none) : s' = s ∧ docs.range = none := by
  induction hloop with
  | @last docs last s hdone =>
      obtain ⟨hstate, rfl⟩ := docTurn_done hdone
      exact ⟨hstate, hnone⟩
  | @turn docs next last s s' hagain _ ih =>
      obtain ⟨hstate, hnext⟩ := ih hsilent hnone
      have hsome := docTurn_again hagain (hstate ▸ hsilent)
      rw [hnext] at hsome
      cases hsome

theorem docComments_nothing (hquiet : s.Quiet) (hsilent : (docComments s).2.Silent)
    (hnone : (docComments s).1.range = none) : (docComments s).2 = s :=
  ((Loop.iterate Driven.docTurn hquiet.sealed).docs_nothing hsilent hnone).1

/-- How a statement with a block may be finished. -/
def FinishesStmt (finish : List Stmt → Parser (Option Stmt)) : Prop :=
  ∃ docs preconditions start callee arguments, finish = fun children =>
    finishNode callee arguments children >>= finishStmt docs preconditions start

theorem Crosses.statementBehind (docs : Docs) (preconditions : List Precondition)
    (hopen : s.current.isPunctuation .rBrace = false) (hgoes : breaksBlock s.current = false) :
    Crosses True (Behind FinishesStmt) (Parser.statementBehind Parser.block docs preconditions) s :=
  .peek (.then (.bareStatement preconditions docs hopen hgoes) (Heedless.finishStmt _ _ _)
    fun _ _ ⟨hwalk, callee, arguments, hfinish⟩ => ⟨hwalk, docs, preconditions, _, callee, arguments,
      by simp only [hfinish]; rfl⟩)

/-- Where a block ends there is no statement. -/
theorem bareStatement_ended (block : Parser (List Stmt)) (preconditions : List Precondition)
    (docs : Docs) (hends : s.current.isPunctuation .rBrace = true ∨ breaksBlock s.current = true) :
    bareStatement block preconditions docs s = (none, (unattached preconditions docs s).2) := by
  cases hcurrent : s.current with
  | mk kind text range line =>
      simp only [bareStatement, bind, StateT.bind, Parser.peek, hcurrent]
      rw [hcurrent] at hends
      cases kind with
      | endOfFile => rfl
      | punctuation mark =>
          have hmark : mark = .rBrace := by
            simpa [Token.isPunctuation, breaksBlock, Token.isEndOfFile, Token.isOpenerWord,
              Token.keyword?, TokenKind.keyword?] using hends
          subst hmark
          rfl
      | keyword word =>
          cases word <;> first | rfl | simp [Token.isPunctuation, breaksBlock, Token.isEndOfFile,
            Token.isOpenerWord, Token.keyword?, TokenKind.keyword?, Token.isKeyword, Keyword.isOpener,
            Keyword.openers] at hends
      | _ => simp [Token.isPunctuation, breaksBlock, Token.isEndOfFile, Token.isOpenerWord,
          Token.keyword?, TokenKind.keyword?] at hends

/-- A silent run finds a statement behind documentation and preconditions. -/
theorem statementBehind_ended {docs : Docs} {preconditions : List Precondition}
    (hends : s.current.isPunctuation .rBrace = true ∨ breaksBlock s.current = true)
    (hsilent : (statementBehind block docs preconditions s).2.Silent) :
    preconditions = [] ∧ docs.range = none := by
  have hrun : (statementBehind block docs preconditions s).2 = (unattached preconditions docs s).2 := by
    show (Parser.finishStmt _ _ _ (bareStatement block preconditions docs s).1
      (bareStatement block preconditions docs s).2).2 = _
    rw [bareStatement_ended block preconditions docs hends]
    rfl
  rw [hrun] at hsilent
  unfold Parser.unattached Parser.danglingDocs at hsilent
  cases preconditions with
  | cons first others => exact (not_silent_report _ hsilent).elim
  | nil =>
      cases hrange : docs.range with
      | none => exact ⟨rfl, rfl⟩
      | some range =>
          rw [hrange] at hsilent
          exact (not_silent_report _ hsilent).elim

theorem Crosses.statement (hquiet : s.Quiet) (hsilent : (Parser.statement Parser.block s).2.Silent)
    (hopen : s.current.isPunctuation .rBrace = false) (hgoes : breaksBlock s.current = false) :
    Crosses True (Behind FinishesStmt) (Parser.statement Parser.block) s := by
  rw [statement_eq] at hsilent ⊢
  have hgrows : ∀ docs preconditions, Grows (Parser.statementBehind Parser.block docs preconditions) :=
    fun docs preconditions => Grows.statementBehind preconditions docs Agrees.block
  have hdocs : (Parser.docComments s).2.Quiet :=
    Runs.quiet (.ofRespects fun _ => .docComments)
      (fun docs => Agrees.preconditions.grows.bind (hgrows docs)) hquiet hsilent
  have hpreconditions : (Parser.preconditions (Parser.docComments s).2).2.Quiet :=
    Runs.quiet (.ofRespects fun _ => .preconditions) (hgrows _) hdocs hsilent
  have hbegins : (Parser.preconditions (Parser.docComments s).2).2.current.isPunctuation .rBrace = false ∧
      breaksBlock (Parser.preconditions (Parser.docComments s).2).2.current = false := by
    by_cases hends : (Parser.preconditions (Parser.docComments s).2).2.current.isPunctuation .rBrace = true ∨
        breaksBlock (Parser.preconditions (Parser.docComments s).2).2.current = true
    · obtain ⟨hnone, hrange⟩ := statementBehind_ended hends hsilent
      obtain ⟨ts, hstretch, -, hnothing, -⟩ := Delivers.preconditions.quietly hdocs hpreconditions.silent
      obtain rfl : ts = [] := hnothing hnone
      rw [hstretch.current, docComments_nothing hquiet hdocs.silent hrange, hopen, hgoes] at hends
      simp at hends
    · simpa using hends
  exact .next .docComments .docComments (.next .preconditions .preconditions
    (.statementBehind _ _ hbegins.1 hbegins.2))

/-! ### Declarations without blocks -/

theorem Blockless.importDecl (hword : s.current.kind = .keyword .importWord) : Blockless importDecl s := by
  unfold Parser.importDecl
  refine .advance hword rfl rfl fun _ s' => .peek ?_
  split
  · rename_i hkind
    exact .advance hkind rfl rfl fun _ _ => .bind (.intern _) (.intern _) fun _ _ => .terminated (.pure _)
  · exact .fail Delivers.expectedWithHelp fun _ =>
      Retains.bind Retains.abandonDecl fun _ => Retains.pure _

theorem Retains.abandoned {α : Type} (a : α) : Retains (do
    Parser.abandonDecl
    return a) := Retains.bind Retains.abandonDecl fun _ => Retains.pure _

theorem Blockless.nodeDecl (behavior : Option Behavior) (hword : s.current.kind = .keyword .externWord) :
    Blockless (nodeDecl behavior) s := by
  unfold Parser.nodeDecl
  refine .advance hword rfl rfl fun _ s' => .peek ?_
  split
  · exact .fail Delivers.expectedWithHelp fun _ => Retains.abandoned _
  · rename_i category hcategory
    obtain ⟨word, hword, hspelled⟩ := Option.bind_eq_some_iff.mp hcategory
    have hfits : (TokenKind.keyword word).fits 0 = true := by
      cases word <;> first | rfl | simp [NodeCategory.ofKeyword?] at hspelled
    refine .advance (Token.kind_of_keyword? hword) hfits rfl fun _ s' =>
      .expectName (fun name s' => ?_) (Retains.abandoned _)
    exact .bind (.paramList _ _) (.paramList _ _) fun _ _ => .terminated (.pure _)

theorem Blockless.opaqueTypeDecl (hword : s.current.kind = .keyword .externWord)
    (hsecond : (s.tokenAt 1).kind = .keyword .typeWord) : Blockless opaqueTypeDecl s := by
  unfold Parser.opaqueTypeDecl
  have hnext : (Parser.advance s).2.current.kind = .keyword .typeWord := by
    rw [advance_of_goes (by simp [Token.isEndOfFile, hword]), current_skip_one, hsecond]
  refine .next .advance (Delivers.of_bind_pure (Walks.advance hword rfl rfl fun _ _ => .pure _)) ?_
  refine .advance hnext rfl rfl fun _ s' => .expectName (fun name s' => ?_) (Retains.abandoned _)
  exact .terminated (.pure _)

theorem Blockless.typeAliasDecl (hword : s.current.kind = .keyword .typeWord) : Blockless typeAliasDecl s := by
  unfold Parser.typeAliasDecl
  refine .advance hword rfl rfl fun _ s' => .expectName (fun name s' => ?_) (Retains.abandoned _)
  refine .expectOperator (fun s' => ?_) ?_
  · exact .bind .typeExpr .typeExpr fun _ _ => .terminated (.pure _)
  · exact Retains.bind Retains.missingType fun _ =>
      Retains.bind (fun _ => Delivers.expectSemi.retains) fun _ => Retains.pure _

theorem Blockless.varDecl (hword : s.current.kind = .keyword .varWord) : Blockless varDecl s :=
  Crosses.then (Blockless.varParts hword) (fun _ => .pure _) fun _ _ h => h.2.elim

theorem Blockless.constDecl (hword : s.current.kind = .keyword .constWord) : Blockless constDecl s :=
  Crosses.then (Blockless.constParts hword) (fun _ => .pure _) fun _ _ h => h.2.elim

/-! ### Trees -/

/-- What is made of a tree behind its block. -/
def finishTree (name : Name) (params : List Param) (body : List Stmt) :
    Parser (Option (DeclHead → Decl)) := pure (some (.tree · name params body))

/-- The tokens of a tree in front of its block, and how the tree is finished then. -/
def TreeHeader (tokens : List Token) (finish : List Stmt → Parser (Option (DeclHead → Decl))) : Prop :=
  ∃ word name header params, tokens = word :: name :: header ∧ word.kind = .keyword .treeWord ∧
    name.kind = .identifier ∧ Enclosed header ∧ finish = finishTree name.asName params

theorem Crosses.treeDecl (hword : s.current.kind = .keyword .treeWord) :
    Crosses False TreeHeader treeDecl s := by
  have hbody : ∀ name s, Crosses False
      (Behind fun finish => ∃ params, finish = Parser.finishTree name params) (do
        let params ← Parser.paramList "parameter" "after the tree name"
        let body ← Parser.treeBody
        Parser.finishTree name params body) s := by
    intro name s
    refine .bind (.paramList _ _) (.paramList _ _) fun params s' => ?_
    have htree : (Parser.treeBody >>= Parser.finishTree name params) = Parser.peek >>= fun next =>
        if next.isPunctuation .lBrace then Parser.block >>= Parser.finishTree name params
        else Parser.missing "`\x7b`" "to start the tree body" none >>= fun _ =>
          Parser.synchronize .top >>= fun _ => Parser.finishTree name params [] := by
      funext s
      show ((if s.current.isPunctuation .lBrace then Parser.block else _ : Parser (List Stmt)) >>= _) s =
        (if s.current.isPunctuation .lBrace then _ else _ : Parser (Option (DeclHead → Decl))) s
      split <;> rfl
    show Crosses _ _ (Parser.treeBody >>= Parser.finishTree name params) s'
    rw [htree]
    refine .peek ?_
    split
    · rename_i hopens
      exact .block (by simpa [Token.isPunctuation] using hopens) ⟨.nil 0, params, rfl⟩
        fun _ => Retains.pure _
    · exact .fail Delivers.missing fun _ => Retains.bind (Retains.synchronize _) fun _ => Retains.pure _
  unfold Parser.treeDecl
  refine .after (fun token tokens => tokens = [token] ∧ token.kind = .keyword .treeWord)
    (fun _ tokens finish => ∃ name header params, tokens = name :: header ∧ name.kind = .identifier ∧
      Enclosed header ∧ finish = Parser.finishTree name.asName params) .advance ?_
    (fun token tokens s' htoken => ?_) (fun token hnever => ?_) False.elim ?_
  · exact Delivers.of_bind_pure (Delivers.advance_of hword (by simp) fun s' hstretch =>
      Delivers.pure ⟨_, _, hstretch, rfl, hword⟩)
  · refine .after (fun name tokens => ∃ token : Token, tokens = [token] ∧ token.kind = .identifier ∧
      name = some token.asName) (fun found => Behind fun finish => ∃ name params, found = some name ∧
        finish = Parser.finishTree name params) (.expectName _ _) ?_ ?_ ?_ False.elim ?_
    · refine Delivers.expectName.mono ?_
      rintro found s'' ⟨token, hkind, hfound, hstretch⟩
      exact ⟨_, _, hstretch, token, rfl, hkind, hfound⟩
    · rintro _ tokens s'' ⟨token, -, -, rfl⟩
      refine (hbody token.asName s'').mono fun _ _ h => h.imp id ?_
      rintro ⟨finish, t, tokens, made, ⟨hwalk, params, hfinish⟩, hstretch, hopening⟩
      exact ⟨finish, t, tokens, made, ⟨hwalk, _, params, rfl, hfinish⟩, hstretch, hopening⟩
    · rintro (_ | name) hnever
      · exact Retains.skipBody
      · exact absurd ⟨⟨.identifier, name.text, name.range, false⟩, rfl, rfl, rfl⟩ (hnever [_])
    · rintro _ _ later finish ⟨token, rfl, hkind, rfl⟩ ⟨hwalk, _, params, ⟨rfl⟩, hfinish⟩
      exact ⟨token, later, params, rfl, hkind, hwalk, hfinish⟩
  · refine Retains.bind (fun _ => Delivers.expectName.retains) ?_
    rintro (_ | name)
    · exact Retains.skipBody
    · exact fun s => Delivers.retains (hbody name s)
  · rintro token _ later finish ⟨rfl, hkind⟩ ⟨name, header, params, rfl, hname, hwalk, hfinish⟩
    exact ⟨token, name, header, params, rfl, hkind, hname, hwalk, hfinish⟩

/-! ### Declarations -/

theorem Heedless.finishDecl (build : Option (DeclHead → Decl)) (docs : Docs) (start : SourceRange)
    (attr : Option SourceRange) : Heedless (finishDecl build docs start attr) := by
  cases build with
  | none => exact .pure _
  | some build => exact .bind (.rangeSince _) fun _ => .bind (.newDecl _ _) fun _ => .pure _

/-- An attribute in front of anything but a node is an error. -/
theorem Crosses.plainDecl {mayClose : Prop} {parser : Parser (Option (DeclHead → Decl))}
    {plan : List Token → (List Stmt → Parser (Option (DeclHead → Decl))) → Prop}
    {plan' : List Token → (List Stmt → Parser (Option Decl)) → Prop} {docs : Docs}
    {attr : Option Attribute} (hparser : Crosses mayClose plan parser s)
    (hplan : ∀ tokens finish start, plan tokens finish →
      plan' tokens fun stmts => finish stmts >>= fun build => Parser.finishDecl build docs start none) :
    Crosses mayClose plan' (Parser.plainDecl parser docs attr) s := by
  refine .peek ?_
  cases attr with
  | none => exact .then hparser (fun _ => .finishDecl _ _ _ _) fun _ _ => hplan _ _ _
  | some attr => exact Delivers.bind hparser.retains fun _ _ =>
      Delivers.fail (Delivers.report rfl) fun _ s => ((Heedless.finishDecl _ _ _ _).still s).retains

/-- The tokens of a declaration in front of its block, behind any documentation, and how it is
finished then. -/
def TreePlan (tokens : List Token) (finish : List Stmt → Parser (Option Decl)) : Prop :=
  ∃ before later, tokens = before ++ later ∧ Enclosed before ∧ ∃ build docs start,
    TreeHeader later build ∧
      finish = fun body => build body >>= fun build => finishDecl build docs start none

theorem Crosses.declarationAfter (docs : Docs) (attr : Option Attribute)
    (hgoes : s.current.isEndOfFile = false) :
    Crosses True TreePlan (Parser.declarationAfter docs attr) s := by
  have hnothing : Crosses True TreePlan Parser.declarationAfter.noDeclaration s :=
    .fail Delivers.expectedWithHelp fun _ =>
      Retains.bind (Retains.synchronize _) fun _ => Retains.pure _
  have hplain : ∀ {parser}, Blockless parser s → Crosses True TreePlan (Parser.plainDecl parser docs attr) s :=
    fun hparser => .plainDecl hparser fun _ _ _ h => h.2.elim
  unfold Parser.declarationAfter
  refine .peek ?_
  split
  · split
    · exact .fail Delivers.skipForeign fun _ => Retains.pure _
    · exact hnothing
  · exact hplain (Blockless.importDecl ‹_›)
  · rename_i hkind
    refine .read (fun k hk => hk.second (by rw [hkind]; rfl)) ?_
    split
    · rename_i hsecond
      exact hplain (Blockless.opaqueTypeDecl hkind (by simpa [Token.isKeyword] using hsecond))
    · exact .then (Blockless.nodeDecl _ hkind) (fun _ => .finishDecl _ _ _ _) fun _ _ h => h.2.elim
  · exact hplain (Blockless.typeAliasDecl ‹_›)
  · exact hplain (Blockless.varDecl ‹_›)
  · exact hplain (Blockless.constDecl ‹_›)
  · rename_i hkind
    refine (Crosses.plainDecl (Crosses.treeDecl hkind) fun tokens finish start htree => ?_).mono
      fun _ _ h => h.imp (fun h => ⟨trivial, h.2⟩) id
    exact ⟨[], tokens, rfl, .nil 0, finish, docs, start, htree, rfl⟩
  · rename_i hkind
    simp [Token.isEndOfFile, hkind] at hgoes
  · exact hnothing

/-- A silent run finds a declaration behind documentation and an attribute. -/
theorem declarationAfter_ended {docs : Docs} {attr : Option Attribute} (hquiet : s.Quiet)
    (hends : s.current.isEndOfFile = true) (hsilent : (declarationAfter docs attr s).2.Silent) :
    attr = none ∧ docs.range = none := by
  have hkind : s.current.kind = .endOfFile := by simpa [Token.isEndOfFile] using hends
  have hrun : (declarationAfter docs attr s).2 = (nothingDeclared docs attr s).2 := by
    cases hcurrent : s.current with
    | mk kind text range line =>
        rw [hcurrent] at hkind
        cases hkind
        simp only [declarationAfter, bind, StateT.bind, Parser.peek, hcurrent]
        rfl
  rw [hrun] at hsilent
  unfold Parser.nothingDeclared Parser.danglingDocs at hsilent
  cases attr with
  | some attr =>
      have hhonest : s.Honest := fun _ => hquiet.gate
      exact (hhonest.not_silent_reportOnce _ hsilent).elim
  | none =>
      cases hrange : docs.range with
      | none => exact ⟨rfl, rfl⟩
      | some range =>
          rw [hrange] at hsilent
          exact (not_silent_report _ hsilent).elim

theorem Crosses.declaration (hquiet : s.Quiet) (hsilent : (Parser.declaration s).2.Silent)
    (hgoes : s.current.isEndOfFile = false) : Crosses True TreePlan Parser.declaration s := by
  have hgrows : ∀ docs attr, Grows (Parser.declarationAfter docs attr) := fun docs attr =>
    Grows.declarationAfter docs attr
  have hdocs : (Parser.docComments s).2.Quiet :=
    Runs.quiet (.ofRespects fun _ => .docComments)
      (fun docs => Agrees.attributeHere.grows.bind (hgrows docs)) hquiet hsilent
  have hattr : (Parser.attributeHere (Parser.docComments s).2).2.Quiet :=
    Runs.quiet (.ofRespects fun _ => .attributeHere) (hgrows _) hdocs hsilent
  have hbegins : (Parser.attributeHere (Parser.docComments s).2).2.current.isEndOfFile = false := by
    by_cases hends : (Parser.attributeHere (Parser.docComments s).2).2.current.isEndOfFile = true
    · obtain ⟨hnone, hrange⟩ := declarationAfter_ended hattr hends hsilent
      rcases Delivers.attributeHere.quietly hdocs hattr.silent with ⟨-, hstretch⟩ | ⟨_, _, hsome, -⟩
      · rw [hstretch.current, docComments_nothing hquiet hdocs.silent hrange, hgoes] at hends
        cases hends
      · cases hnone.symm.trans hsome
    · simpa using hends
  have hplan : ∀ tokens later finish, Enclosed tokens → TreePlan later finish →
      TreePlan (tokens ++ later) finish := by
    rintro tokens _ finish hwalk ⟨before, later, rfl, hbefore, h⟩
    exact ⟨tokens ++ before, later, by rw [List.append_assoc], hwalk.append hbefore, h⟩
  exact .there Enclosed .docComments Walks.docComments (.there Enclosed .attributeHere
    Walks.attributeHere (.declarationAfter _ _ hbegins) (fun _ _ h => h) hplan) (fun _ _ h => h) hplan

end BehaviorTree.Parser
