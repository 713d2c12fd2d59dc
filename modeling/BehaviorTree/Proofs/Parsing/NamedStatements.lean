import BehaviorTree.Parsing.Declaration
import BehaviorTree.Proofs.Parsing.Anywhere
import BehaviorTree.Proofs.Parsing.ItemStarts
import BehaviorTree.Proofs.Parsing.StatementsAccepted
import BehaviorTree.Proofs.Parsing.StatementsFlow
import BehaviorTree.Proofs.Parsing.Terminators
import BehaviorTree.Proofs.Syntax.Forest
import BehaviorTree.Proofs.Syntax.Parentheses

/-!
# Statements that start with a name

A statement whose first word is a name is an assignment or a node, and a scan over the tokens behind
the name decides which. The scan skips index groups by their brackets, but it gives up at a `;`. An
index can hold one, inside an array with a repeated element or an array type. So an assignment is
parsed as one just if no index of it holds a `;`. A node is parsed as one always.
-/

namespace BehaviorTree

open ParserState

variable {ts us : List Terminal}

/-! ### Where the scan gives up -/

/-- The scan gives up at the terminals wherever a bracket is open. -/
def Stopped (ts : List Terminal) : Prop :=
  ∀ (tokens rest : List Token) (depth : Nat), tokens.map Token.terminal = ts →
    Skip.assignmentFollows (depth + 1) (tokens ++ rest) = false

namespace Stopped

theorem append (h : Stopped ts) (us : List Terminal) : Stopped (ts ++ us) := by
  intro tokens rest depth htokens
  obtain ⟨first, second, rfl, hfirst, -⟩ := List.map_eq_append_iff.mp htokens
  rw [List.append_assoc]
  exact h first _ depth hfirst

theorem behind (hts : Passed ts) (hus : Stopped us) : Stopped (ts ++ us) := by
  intro tokens rest depth htokens
  obtain ⟨first, second, rfl, hfirst, hsecond⟩ := List.map_eq_append_iff.mp htokens
  rw [List.append_assoc, hts first _ depth hfirst]
  exact hus second rest depth hsecond

theorem cons {t : Terminal} (hpassed : t.kind.isPassed = true) (h : Stopped ts) :
    Stopped (t :: ts) :=
  .behind (.cons hpassed .nil) h

theorem semi (ts : List Terminal) : Stopped (.mark .semi :: ts) := by
  intro tokens rest depth htokens
  obtain ⟨token, tokens, rfl, htoken, -⟩ := List.map_eq_cons_iff.mp htokens
  have hkind : token.kind = .punctuation .semi := Token.kind_of_terminal htoken
  simp [Skip.assignmentFollows, Token.isPunctuation, hkind]

theorem bracket (h : Stopped ts) : Stopped (.mark .lBracket :: ts) := by
  intro tokens rest depth htokens
  obtain ⟨token, tokens, rfl, htoken, htail⟩ := List.map_eq_cons_iff.mp htokens
  rw [List.cons_append, Passed.opening htoken]
  exact h tokens rest (depth + 1) htail

/-- Of two parts behind each other, the scan gives up in the one that holds a `;`. -/
theorem either {left right : Bool} (hor : (left || right) = true)
    (hleft : left = true → Stopped ts) (hpassed : left = false → Passed ts)
    (hright : right = true → Stopped us) : Stopped (ts ++ us) := by
  cases left with
  | true => exact (hleft rfl).append us
  | false => exact .behind (hpassed rfl) (hright hor)

end Stopped

/-- An expression with a `;` stops the scan there: the brackets in front of it match or are still
open. -/
theorem Derives.stopped {phrase : Phrase} (h : Derives phrase ts) (hsemi : phrase.hasSemi = true) :
    Stopped ts := by
  induction h with
  | operand _ ih | tighter _ ih | unprefixed _ ih | unsuffixed _ ih | array _ ih | plain _ ih =>
      exact ih hsemi
  | grouped op _ _ hl _ ihl ihr | single op _ _ _ hl _ ihl ihr =>
      exact .either hsemi ihl hl.passed fun hr => .cons op.isPassed_operator (ihr hr)
  | prefixed op _ ih => exact .cons op.isPassed_operator (ih hsemi)
  | index hb _ ihb ihp =>
      exact .either hsemi ihb hb.passed fun hp => .bracket ((ihp hp).append _)
  | cast ho _ iho iht => exact .either hsemi iho ho.passed fun ht => .cons rfl (iht ht)
  | int | float | text | trueWord | falseWord | nullWord | ref | infer | named | string | empty
  | boundedString =>
      cases hsemi
  | parens _ ih => exact .cons rfl ((ih hsemi).append _)
  | vec _ ih => exact .cons rfl (.cons rfl (ih hsemi))
  | listed _ ih => exact .bracket ((ih hsemi).append _)
  | @repeated value count vs cs hv _ ihv _ =>
      refine .bracket ?_
      cases hvalue : value.hasSemi with
      | true => exact (ihv hvalue).append _
      | false => exact .behind (hv.passed hvalue) (.semi _)
  | @staticArray element length es ls he _ ihe _ | @boundedArray element bound es bs he _ ihe _ =>
      refine .bracket ?_
      cases helement : element.hasSemi with
      | true => exact (ihe helement).append _
      | false => exact .behind (he.passed helement) (.semi _)
  | last _ ih => exact ih (by simpa [Phrase.hasSemi, Expr.anyHasSemi] using hsemi)
  | lastComma _ ih => exact (ih (by simpa [Phrase.hasSemi, Expr.anyHasSemi] using hsemi)).append _
  | more he _ ih ihrest => exact .either hsemi ih he.passed fun hrest => .cons rfl (ihrest hrest)
  | nullable _ ih => exact (ih hsemi).append _
  | vecType _ ih => exact .cons rfl (.cons rfl ((ih hsemi).append _))

/-- Behind the first word of an assignment the scan gives up if an index holds a `;`. -/
theorem not_assignmentFollows_of_indices {indices : List Expr} {is : List Terminal}
    (h : Sequence IndexForm indices is) (hsemi : ∃ position ∈ indices, position.hasSemi = true) :
    ∀ tokens : List Token, tokens.map Token.terminal = is ++ us →
      Skip.assignmentFollows 0 tokens = false := by
  induction h with
  | nil => simp at hsemi
  | @cons position rest ps rs hposition _ ih =>
      intro tokens htokens
      cases hposition with
      | @mk ts hderives =>
          have hsplit : tokens.map Token.terminal =
              .mark .lBracket :: (ts ++ .mark .rBracket :: (rs ++ us)) := by
            simpa using htokens
          obtain ⟨first, tokens, rfl, hfirst, htail⟩ := List.map_eq_cons_iff.mp hsplit
          obtain ⟨inner, tokens, rfl, hinner, hclose⟩ := List.map_eq_append_iff.mp htail
          obtain ⟨last, tokens, rfl, hlast, hrest⟩ := List.map_eq_cons_iff.mp hclose
          rw [Passed.opening hfirst]
          cases hfound : position.hasSemi with
          | true => exact hderives.stopped hfound inner _ 0 hinner
          | false =>
              rw [hderives.passed hfound inner _ 0 hinner, Passed.closing hlast]
              obtain ⟨other, hmem, hother⟩ := hsemi
              rcases List.mem_cons.mp hmem with rfl | hmem
              · rw [hfound] at hother
                cases hother
              · exact ih ⟨other, hmem, hother⟩ tokens hrest

/-! ### Nodes -/

/-- A statement without the children of a node. -/
def Stmt.outer : Stmt → Stmt
  | .compound head callee arguments _ => .compound head callee arguments []
  | stmt => stmt

namespace Parser

variable {s : ParserState} {block : Parser (List Stmt)} {preconditions : List Precondition}
  {docs : Docs}

/-! ### In front of a name -/

theorem bind_eq {α β : Type} {p : Parser α} {a : α} {s' : ParserState} (hrun : p s = (a, s'))
    (f : α → Parser β) : (p >>= f) s = f a s' := by
  show f (p s).1 (p s).2 = _
  rw [hrun]

theorem preconditions_eq (hat : s.current.kind ≠ .punctuation .at) :
    Parser.preconditions s = ([], s) := by
  have hturn : preconditionTurn [] s = (.done [], s) := by
    unfold preconditionTurn
    rw [peek_bind, acceptPunctuation_bind hat]
    rfl
  show iterate preconditionTurn [] s = _
  rw [iterate_done (congrArg Prod.fst hturn), hturn]

/-- A name that opens nothing in another language is that of a target or of a node. -/
theorem bareStatement_named (hname : s.current.kind = .identifier)
    (hforeign : ForeignWord.ofSpelling? s.current.text = none) :
    bareStatement block preconditions docs s =
      (if Skip.assignmentFollows 0 (s.rest.drop 1) then assignment else node block) s := by
  unfold bareStatement
  rw [peek_bind, hname]
  dsimp only
  rw [hforeign]
  rfl

/-- A statement with nothing in front of it. -/
theorem statement_named (hname : s.current.kind = .identifier) : statement block s =
    (bareStatement block [] Docs.none >>= finishStmt Docs.none [] s.current.range) s := by
  have hdocs : docComments s = (Docs.none, s) := docComments_eq (by simp [hname]) (by simp [hname])
  have hnone : Parser.preconditions s = ([], s) := preconditions_eq (by simp [hname])
  rw [statement_eq]
  show statementBehind block (docComments s).1 (Parser.preconditions (docComments s).2).1
    (Parser.preconditions (docComments s).2).2 = _
  rw [hdocs, hnone]
  rfl

/-! ### Assignments -/

variable {text : String} {indices : List Expr} {value : Expr} {is vs : List Terminal}

/-- An assignment without a `;` in its indices. -/
theorem Accepts.assignment_statement (op : AssignOp) (hforeign : ForeignWord.ofSpelling? text = none)
    (hindices : Sequence IndexForm indices is) (hvalue : Derives (.expr value) vs)
    (hsemi : ∀ position ∈ indices, position.hasSemi = false) :
    Accepts (Parser.statement block)
      (.name text :: (is ++ .op op.operator :: (vs ++ [.mark .semi]))) us fun result =>
        ∃ found, result = some found ∧
          found.shape = .assignment ⟨.blank, [], []⟩ ⟨text, .none⟩ indices op value := by
  have hhead : HeadForm (Stmt.assignment ⟨.blank, [], []⟩ ⟨text, .none⟩ indices op value).head [] :=
    .mk [] .nil
  have hbare : StmtForm (.bare (.assignment ⟨.blank, [], []⟩ ⟨text, .none⟩ indices op value))
      (.name text :: (is ++ .op op.operator :: (vs ++ [.mark .semi]))) :=
    .assignment _ text op hindices hvalue
  refine Accepts.statement hhead hbare fun preconditions docs => ?_
  refine Accepts.named_statement true hforeign (fun tokens htokens => ?_)
    (Accepts.assignment hindices hvalue)
  rw [List.append_assoc] at htokens
  exact assignmentFollows_of_indices hindices hsemi tokens htokens

/-- A statement that is given up reports nothing more. -/
theorem diagnostics_abandonStatement (s : ParserState) :
    (abandonStatement s).2.diagnostics = s.diagnostics := by
  have haccept : ∀ s : ParserState, (acceptPunctuation .semi s).2.diagnostics = s.diagnostics := by
    intro s
    cases hsemi : s.current.isPunctuation .semi with
    | false =>
        rw [acceptPunctuation, accept_fails hsemi]
    | true =>
        rw [acceptPunctuation, accept_passes hsemi]
        show (if s.current.isEndOfFile then s else s.skip 1).diagnostics = _
        split <;> rfl
  exact haccept _

/-- The report on a name that is neither called nor assigned to. -/
def uncalled (name found : Token) : Diagnostic :=
  (SyntaxReport.expected ("`(` or `\x7b` after node name " ++ quoted name.text) found).withHelp
    "call a leaf node with `Name(...);` or open a compound node with `Name \x7b ... \x7d`"

/-- What a name with an index behind it is taken for, if not for an assignment, is given up. -/
theorem node_bracket (hname : s.current.kind = .identifier)
    (hbracket : (s.tokenAt 1).kind = .punctuation .lBracket) :
    (node block s).1 = none ∧ (s.reportedAt ≠ some (s.position + 1) →
      (node block s).2.diagnostics = s.diagnostics ++ [uncalled s.current (s.tokenAt 1)]) := by
  have hgoes : s.current.isEndOfFile = false := by simp [Token.isEndOfFile, hname]
  let s₁ : ParserState := { s.skip 1 with arena := (s.skip 1).arena.intern s.current.text }
  have hnext : s₁.current = s.tokenAt 1 := by simp [s₁, current, tokenAt, ParserState.skip]
  have hnamed : nameOf s.current (s.skip 1) = (⟨s.current.text, s.current.range⟩, s₁) := rfl
  have harguments : arguments s₁ = (none, s₁) := by
    unfold arguments
    rw [acceptPunctuation_bind (by simp [hnext, hbracket])]
    rfl
  have hrun : node block s =
      (none, (abandonStatement (s₁.reportOnce (uncalled s.current (s.tokenAt 1)))).2) := by
    unfold node
    rw [advance_bind hgoes, bind_eq hnamed, bind_eq harguments, atPunctuation_bind, peek_bind, if_neg]
    · rw [← hnext]
      rfl
    · simp [Token.isPunctuation, hnext, hbracket]
  rw [hrun]
  refine ⟨rfl, fun hgate => ?_⟩
  have hopen : s₁.reportedAt ≠ some s₁.position := hgate
  rw [diagnostics_abandonStatement, ParserState.reportOnce, if_neg hopen]
  rfl

/-- An assignment with a `;` in an index is given up. -/
theorem statement_splitIndex (hforeign : ForeignWord.ofSpelling? text = none)
    (hindices : Sequence IndexForm indices is)
    (hsemi : ∃ position ∈ indices, position.hasSemi = true)
    (hcoming : s.rest.map Token.terminal = .name text :: (is ++ us)) :
    (statement block s).1 = none ∧ (s.reportedAt ≠ some (s.position + 1) →
      (statement block s).2.diagnostics = s.diagnostics ++ [uncalled s.current (s.tokenAt 1)]) := by
  have hterminal := terminal_current hcoming
  have hname : s.current.kind = .identifier := Token.kind_of_terminal hterminal
  have htext : s.current.text = text := Token.text_of_terminal hterminal
  have hbracket : (s.tokenAt 1).kind = .punctuation .lBracket := by
    cases hindices with
    | nil => simp at hsemi
    | cons hposition _ =>
        cases hposition with
        | mk _ =>
            obtain ⟨first, rest, hrest, -, htail⟩ := List.map_eq_cons_iff.mp hcoming
            obtain ⟨second, rest, rfl, hsecond, -⟩ := List.map_eq_cons_iff.mp htail
            rw [tokenAt, hrest]
            exact Token.kind_of_terminal hsecond
  have hbehind : (s.rest.drop 1).map Token.terminal = is ++ us := by
    rw [List.map_drop, hcoming, List.drop_one, List.tail_cons]
  have hscan := not_assignmentFollows_of_indices hindices hsemi _ hbehind
  have hrun : bareStatement block [] Docs.none s = node block s := by
    rw [bareStatement_named hname (by rw [htext, hforeign]), hscan]
    rfl
  obtain ⟨hnone, hreport⟩ := node_bracket hname hbracket
  have hwhole : statement block s = (none, (node block s).2) := by
    rw [statement_named hname]
    exact bind_eq (hrun.trans (Prod.ext hnone rfl)) _
  rw [hwhole]
  exact ⟨rfl, hreport⟩

/-! ### Calls -/

variable {head : StmtHead} {callee : Name}

theorem Accepts.leaf_statement {arguments : List Argument}
    (h : StmtForm (.stmt (.leaf head callee arguments)) ts)
    (hforeign : ForeignWord.ofSpelling? callee.text = none) :
    Accepts (Parser.statement block) ts us fun result =>
      ∃ found, result = some found ∧ found.shape = .leaf head callee arguments := by
  cases h with
  | headed hhead hbare =>
      cases hbare with
      | leaf _ text harguments =>
          refine Accepts.statement hhead (.leaf _ text harguments) fun preconditions docs => ?_
          refine Accepts.named_statement false hforeign (fun tokens htokens => ?_)
            (Accepts.leaf harguments)
          exact not_assignmentFollows htokens (by simp [Terminal.mark, Terminal.of])
            (by simp [Terminal.mark, Terminal.of])

theorem Accepts.compound_statement {arguments : Option (List Argument)} {children : List Stmt}
    (h : StmtForm (.stmt (.compound head callee arguments children)) ts)
    (hplain : (Stmt.compound head callee arguments children).Plain)
    (hsemi : (front us).kind ≠ .punctuation .semi) :
    Accepts (Parser.statement Parser.block) ts us fun result =>
      ∃ found, result = some found ∧ found.shape = .compound head callee arguments children := by
  cases h with
  | headed hhead hbare =>
      cases hbare with
      | @compound _ _ as cs _ text harguments hchildren =>
          refine Accepts.statement hhead (.compound _ text harguments hchildren)
            fun preconditions docs => ?_
          refine Accepts.named_statement false hplain.1 (fun tokens htokens => ?_)
            (Accepts.compound harguments hsemi (Accepts.block hchildren hplain.2))
          have hbehind : tokens.map Token.terminal =
              as ++ .mark .lBrace :: (cs ++ .mark .rBrace :: us) := by
            simpa using htokens
          exact not_assignmentFollows_of_arguments harguments hbehind

/-- Whatever its block holds, a node with a block is parsed as one. -/
theorem node_compound {arguments : Option (List Argument)} {as : List Terminal} (hended : s.Ended)
    (harguments : Optional (.mark .lParen) (Closed ArgumentForm) arguments as)
    (hcoming : s.rest.map Token.terminal = .name text :: (as ++ .mark .lBrace :: us)) :
    ∃ children name given, (node block s).1 = some (.compound · name given children) ∧
      name.shape = ⟨text, .none⟩ ∧ given.map (fun list => list.map Argument.shape) = arguments := by
  have hterminal := terminal_current hcoming
  have hname : s.current.kind = .identifier := Token.kind_of_terminal hterminal
  have hgoes : s.current.isEndOfFile = false := by simp [Token.isEndOfFile, hname]
  let s₁ : ParserState := { s.skip 1 with arena := (s.skip 1).arena.intern s.current.text }
  have hnamed : nameOf s.current (s.skip 1) = (⟨s.current.text, s.current.range⟩, s₁) := rfl
  have hcoming₁ : s₁.rest.map Token.terminal = as ++ .mark .lBrace :: us := by
    show (s.rest.drop 1).map Token.terminal = _
    rw [List.map_drop, hcoming, List.drop_one, List.tail_cons]
  have haccepts : Accepts Parser.arguments as (.mark .lBrace :: us) _ :=
    Accepts.arguments harguments (by simp [Terminal.mark, Terminal.of])
  have hended₁ : s₁.Ended := hended
  obtain ⟨hgiven, htook⟩ := haccepts.anywhere Flows.arguments Agrees.arguments
    (fun _ _ hgood hsame => hsame.symm.trans hgood) hended₁ hcoming₁
  have hrun : Parser.arguments s₁ = ((Parser.arguments s₁).1, (Parser.arguments s₁).2) := rfl
  have hopened : (Parser.arguments s₁).2.current.isPunctuation .lBrace = true := by
    rw [Token.isPunctuation, Token.kind_of_terminal (terminal_current (htook.coming hcoming₁))]
    rfl
  refine ⟨(block (Parser.arguments s₁).2).1, ⟨s.current.text, s.current.range⟩,
    (Parser.arguments s₁).1, ?_, ?_, hgiven⟩
  · unfold node
    rw [advance_bind hgoes, bind_eq hnamed, bind_eq hrun, atPunctuation_bind, peek_bind,
      if_pos hopened]
    rfl
  · rw [Name.shape, Token.text_of_terminal hterminal]

/-- Documentation and preconditions are parsed in front of a name wherever they stand. -/
theorem statement_headed {hs : List Terminal} (hhead : HeadForm head hs) (hended : s.Ended)
    (hcoming : s.rest.map Token.terminal = hs ++ .name text :: us) :
    ∃ docs preconditions s', (∀ origin, StmtHead.shape ⟨origin, docs.lines, preconditions⟩ = head) ∧
      s.Took hs.length s' ∧ statement block s = statementBehind block docs preconditions s' := by
  cases hhead with
  | @mk items ps docs hitems =>
      have hfront : (front (ps ++ .name text :: us)).kind = .identifier ∨
          (front (ps ++ .name text :: us)).kind = .punctuation .at := by
        cases hitems with
        | nil => exact .inl rfl
        | cons hfirst _ =>
            cases hfirst with
            | mk kind _ => exact .inr rfl
      have hnoDocs : ∀ line, (front (ps ++ .name text :: us)).kind ≠ .docComment line := by
        intro line hline
        rcases hfront with hkind | hkind <;> rw [hkind] at hline <;> cases hline
      have hnoModuleDocs : ∀ line, (front (ps ++ .name text :: us)).kind ≠ .moduleDoc line := by
        intro line hline
        rcases hfront with hkind | hkind <;> rw [hkind] at hline <;> cases hline
      rw [List.append_assoc] at hcoming
      obtain ⟨hdocs, hdocsTook⟩ := (Accepts.docComments hnoDocs hnoModuleDocs).anywhere
        Flows.docComments Agrees.docComments
        (fun _ _ hgood hsame => (congrArg Prod.fst hsame).symm.trans hgood) hended hcoming
      have hcoming₁ := hdocsTook.coming hcoming
      have hitemsAccepted : Accepts Parser.preconditions ps (.name text :: us) _ :=
        Accepts.preconditions hitems (by simp [Terminal.name])
      obtain ⟨hfound, hitemsTook⟩ := hitemsAccepted.anywhere Flows.preconditions
        Agrees.preconditions (fun _ _ hgood hsame => hsame.symm.trans hgood)
        (hdocsTook.ended hended) hcoming₁
      refine ⟨(docComments s).1, (Parser.preconditions (docComments s).2).1,
        (Parser.preconditions (docComments s).2).2, fun origin => ?_, ?_, rfl⟩
      · rw [StmtHead.shape, hdocs, hfound]
      · rw [List.length_append]
        exact hdocsTook.trans hitemsTook

/-- Whatever its block holds, a statement with a block behind a name is parsed as a node. -/
theorem statement_compound {arguments : Option (List Argument)} {children : List Stmt}
    (h : StmtForm (.stmt (.compound head callee arguments children)) ts)
    (hforeign : ForeignWord.ofSpelling? callee.text = none) (hended : s.Ended)
    (hcoming : s.rest.map Token.terminal = ts ++ us) :
    ∃ found, (statement block s).1 = some found ∧
      found.shape.outer = .compound head callee arguments [] := by
  cases h with
  | @headed _ hs _ hhead hbare =>
      cases hbare with
      | @compound _ _ as cs _ text harguments hchildren =>
          have hsplit : s.rest.map Token.terminal = hs ++ .name text ::
              (as ++ .mark .lBrace :: (cs ++ [.mark .rBrace] ++ us)) := by
            simpa using hcoming
          obtain ⟨docs, preconditions, s', hshape, htook, hrun⟩ :=
            statement_headed hhead hended hsplit
          have hcoming' := htook.coming hsplit
          have hterminal := terminal_current hcoming'
          have htext : s'.current.text = text := Token.text_of_terminal hterminal
          have hbehind : (s'.rest.drop 1).map Token.terminal =
              as ++ .mark .lBrace :: (cs ++ [.mark .rBrace] ++ us) := by
            rw [List.map_drop, hcoming', List.drop_one, List.tail_cons]
          have hscan : Skip.assignmentFollows 0 (s'.rest.drop 1) = false :=
            not_assignmentFollows_of_arguments harguments hbehind
          obtain ⟨children', name, given, hnode, hname, hgiven⟩ :=
            node_compound (htook.ended hended) harguments hcoming'
          have hbare : bareStatement block preconditions docs s' =
              (some (.compound · name given children'), (node block s').2) := by
            rw [bareStatement_named (Token.kind_of_terminal hterminal) (htext ▸ hforeign), hscan]
            exact Prod.ext hnode rfl
          rw [hrun, statementBehind, peek_bind, bind_eq hbare]
          refine ⟨_, rfl, ?_⟩
          rw [Stmt.shape, hshape, hname, hgiven]
          rfl

/-- Agreement of two runs carries over what shape the first one finds. -/
theorem keepsShape {stmt : Stmt} (result result' : Option Stmt)
    (hfound : ∃ found, result = some found ∧ found.shape = stmt)
    (halike : Alike (Option.map Stmt.shape) result result') :
    ∃ found, result' = some found ∧ found.shape = stmt := by
  obtain ⟨found, rfl, rfl⟩ := hfound
  exact Option.map_eq_some_iff.mp halike.symm

/-- A call is parsed as the statement it is, but for what the block behind it holds. -/
theorem statement_called {stmt : Stmt} (h : StmtForm (.stmt stmt) ts)
    (hcallee : stmt.callee? = some callee) (hforeign : ForeignWord.ofSpelling? callee.text = none)
    (hended : s.Ended) (hcoming : s.rest.map Token.terminal = ts ++ us) :
    ∃ found, (statement Parser.block s).1 = some found ∧ found.shape.outer = stmt.outer ∧
      (stmt.Plain → (front us).kind ≠ .punctuation .semi →
        found.shape = stmt ∧ s.Took ts.length (statement Parser.block s).2) := by
  have hflows : Flows (statement Parser.block) := Flows.statement Flows.block
  have hagrees := Agrees.statement Agrees.block
  cases stmt with
  | varDecl _ _ _ _ | constDecl _ _ _ _ | assignment _ _ _ _ _ => cases hcallee
  | leaf head name arguments =>
      obtain rfl : name = callee := Option.some.inj hcallee
      obtain ⟨⟨found, hfound, hshape⟩, htook⟩ :=
        (Accepts.leaf_statement h hforeign).anywhere hflows hagrees keepsShape hended hcoming
      exact ⟨found, hfound, by rw [hshape], fun _ _ => ⟨hshape, htook⟩⟩
  | compound head name arguments children =>
      obtain rfl : name = callee := Option.some.inj hcallee
      obtain ⟨found, hfound, houter⟩ := statement_compound h hforeign hended hcoming
      refine ⟨found, hfound, houter, fun hplain hsemi => ?_⟩
      obtain ⟨⟨found', hfound', hshape⟩, htook⟩ :=
        (Accepts.compound_statement h hplain hsemi).anywhere hflows hagrees keepsShape hended hcoming
      obtain rfl : found' = found := Option.some.inj (hfound'.symm.trans hfound)
      exact ⟨hshape, htook⟩

/-- An assignment that comes without a `;` in its indices is parsed as that assignment. -/
theorem statement_assigned (op : AssignOp) (hforeign : ForeignWord.ofSpelling? text = none)
    (hindices : Sequence IndexForm indices is) (hvalue : Derives (.expr value) vs)
    (hsemi : ∀ position ∈ indices, position.hasSemi = false) (hended : s.Ended)
    (hcoming : s.rest.map Token.terminal =
      (.name text :: (is ++ .op op.operator :: (vs ++ [.mark .semi]))) ++ us) :
    ∃ found, (statement Parser.block s).1 = some found ∧
      found.shape = .assignment ⟨.blank, [], []⟩ ⟨text, .none⟩ indices op value ∧
      s.Took (is.length + vs.length + 3) (statement Parser.block s).2 := by
  obtain ⟨⟨found, hfound, hshape⟩, htook⟩ :=
    (Accepts.assignment_statement op hforeign hindices hvalue hsemi).anywhere
      (Flows.statement Flows.block) (Agrees.statement Agrees.block) keepsShape hended hcoming
  have hlength : (Terminal.name text :: (is ++ .op op.operator :: (vs ++ [.mark .semi]))).length =
      is.length + vs.length + 3 := by
    simp only [List.length_cons, List.length_append, List.length_nil]
    omega
  exact ⟨found, hfound, hshape, hlength ▸ htook⟩

/-- **Assignments and nodes are told apart.** An assignment that comes is parsed as one if no index
of it holds a `;`: its target, its indices in order, its operator and its value are found, just its
tokens are consumed, and nothing is reported. With a `;` in an index it is taken for a node that is
neither called nor opened, and given up, with one report if the gate lets it through. A call that
comes is parsed as a node, whatever its arguments and its block hold. -/
theorem statement_tells_apart (s : ParserState) (hended : s.Ended) :
    (∀ (target : String) (indices : List Expr) (op : AssignOp) (value : Expr)
      (is vs us : List Terminal), ForeignWord.ofSpelling? target = none →
      Sequence IndexForm indices is → Derives (.expr value) vs →
      s.rest.map Token.terminal =
        (.name target :: (is ++ .op op.operator :: (vs ++ [.mark .semi]))) ++ us →
      ((∀ position ∈ indices, position.hasSemi = false) →
        ∃ found, (statement Parser.block s).1 = some found ∧
          found.shape = .assignment ⟨.blank, [], []⟩ ⟨target, .none⟩ indices op value ∧
          s.Took (is.length + vs.length + 3) (statement Parser.block s).2) ∧
      ((∃ position ∈ indices, position.hasSemi = true) →
        (statement Parser.block s).1 = none ∧ (s.reportedAt ≠ some (s.position + 1) →
          (statement Parser.block s).2.diagnostics =
            s.diagnostics ++ [uncalled s.current (s.tokenAt 1)]))) ∧
    ∀ (stmt : Stmt) (callee : Name) (ts us : List Terminal),
      StmtForm (.stmt stmt) ts → stmt.callee? = some callee →
      ForeignWord.ofSpelling? callee.text = none → s.rest.map Token.terminal = ts ++ us →
      ∃ found, (statement Parser.block s).1 = some found ∧ found.shape.outer = stmt.outer ∧
        (stmt.Plain → (front us).kind ≠ .punctuation .semi →
          found.shape = stmt ∧ s.Took ts.length (statement Parser.block s).2) := by
  constructor
  · intro target indices op value is vs us hforeign hindices hvalue hcoming
    constructor
    · intro hsemi
      exact statement_assigned op hforeign hindices hvalue hsemi hended hcoming
    · intro hsemi
      have hnamed : s.rest.map Token.terminal =
          .name target :: (is ++ (.op op.operator :: (vs ++ [.mark .semi]) ++ us)) := by
        rw [hcoming, List.cons_append, List.append_assoc]
      exact statement_splitIndex hforeign hindices hsemi hnamed
  · intro stmt callee ts us hform hcallee hforeign hcoming
    exact statement_called hform hcallee hforeign hended hcoming

/-- A parser at the start of a text. -/
def atStart (text : String) : ParserState :=
  Parsed.initial .detached (TokenStream.ofText .detached text).tokens .empty

theorem statement_tells_apart_of_threeTexts :
    let three : Expr := .int .blank 3
    let position : Expr := .binary .blank .add (.ref .blank ⟨"j", .none⟩) (.int .blank 1)
    let pair : Expr := .repeated .blank (.int .blank 1) (.int .blank 2)
    let call : Stmt := .compound ⟨.blank, [], []⟩ ⟨"Retry", .none⟩ (some [⟨none, none, three, .none⟩])
      [.leaf ⟨.blank, [], []⟩ ⟨"Wait", .none⟩ []]
    (∀ text, (atStart text).Ended) ∧
    (∃ found, (statement Parser.block (atStart "total[j + 1] += 3; x")).1 = some found ∧
      found.shape = .assignment ⟨.blank, [], []⟩ ⟨"total", .none⟩ [position] .add three) ∧
    pair.hasSemi = true ∧ (statement Parser.block (atStart "x[[1; 2]] = 3;")).1 = none ∧
    call.Plain ∧ ∃ found, (statement Parser.block (atStart "Retry(3) { Wait(); }")).1 = some found ∧
      found.shape = call := by
  intro three position pair call
  have hended : ∀ text, (atStart text).Ended := fun text => Parsed.initial_ended _
  have hthree : Derives (.expr three) (three.printed false) :=
    (Expr.printed_of_wellFormed three (by decide)).whole
  have hposition : Derives (.expr position) (position.printed false) :=
    (Expr.printed_of_wellFormed position (by decide)).whole
  have hpair : Derives (.expr pair) (pair.printed false) :=
    (Expr.printed_of_wellFormed pair (by decide)).whole
  have hcall : StmtForm (.stmt call) _ :=
    .headed (.mk [] .nil) (.compound _ "Retry" (.present (.last (.mk none none hthree)))
      (.cons (.headed (.mk [] .nil) (.leaf _ "Wait" .nil)) .nil))
  obtain ⟨hassigned, -⟩ := (statement_tells_apart (atStart "total[j + 1] += 3; x") (hended _)).1
    "total" [position] .add three _ _ [.name "x", .of .endOfFile] (by decide +kernel)
    (.cons (.mk hposition) .nil) hthree (by decide +kernel)
  obtain ⟨-, hsplit⟩ := (statement_tells_apart (atStart "x[[1; 2]] = 3;") (hended _)).1
    "x" [pair] .assign three _ _ [.of .endOfFile] (by decide +kernel) (.cons (.mk hpair) .nil)
    hthree (by decide +kernel)
  have hwait : ForeignWord.ofSpelling? "Wait" = none := by decide +kernel
  have hplain : call.Plain := ⟨by decide +kernel, hwait, trivial⟩
  obtain ⟨node, hnode, -, hwhole⟩ :=
    (statement_tells_apart (atStart "Retry(3) { Wait(); }") (hended _)).2 call ⟨"Retry", .none⟩ _
      [.of .endOfFile] hcall rfl (by decide +kernel) (by decide +kernel)
  obtain ⟨found, hfound, hshape, -⟩ := hassigned (by decide)
  exact ⟨hended, ⟨found, hfound, hshape⟩, by decide, (hsplit (by decide)).1, hplain, node, hnode,
    (hwhole hplain (by decide)).1⟩

/-- The index is an expression, and read as one, but the assignment with it is given up. -/
theorem assignment_given_up :
    let pair : Expr := .repeated .blank (.int .blank 1) (.int .blank 2)
    let ps : List Terminal :=
      [.mark .lBracket, .of (.int 1), .mark .semi, .of (.int 2), .mark .rBracket]
    let is : List Terminal := .mark .lBracket :: (ps ++ [.mark .rBracket]) ++ []
    let split := atStart "x[[1; 2]] = 3;"
    Sequence IndexForm [pair] is ∧ Derives (.expr (.int .blank 3)) [.of (.int 3)] ∧
      ForeignWord.ofSpelling? "x" = none ∧ split.rest.map Token.terminal =
        (.name "x" :: (is ++ .op AssignOp.assign.operator :: ([.of (.int 3)] ++ [.mark .semi]))) ++
          [.of .endOfFile] ∧
      (expression (atStart "[1; 2]] = 3;")).1.shape = pair ∧
      (expression (atStart "[1; 2]] = 3;")).2.diagnostics = [] ∧
      (statement Parser.block split).1 = none ∧
      (statement Parser.block split).2.diagnostics = [uncalled split.current (split.tokenAt 1)] := by
  intro pair ps is split
  have hpair : Derives (.expr pair) ps := (Expr.printed_of_wellFormed pair (by decide)).whole
  have hthree : Derives (.expr (.int .blank 3)) [.of (.int 3)] :=
    (Expr.printed_of_wellFormed (.int .blank 3) (by decide)).whole
  have hindices : Sequence IndexForm [pair] is := .cons (.mk hpair) .nil
  have hforeign : ForeignWord.ofSpelling? "x" = none := by decide +kernel
  have hcoming : split.rest.map Token.terminal =
      (.name "x" :: (is ++ .op AssignOp.assign.operator :: ([.of (.int 3)] ++ [.mark .semi]))) ++
        [.of .endOfFile] := by
    decide +kernel
  have hcloses : Closes [.mark .rBracket, .op .eq, .of (.int 3), .mark .semi, .of .endOfFile] :=
    Closes.mark (by simp) (by simp)
  obtain ⟨hread, htook⟩ := (Accepts.expression hpair hcloses).anywhere Flows.expression
    Agrees.expression (fun _ _ hgood hsame => hsame.symm.trans hgood) (Parsed.initial_ended _)
    (show (atStart "[1; 2]] = 3;").rest.map Token.terminal = _ by decide +kernel)
  have hsemi : ∃ position ∈ [pair], position.hasSemi = true := ⟨pair, by simp, rfl⟩
  have hbehind : split.rest.map Token.terminal =
      .name "x" :: (is ++ [.op .eq, .of (.int 3), .mark .semi, .of .endOfFile]) := hcoming
  obtain ⟨hnone, hreport⟩ := statement_splitIndex hforeign hindices hsemi hbehind
  exact ⟨hindices, hthree, hforeign, hcoming, hread, htook.diagnostics, hnone, hreport (by decide)⟩

end Parser

end BehaviorTree
