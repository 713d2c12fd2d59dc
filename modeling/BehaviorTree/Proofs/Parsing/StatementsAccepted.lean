import BehaviorTree.Proofs.Parsing.ItemsAccepted
import BehaviorTree.Proofs.Syntax.Plain

/-!
# Accepted statements

Plain statements are accepted as the grammar derives them, in front of anything but a `;`. The scan
that tells an assignment from a node passes over what the indices of the assignment hold. Blocks are
accepted given a level of nesting for each terminal, of which there are always enough.
-/

namespace BehaviorTree

open ParserState

/-! ### The scan for an assignment operator -/

/-- The kinds that the scan passes over. -/
def TokenKind.isPassed : TokenKind → Bool
  | .operator op => !op.isAssignment
  | .punctuation mark => mark == .lParen || mark == .rParen || mark == .comma || mark == .question
  | .endOfFile => false
  | _ => true

variable {ts us : List Terminal}

/-- The scan passes over the terminals wherever a bracket is open. -/
def Passed (ts : List Terminal) : Prop :=
  ∀ (tokens rest : List Token) (depth : Nat), tokens.map Token.terminal = ts →
    Skip.assignmentFollows (depth + 1) (tokens ++ rest) = Skip.assignmentFollows (depth + 1) rest

namespace Passed

theorem nil : Passed [] := by
  intro tokens rest depth htokens
  rw [List.map_eq_nil_iff.mp htokens, List.nil_append]

theorem append (hts : Passed ts) (hus : Passed us) : Passed (ts ++ us) := by
  intro tokens rest depth htokens
  obtain ⟨first, second, rfl, hfirst, hsecond⟩ := List.map_eq_append_iff.mp htokens
  rw [List.append_assoc, hts first _ depth hfirst, hus second rest depth hsecond]

theorem cons {t : Terminal} (hpassed : t.kind.isPassed = true) (hts : Passed ts) :
    Passed (t :: ts) := by
  intro tokens rest depth htokens
  obtain ⟨token, tokens, rfl, rfl, htail⟩ := List.map_eq_cons_iff.mp htokens
  change token.kind.isPassed = true at hpassed
  have hend : token.isEndOfFile = false := by
    rw [Token.isEndOfFile, beq_eq_false_iff_ne]
    intro hkind
    rw [hkind] at hpassed
    cases hpassed
  have hmark : ∀ mark, (TokenKind.punctuation mark).isPassed = false →
      token.isPunctuation mark = false := by
    intro mark hmark
    rw [Token.isPunctuation, beq_eq_false_iff_ne]
    intro hkind
    rw [hkind, hmark] at hpassed
    cases hpassed
  have hassigns : token.isAssignment = false := by
    cases hop : token.operator? with
    | none => simp [Token.isAssignment, hop]
    | some op =>
        rw [Token.kind_of_operator? hop] at hpassed
        simpa [Token.isAssignment, hop, TokenKind.isPassed] using hpassed
  have hstep : Skip.assignmentFollows (depth + 1) (token :: (tokens ++ rest)) =
      Skip.assignmentFollows (depth + 1) (tokens ++ rest) := by
    simp [Skip.assignmentFollows, hend, hassigns, hmark .semi rfl, hmark .lBrace rfl,
      hmark .rBrace rfl, hmark .lBracket rfl, hmark .rBracket rfl]
  exact hstep.trans (hts tokens rest depth htail)

theorem opening {tokens : List Token} {token : Token} {depth : Nat}
    (h : token.terminal = .mark .lBracket) :
    Skip.assignmentFollows depth (token :: tokens) = Skip.assignmentFollows (depth + 1) tokens := by
  have hkind : token.kind = .punctuation .lBracket := Token.kind_of_terminal h
  cases depth <;> simp [Skip.assignmentFollows, Token.isEndOfFile, Token.isPunctuation, hkind]

theorem closing {tokens : List Token} {token : Token} {depth : Nat}
    (h : token.terminal = .mark .rBracket) :
    Skip.assignmentFollows (depth + 1) (token :: tokens) = Skip.assignmentFollows depth tokens := by
  have hkind : token.kind = .punctuation .rBracket := Token.kind_of_terminal h
  simp [Skip.assignmentFollows, Token.isEndOfFile, Token.isPunctuation, hkind]

theorem bracketed (hts : Passed ts) : Passed (.mark .lBracket :: (ts ++ [.mark .rBracket])) := by
  intro tokens rest depth htokens
  obtain ⟨first, tokens, rfl, hfirst, htokens⟩ := List.map_eq_cons_iff.mp htokens
  obtain ⟨inner, last, rfl, hinner, hlast⟩ := List.map_eq_append_iff.mp htokens
  obtain ⟨last, nothing, rfl, hlast, hnothing⟩ := List.map_eq_cons_iff.mp hlast
  rw [List.map_eq_nil_iff.mp hnothing]
  calc Skip.assignmentFollows (depth + 1) (first :: (inner ++ [last]) ++ rest)
      = Skip.assignmentFollows (depth + 1 + 1) (inner ++ (last :: rest)) := by
        rw [List.cons_append, opening hfirst, List.append_assoc, List.singleton_append]
    _ = Skip.assignmentFollows (depth + 1 + 1) (last :: rest) := hts inner _ _ hinner
    _ = Skip.assignmentFollows (depth + 1) rest := closing hlast

end Passed

theorem BinaryOp.isPassed_operator (op : BinaryOp) :
    (Terminal.op op.operator).kind.isPassed = true := by
  cases op <;> rfl

theorem UnaryOp.isPassed_operator (op : UnaryOp) :
    (Terminal.op op.operator).kind.isPassed = true := by
  cases op <;> rfl

/-- In an expression without a `;` the brackets match, and no operator of it assigns. -/
theorem Derives.passed {phrase : Phrase} (h : Derives phrase ts) (hsemi : phrase.hasSemi = false) :
    Passed ts := by
  induction h with
  | operand _ ih | tighter _ ih | unprefixed _ ih | unsuffixed _ ih | array _ ih | plain _ ih =>
      exact ih hsemi
  | grouped op _ _ _ _ ihl ihr | single op _ _ _ _ _ ihl ihr =>
      obtain ⟨hl, hr⟩ := Bool.or_eq_false_iff.mp hsemi
      exact (ihl hl).append (.cons op.isPassed_operator (ihr hr))
  | prefixed op _ ih => exact .cons op.isPassed_operator (ih hsemi)
  | index _ _ ihb ihp =>
      obtain ⟨hb, hp⟩ := Bool.or_eq_false_iff.mp hsemi
      exact (ihb hb).append (ihp hp).bracketed
  | cast _ _ iho iht =>
      obtain ⟨ho, ht⟩ := Bool.or_eq_false_iff.mp hsemi
      exact (iho ho).append (.cons rfl (iht ht))
  | int | float | text | trueWord | falseWord | nullWord | ref | infer | named | string =>
      exact .cons rfl .nil
  | parens _ ih => exact .cons rfl ((ih hsemi).append (.cons rfl .nil))
  | vec _ ih => exact .cons rfl (.cons rfl (ih hsemi))
  | empty => exact Passed.nil.bracketed
  | listed _ ih => exact (ih hsemi).bracketed
  | repeated _ _ _ _ | staticArray _ _ _ _ | boundedArray _ _ _ _ => cases hsemi
  | last _ ih =>
      obtain ⟨hfirst, -⟩ := Bool.or_eq_false_iff.mp hsemi
      exact ih hfirst
  | lastComma _ ih =>
      obtain ⟨hfirst, -⟩ := Bool.or_eq_false_iff.mp hsemi
      exact (ih hfirst).append (.cons rfl .nil)
  | more _ _ ih ihrest =>
      obtain ⟨hfirst, hrest⟩ := Bool.or_eq_false_iff.mp hsemi
      exact (ih hfirst).append (.cons rfl (ihrest hrest))
  | nullable _ ih => exact (ih hsemi).append (.cons rfl .nil)
  | boundedString => exact .cons rfl (.cons rfl (.cons rfl (.cons rfl .nil)))
  | vecType _ ih => exact .cons rfl (.cons rfl ((ih hsemi).append (.cons rfl .nil)))

/-- Behind the first word of an assignment the scan finds its operator. -/
theorem assignmentFollows_of_indices {indices : List Expr} {is : List Terminal} {op : AssignOp}
    (h : Sequence IndexForm indices is) (hsemi : ∀ position ∈ indices, position.hasSemi = false) :
    ∀ tokens : List Token, tokens.map Token.terminal = is ++ .op op.operator :: us →
      Skip.assignmentFollows 0 tokens = true := by
  induction h with
  | nil =>
      intro tokens htokens
      obtain ⟨token, rest, rfl, htoken, -⟩ := List.map_eq_cons_iff.mp htokens
      have hkind : token.kind = .operator op.operator := Token.kind_of_terminal htoken
      have hassigns : op.operator.isAssignment = true := by cases op <;> rfl
      simp [Skip.assignmentFollows, Token.isPunctuation, Token.isAssignment, Token.operator?, hkind,
        TokenKind.operator?, hassigns]
  | @cons position rest ps rs hposition _ ih =>
      intro tokens htokens
      cases hposition with
      | @mk ts hderives =>
          have hsplit : tokens.map Token.terminal =
              .mark .lBracket :: (ts ++ .mark .rBracket :: (rs ++ .op op.operator :: us)) := by
            simpa using htokens
          obtain ⟨first, tokens, rfl, hfirst, htail⟩ := List.map_eq_cons_iff.mp hsplit
          obtain ⟨inner, tokens, rfl, hinner, hclose⟩ := List.map_eq_append_iff.mp htail
          obtain ⟨last, tokens, rfl, hlast, hrest⟩ := List.map_eq_cons_iff.mp hclose
          have hpassed := hderives.passed (hsemi position List.mem_cons_self)
          calc Skip.assignmentFollows 0 (first :: (inner ++ last :: tokens))
              = Skip.assignmentFollows 1 (inner ++ last :: tokens) := Passed.opening hfirst
            _ = Skip.assignmentFollows 1 (last :: tokens) := hpassed inner _ 0 hinner
            _ = Skip.assignmentFollows 0 tokens := Passed.closing hlast
            _ = true := ih (fun other hother => hsemi other (List.mem_cons_of_mem _ hother))
                tokens hrest

namespace Parser

variable {β : Type} {vs : List Terminal}

/-! ### Preconditions and arguments -/

theorem Accepts.preconditionTurn {item : Precondition} {found : List Precondition}
    (h : PreconditionForm item ts) :
    Accepts (preconditionTurn found) ts us fun result =>
      ∃ longer, result = .again longer ∧ Finds Precondition.shape found item longer := by
  cases h with
  | @mk condition cs kind hcondition =>
      unfold Parser.preconditionTurn
      dsimp only
      refine Accepts.peek fun token _ => Accepts.punctuation ?_
      change Accepts _ ([.name kind.spelling] ++ ([.mark .lParen] ++ (cs ++ [.mark .rParen]))) us _
      refine Accepts.bind Accepts.expectName ?_
      rintro _ ⟨name, rfl, hname⟩
      have hkind : PreconditionKind.ofSpelling? name.text = some kind := by
        rw [hname]
        exact PreconditionKind.ofSpelling?_spelling kind
      dsimp only
      rw [hkind, if_neg (by simp)]
      refine Accepts.bind Accepts.expectPunctuation ?_
      rintro _ rfl
      refine Accepts.bind (Accepts.expression hcondition (Closes.mark (by simp) (by simp)))
        fun condition' hcondition' => ?_
      refine Accepts.bind_nil Accepts.expectPunctuation fun _ _ => Accepts.rangeSince fun range => ?_
      exact Accepts.pure ⟨_, rfl, _, rfl, by rw [Precondition.shape, hcondition']⟩

theorem Accepts.preconditions {items : List Precondition} (h : Sequence PreconditionForm items ts)
    (hfront : (front us).kind ≠ .punctuation .at) :
    Accepts preconditions ts us fun found => found.map Precondition.shape = items := by
  have hne : ∀ item is, PreconditionForm item is → is ≠ [] := by
    rintro item is ⟨⟩
    simp
  have hstart : Leads Parser.preconditionTurn Parser.preconditions [] (ts ++ us)
      fun found => found.map Precondition.shape = [] := Leads.nothing_found
  have hall := Leads.sequence (fun _ => True) hne (fun _ _ _ _ => trivial)
    (fun _ _ _ _ hitem _ _ => Accepts.preconditionTurn hitem) h trivial (Nat.le_refl _) hstart
  refine Leads.stop_nil hall fun found hfound => ?_
  unfold Parser.preconditionTurn
  dsimp only
  refine Accepts.peek fun token _ => Accepts.noPunctuation hfront ?_
  exact Accepts.pure ⟨found, rfl, hfound⟩

theorem Accepts.argumentName {name : Option String}
    (hsecond : name = none → (front us).kind = .identifier →
      (front (us.drop 1)).kind ≠ .punctuation .colon) :
    Accepts argumentName (argumentNameTerminals (name.map (⟨·, .none⟩))) us
      (·.map Name.shape = name.map (⟨·, .none⟩)) := by
  unfold Parser.argumentName
  refine Accepts.peek fun token htoken => Accepts.peekSecond fun second hsecond' => ?_
  cases name with
  | none =>
      change token.terminal = front us at htoken
      change second.terminal = front (us.drop 1) at hsecond'
      have hno : ¬(token.isIdentifier && second.isPunctuation .colon) = true := by
        intro hyes
        obtain ⟨hname, hcolon⟩ := Bool.and_eq_true_iff.mp hyes
        refine hsecond rfl ?_ ?_
        · simpa [Token.isIdentifier, Token.kind_of_terminal htoken] using hname
        · simpa [Token.isPunctuation, Token.kind_of_terminal hsecond'] using hcolon
      rw [if_neg hno]
      exact Accepts.pure rfl
  | some text =>
      have hyes : (token.isIdentifier && second.isPunctuation .colon) = true := by
        simp [Token.isIdentifier, Token.kind_of_terminal htoken, Token.isPunctuation,
          Token.kind_of_terminal hsecond', argumentNameTerminals, Terminal.name, Terminal.mark,
          Terminal.of]
      rw [if_pos hyes]
      refine Accepts.advance (by simp [Terminal.name]) fun _ _ => ?_
      refine Accepts.advance (by simp [Terminal.mark, Terminal.of]) fun _ _ => ?_
      have hname : Accepts (Parser.nameOf token) [] us (·.text = text) :=
        Accepts.of_bind_pure (Accepts.nameOf (Accepts.pure (Token.text_of_terminal htoken)))
      refine Accepts.map hname ?_
      rintro name rfl
      rfl

theorem front_ne_direction {expr : Expr} (h : Derives (.expr expr) ts) (direction : Direction) :
    (front (ts ++ us)).kind ≠ .keyword direction.keyword := by
  obtain ⟨t, rest, rfl, hstarts⟩ := h.starts
  intro hkind
  have ht : t.kind = .keyword direction.keyword := hkind
  rw [Phrase.StartsWith, ht] at hstarts
  cases direction <;> cases hstarts

theorem front_second_ne_colon {expr : Expr} (h : Derives (.expr expr) ts)
    (hus : (front us).kind ≠ .punctuation .colon) :
    (front ((ts ++ us).drop 1)).kind ≠ .punctuation .colon := by
  obtain ⟨t, rest, rfl, -⟩ := h.starts
  cases rest with
  | nil => exact hus
  | cons second rest =>
      intro hkind
      have hterm := h.inTerm (t := second) (by simp)
      rw [show second.kind = .punctuation .colon from hkind] at hterm
      cases hterm

theorem Accepts.argument {item : Argument} (h : ArgumentForm item ts) (hcloses : Closes us)
    (hcolon : (front us).kind ≠ .punctuation .colon) :
    Accepts argument ts us (·.shape = item) := by
  cases h with
  | @mk value vs name direction hvalue =>
      unfold Parser.argument
      refine Accepts.peek fun token _ => ?_
      rw [List.append_assoc]
      refine Accepts.bind (Accepts.argumentName fun _ hidentifier => ?_) fun name' hname' => ?_
      · cases direction with
        | none => exact front_second_ne_colon hvalue hcolon
        | some direction => cases hidentifier
      · refine Accepts.bind (Accepts.direction (front_ne_direction hvalue)) ?_
        rintro _ rfl
        refine Accepts.bind_nil (Accepts.expression hvalue hcloses) fun value' hvalue' => ?_
        refine Accepts.rangeSince fun range => Accepts.pure ?_
        rw [Argument.shape, hname', hvalue']

/-- What an argument starts with neither closes a list nor ends a file. -/
theorem front_argument {item : Argument} (h : ArgumentForm item ts) :
    (front (ts ++ us)).kind ≠ .punctuation .rParen ∧ (front (ts ++ us)).kind ≠ .endOfFile := by
  cases h with
  | @mk value vs name direction hvalue =>
      cases name with
      | some name => simp [argumentNameTerminals, Terminal.name]
      | none =>
          cases direction with
          | some direction => simp [argumentNameTerminals, directionTerminals, Terminal.word, Terminal.of]
          | none =>
              obtain ⟨t, rest, rfl, hstarts⟩ := hvalue.starts
              refine ⟨fun hkind => ?_, fun hkind => ?_⟩
              · rw [Phrase.StartsWith, show t.kind = .punctuation .rParen from hkind] at hstarts
                cases hstarts
              · rw [Phrase.StartsWith, show t.kind = .endOfFile from hkind] at hstarts
                cases hstarts

theorem Accepts.arguments {items : Option (List Argument)} (h : Optional (.mark .lParen) (Closed ArgumentForm) items ts)
    (hfront : (front us).kind ≠ .punctuation .lParen) :
    Accepts arguments ts us (·.map (fun list => list.map Argument.shape) = items) := by
  unfold Parser.arguments
  cases h with
  | absent => exact Accepts.noPunctuation hfront (Accepts.pure rfl)
  | @present items is hitems =>
      have hlist : Accepts (iterate argumentTurn []) ([] ++ is) us
          fun found => found.map Argument.shape = [] ++ items := by
        refine Leads.listed (fun _ _ _ hform => front_argument hform) ?_ hitems Leads.nothing_found
        intro item' vs mark us found hform hmark
        refine (Accepts.argument hform ?_ ?_).mono fun x hx => ⟨x, rfl, hx⟩
        · exact Closes.mark (by rcases hmark with rfl | rfl <;> simp) (by rcases hmark with rfl | rfl <;> simp)
        · rcases hmark with rfl | rfl <;> simp [Terminal.mark, Terminal.of]
      refine Accepts.punctuation (Accepts.map hlist fun found hfound => ?_)
      rw [Option.map_some, hfound]
      rfl

/-! ### Assignments and nodes -/

theorem Accepts.indexTurn {position : Expr} {found : List Expr} (h : IndexForm position ts) :
    Accepts (indexTurn found) ts us fun result =>
      ∃ longer, result = .again longer ∧ Finds Expr.shape found position longer := by
  cases h with
  | mk hposition =>
      unfold Parser.indexTurn
      refine Accepts.punctuation ?_
      have hcloses : Closes (.mark .rBracket :: us) := Closes.mark (by simp) (by simp)
      refine Accepts.bind (Accepts.expression hposition hcloses) fun position' hposition' => ?_
      exact Accepts.punctuation (Accepts.pure ⟨_, rfl, _, rfl, hposition'⟩)

theorem Accepts.indices {items : List Expr} (h : Sequence IndexForm items ts)
    (hfront : (front us).kind ≠ .punctuation .lBracket) :
    Accepts (iterate Parser.indexTurn []) ts us fun found => found.map Expr.shape = items := by
  have hne : ∀ item is, IndexForm item is → is ≠ [] := by
    rintro item is ⟨⟩
    simp
  have hstart : Leads Parser.indexTurn (iterate Parser.indexTurn []) [] (ts ++ us)
      fun found => found.map Expr.shape = [] := Leads.nothing_found
  have hall := Leads.sequence (fun _ => True) hne (fun _ _ _ _ => trivial)
    (fun _ _ _ _ hitem _ _ => Accepts.indexTurn hitem) h trivial (Nat.le_refl _) hstart
  refine Leads.stop_nil hall fun found hfound => ?_
  unfold Parser.indexTurn
  exact Accepts.noPunctuation hfront (Accepts.pure ⟨found, rfl, hfound⟩)

/-- What was read is all of a statement but what stands in front of it. -/
def Completes (stmt : Stmt) (result : Option (StmtHead → Stmt)) : Prop :=
  ∃ build, result = some build ∧ ∀ head : StmtHead, head.shape = stmt.head → (build head).shape = stmt

theorem Accepts.assignment {head : StmtHead} {target : String} {indices : List Expr} {op : AssignOp}
    {value : Expr} {vs : List Terminal} (hindices : Sequence IndexForm indices ts)
    (hvalue : Derives (.expr value) vs) :
    Accepts assignment (.name target :: (ts ++ .op op.operator :: (vs ++ [.mark .semi]))) us
      (Completes (.assignment head ⟨target, .none⟩ indices op value)) := by
  unfold Parser.assignment
  refine Accepts.advance (by simp [Terminal.name]) fun token htoken => Accepts.nameOf ?_
  refine Accepts.bind (Accepts.indices hindices (by simp [Terminal.op, Terminal.of]))
    fun indices' hindices' => Accepts.peek fun token' htoken' => ?_
  have hop : token'.operator?.bind AssignOp.ofOperator? = some op := by
    simp [Token.operator?, Token.kind_of_terminal htoken', Terminal.op, Terminal.of,
      TokenKind.operator?, AssignOp.ofOperator?_operator]
  rw [hop]
  refine Accepts.advance (by simp [Terminal.op, Terminal.of]) fun _ _ => ?_
  refine Accepts.bind (Accepts.expression hvalue (Closes.mark (by simp) (by simp)))
    fun value' hvalue' => ?_
  refine Accepts.bind_nil Accepts.expectSemi fun _ _ => Accepts.pure ⟨_, rfl, fun head' hhead => ?_⟩
  rw [Stmt.shape, Name.shape, Token.text_of_terminal htoken, hindices', hvalue', hhead]
  rfl

theorem Accepts.leaf {block : Parser (List Stmt)} {head : StmtHead} {callee : String}
    {arguments : List Argument} (harguments : Closed ArgumentForm arguments ts) :
    Accepts (node block) (.name callee :: .mark .lParen :: (ts ++ [.mark .semi])) us
      (Completes (.leaf head ⟨callee, .none⟩ arguments)) := by
  unfold Parser.node
  refine Accepts.advance (by simp [Terminal.name]) fun token htoken => Accepts.nameOf ?_
  change Accepts _ ((.mark .lParen :: ts) ++ [.mark .semi]) us _
  refine Accepts.bind (Accepts.arguments (.present harguments) (by simp [Terminal.mark, Terminal.of]))
    fun arguments' harguments' => ?_
  obtain ⟨found, rfl, hfound⟩ := Option.map_eq_some_iff.mp harguments'
  refine Accepts.atPunctuation ?_
  refine Accepts.bind_nil Accepts.expectSemi fun _ _ => Accepts.pure ⟨_, rfl, fun head' hhead => ?_⟩
  rw [Stmt.shape, Name.shape, Token.text_of_terminal htoken, hfound, hhead]
  rfl

theorem Accepts.compound {block : Parser (List Stmt)} {head : StmtHead} {callee : String}
    {arguments : Option (List Argument)} {children : List Stmt} {cs : List Terminal}
    (harguments : Optional (.mark .lParen) (Closed ArgumentForm) arguments ts)
    (hsemi : (front us).kind ≠ .punctuation .semi)
    (hblock : Accepts block (.mark .lBrace :: (cs ++ [.mark .rBrace])) us
      fun found => found.map Stmt.shape = children) :
    Accepts (node block) (.name callee :: (ts ++ .mark .lBrace :: (cs ++ [.mark .rBrace]))) us
      (Completes (.compound head ⟨callee, .none⟩ arguments children)) := by
  unfold Parser.node
  refine Accepts.advance (by simp [Terminal.name]) fun token htoken => Accepts.nameOf ?_
  refine Accepts.bind (Accepts.arguments harguments (by simp [Terminal.mark, Terminal.of]))
    fun arguments' harguments' => Accepts.atPunctuation ?_
  refine Accepts.bind_nil hblock fun children' hchildren' => ?_
  have hend : Accepts semicolonAfterBlock [] us fun _ => True := by
    unfold Parser.semicolonAfterBlock
    exact Accepts.peek fun _ _ => Accepts.noPunctuation hsemi (Accepts.pure trivial)
  refine Accepts.bind_nil hend fun _ _ => Accepts.pure ⟨_, rfl, fun head' hhead => ?_⟩
  rw [Stmt.shape, Name.shape, Token.text_of_terminal htoken, harguments', Stmt.shapes_eq_map,
    hchildren', hhead]
  rfl

/-! ### Statements and blocks -/

theorem Accepts.assignmentFollows {f : Bool → Parser β} {follows : Bool} {goal : β → Prop}
    (h : ∀ tokens : List Token, tokens.map Token.terminal = (ts ++ us).drop 1 →
      Skip.assignmentFollows 0 tokens = follows) (hf : Accepts (f follows) ts us goal) :
    Accepts ((fun state => (Skip.assignmentFollows 0 (state.rest.drop 1), state)) >>= f) ts us
      goal := by
  intro s hlevel hcoming
  have hfollows : Skip.assignmentFollows 0 (s.rest.drop 1) = follows := by
    apply h
    rw [List.map_drop, hcoming]
  have hrun : (((fun state => (Skip.assignmentFollows 0 (state.rest.drop 1), state)) : Parser Bool) >>= f) s =
      f follows s := by
    change f (Skip.assignmentFollows 0 (s.rest.drop 1)) s = _
    rw [hfollows]
  rw [hrun]
  exact hf s hlevel hcoming

/-- Behind the name of a node comes no assignment. -/
theorem not_assignmentFollows {t : Terminal} {tokens : List Token} {ts : List Terminal}
    (htokens : tokens.map Token.terminal = t :: ts) (hbracket : t.kind ≠ .punctuation .lBracket)
    (hoperator : ∀ op, t.kind ≠ .operator op) : Skip.assignmentFollows 0 tokens = false := by
  obtain ⟨token, rest, rfl, rfl, -⟩ := List.map_eq_cons_iff.mp htokens
  have hopen : token.isPunctuation .lBracket = false := by
    rw [Token.isPunctuation, beq_eq_false_iff_ne]
    exact hbracket
  have hassigns : token.isAssignment = false := by
    cases hop : token.operator? with
    | none => simp [Token.isAssignment, hop]
    | some op => exact absurd (Token.kind_of_operator? hop) (hoperator op)
  simp [Skip.assignmentFollows, hopen, hassigns]

/-- Nor is there one behind the name of a node with a block, with arguments or without. -/
theorem not_assignmentFollows_of_arguments {items : Option (List Argument)} {tokens : List Token}
    (h : Optional (.mark .lParen) (Closed ArgumentForm) items ts)
    (htokens : tokens.map Token.terminal = ts ++ .mark .lBrace :: us) :
    Skip.assignmentFollows 0 tokens = false := by
  cases h with
  | absent =>
      exact not_assignmentFollows htokens (by simp [Terminal.mark, Terminal.of])
        (by simp [Terminal.mark, Terminal.of])
  | present _ =>
      exact not_assignmentFollows htokens (by simp [Terminal.mark, Terminal.of])
        (by simp [Terminal.mark, Terminal.of])

/-- The terminals are accepted for the statement, given a level of nesting for each. -/
def StmtAccepted (stmt : Stmt) (ts : List Terminal) : Prop :=
  ∀ levels us, (ts ++ us).length ≤ levels.length → (front us).kind ≠ .punctuation .semi →
    Accepts (statement (blockAlong levels)) ts us fun result =>
      ∃ found, result = some found ∧ found.shape = stmt

def StmtPhraseAccepted : StmtPhrase → List Terminal → Prop
  | .stmt whole, ts => StmtAccepted whole ts
  | .bare whole, ts => ∀ levels us preconditions docs, (ts ++ us).length ≤ levels.length →
      (front us).kind ≠ .punctuation .semi →
      Accepts (bareStatement (blockAlong levels) preconditions docs) ts us (Completes whole)
  | .stmts list, ts =>
      Sequence (fun stmt ts => StmtAccepted stmt ts ∧ StmtForm (.stmt stmt) ts) list ts

theorem breaksBlock_of_startsStmt {token : Token} (h : token.kind.startsStmt = true) :
    breaksBlock token = false := by
  have hend : token.isEndOfFile = false := by
    rw [Token.isEndOfFile, beq_eq_false_iff_ne]
    intro hkind
    rw [hkind] at h
    cases h
  cases hopener : token.isOpenerWord with
  | false => simp [breaksBlock, hend, hopener]
  | true =>
      obtain ⟨word, hword, -⟩ := Token.kind_of_isOpenerWord hopener
      rw [hword] at h
      have hplain : word = .varWord ∨ word = .constWord := by
        simpa [TokenKind.startsStmt] using h
      rcases hplain with rfl | rfl <;> simp [breaksBlock, hend, Token.isKeyword, hword]

theorem Accepts.blockTurn {levels : List Token} {opening : SourceRange} {found : List Stmt}
    {stmt : Stmt} (haccepted : StmtAccepted stmt ts) (hform : StmtForm (.stmt stmt) ts)
    (hlength : (ts ++ us).length ≤ levels.length) (hsemi : (front us).kind ≠ .punctuation .semi) :
    Accepts (blockTurn (statement (Parser.blockAlong levels)) opening found) ts us fun result =>
      ∃ longer, result = .again longer ∧ Finds Stmt.shape found stmt longer := by
  have hinner := haccepted levels us hlength hsemi
  obtain ⟨t, rest, rfl, hstarts⟩ := hform.starts
  unfold Parser.blockTurn
  refine Accepts.noPunctuation ?_ (Accepts.peek fun token htoken => ?_)
  · intro hkind
    rw [show t.kind = .punctuation .rBrace from hkind] at hstarts
    cases hstarts
  · have hkind : token.kind = t.kind := Token.kind_of_terminal htoken
    rw [breaksBlock_of_startsStmt (by rw [hkind, hstarts]), if_neg (by simp)]
    refine Accepts.bind_nil (Accepts.orStepOver (by simp) hinner) ?_
    rintro _ ⟨stmt', rfl, hstmt⟩
    exact Accepts.pure ⟨_, rfl, stmt', rfl, hstmt⟩

theorem Accepts.blockAlong {stmts : List Stmt} {levels : List Token}
    (h : StmtPhraseAccepted (.stmts stmts) ts)
    (hlength : (ts ++ Terminal.mark .rBrace :: us).length < levels.length) :
    Accepts (blockAlong levels) (.mark .lBrace :: (ts ++ [.mark .rBrace])) us
      fun found => found.map Stmt.shape = stmts := by
  cases levels with
  | nil => cases hlength
  | cons token levels =>
      unfold Parser.blockAlong Parser.blockOf
      refine Accepts.advance (by simp [Terminal.mark, Terminal.of]) fun opening _ => ?_
      let body := Parser.blockTurn (statement (Parser.blockAlong levels)) opening.range
      have hstart : Leads body (iterate body []) [] (ts ++ .mark .rBrace :: us)
          fun found => found.map Stmt.shape = [] := Leads.nothing_found
      have hfollow : ∀ (stmt : Stmt) (is us : List Terminal),
          StmtAccepted stmt is ∧ StmtForm (.stmt stmt) is →
            (front (is ++ us)).kind ≠ .punctuation .semi := by
        rintro stmt is us ⟨-, hform⟩ hkind
        obtain ⟨t, rest, rfl, hstarts⟩ := hform.starts
        rw [show t.kind = .punctuation .semi from hkind] at hstarts
        cases hstarts
      have hall := Leads.sequence (fun us => (front us).kind ≠ .punctuation .semi)
        (fun _ _ hitem => hitem.2.ne_nil) hfollow
        (fun _ _ _ _ hitem hsemi hbound => Accepts.blockTurn hitem.1 hitem.2 hbound hsemi) h
        (by simp [Terminal.mark, Terminal.of]) (Nat.le_of_lt_succ hlength) hstart
      refine Leads.stop hall fun found hfound => ?_
      exact Accepts.punctuation (Accepts.pure ⟨found, rfl, hfound⟩)

/-- A statement that starts with a name, which the scan takes for an assignment or for a node. -/
theorem Accepts.named_statement {stmt : Stmt} {block : Parser (List Stmt)}
    {preconditions : List Precondition} {docs : Docs} {text : String} (follows : Bool)
    (hforeign : ForeignWord.ofSpelling? text = none)
    (hfollows : ∀ tokens : List Token, tokens.map Token.terminal = ts ++ us →
      Skip.assignmentFollows 0 tokens = follows)
    (hrest : Accepts (if follows then Parser.assignment else node block) (.name text :: ts) us
      (Completes stmt)) :
    Accepts (bareStatement block preconditions docs) (.name text :: ts) us (Completes stmt) := by
  unfold Parser.bareStatement
  refine Accepts.peek fun token htoken => ?_
  rw [show token.kind = .identifier from Token.kind_of_terminal htoken]
  dsimp only
  rw [Token.text_of_terminal htoken, hforeign]
  exact Accepts.assignmentFollows (f := fun follows => if follows then _ else _) hfollows hrest

theorem Accepts.statement {stmt : Stmt} {block : Parser (List Stmt)} {hs : List Terminal}
    (hhead : HeadForm stmt.head hs) (hform : StmtForm (.bare stmt) ts)
    (hbare : ∀ preconditions docs, Accepts (bareStatement block preconditions docs) ts us
      (Completes stmt)) :
    Accepts (Parser.statement block) (hs ++ ts) us fun result =>
      ∃ found, result = some found ∧ found.shape = stmt := by
  obtain ⟨t, rest, hts, hstarts, hdoc, hat⟩ := hform.starts_bare
  have hfront : front (ts ++ us) = t := by rw [hts, List.cons_append, front_cons]
  generalize hhead' : stmt.head = head at hhead
  cases hhead with
  | @mk items ps docs hitems =>
      unfold Parser.statement
      rw [List.append_assoc]
      have hkind : (front (ps ++ (ts ++ us))).kind = t.kind ∨
          (front (ps ++ (ts ++ us))).kind = .punctuation .at := by
        cases hitems with
        | nil => exact .inl (by rw [List.nil_append, hfront])
        | cons hfirst _ =>
            cases hfirst with
            | mk kind _ => exact .inr rfl
      refine Accepts.bind (Accepts.docComments (fun line hline => ?_) fun line hline => ?_)
        fun docs' hdocs => ?_
      · rw [List.append_assoc] at hline
        rcases hkind with hkind | hkind
        · exact hdoc line (hkind.symm.trans hline)
        · cases hkind.symm.trans hline
      · rw [List.append_assoc] at hline
        rcases hkind with hkind | hkind
        · rw [hkind.symm.trans hline] at hstarts
          cases hstarts
        · cases hkind.symm.trans hline
      · refine Accepts.bind (Accepts.preconditions hitems ?_) fun preconditions hpreconditions => ?_
        · rw [hfront]
          exact hat
        · refine Accepts.peek fun token _ => ?_
          refine Accepts.bind_nil (hbare preconditions docs') ?_
          rintro _ ⟨build, rfl, hbuild⟩
          refine Accepts.rangeSince fun range => ?_
          have hnew : Accepts (Parser.newStmt range fun origin => build ⟨origin, docs'.lines, preconditions⟩)
              [] us (·.shape = stmt) := by
            refine Accepts.of_bind_pure (Accepts.newStmt fun origin => Accepts.pure (hbuild _ ?_))
            rw [hhead', StmtHead.shape, hdocs, hpreconditions]
          exact Accepts.map hnew fun found hfound => ⟨found, rfl, hfound⟩

theorem StmtForm.accepted {phrase : StmtPhrase} (h : StmtForm phrase ts) (hplain : phrase.Plain) :
    StmtPhraseAccepted phrase ts := by
  induction h with
  | headed hhead hbare ih =>
      intro levels us hlength hsemi
      rw [List.append_assoc, List.length_append] at hlength
      refine Accepts.statement hhead hbare fun preconditions docs => ?_
      exact ih hplain levels us preconditions docs (by omega) hsemi
  | varDecl head name htype hinit =>
      intro levels us preconditions docs _ _
      unfold Parser.bareStatement
      refine Accepts.peek fun token htoken => ?_
      rw [show token.kind = .keyword .varWord from Token.kind_of_terminal htoken]
      refine Accepts.bind_nil (Accepts.varParts htype hinit) ?_
      rintro _ ⟨parts, rfl, hname, htype', hinit'⟩
      refine Accepts.pure ⟨_, rfl, fun head' hhead => ?_⟩
      rw [Stmt.shape, Name.shape, hname, htype', hinit', hhead]
      rfl
  | constDecl head name htype hvalue =>
      intro levels us preconditions docs _ _
      unfold Parser.bareStatement
      refine Accepts.peek fun token htoken => ?_
      rw [show token.kind = .keyword .constWord from Token.kind_of_terminal htoken]
      refine Accepts.bind_nil (Accepts.constParts htype hvalue) ?_
      rintro _ ⟨parts, rfl, hname, htype', hvalue'⟩
      refine Accepts.pure ⟨_, rfl, fun head' hhead => ?_⟩
      rw [Stmt.shape, Name.shape, hname, htype', hvalue', hhead]
      rfl
  | assignment head target op hindices hvalue =>
      intro levels us preconditions docs _ _
      refine Accepts.named_statement true hplain.1 (fun tokens htokens => ?_)
        (Accepts.assignment hindices hvalue)
      rw [List.append_assoc] at htokens
      exact assignmentFollows_of_indices hindices hplain.2 tokens htokens
  | leaf head callee harguments =>
      intro levels us preconditions docs _ _
      refine Accepts.named_statement false hplain (fun tokens htokens => ?_)
        (Accepts.leaf harguments)
      exact not_assignmentFollows htokens (by simp [Terminal.mark, Terminal.of])
        (by simp [Terminal.mark, Terminal.of])
  | @compound arguments children as cs head callee harguments _ ih =>
      intro levels us preconditions docs hlength hsemi
      have hblock : Accepts (blockAlong levels) (.mark .lBrace :: (cs ++ [.mark .rBrace])) us
          fun found => found.map Stmt.shape = children := by
        refine Accepts.blockAlong (ih hplain.2) ?_
        simp only [List.length_append, List.length_cons, List.length_nil] at hlength ⊢
        omega
      refine Accepts.named_statement false hplain.1 (fun tokens htokens => ?_)
        (Accepts.compound harguments hsemi hblock)
      have hbehind : tokens.map Token.terminal = as ++ .mark .lBrace :: (cs ++ .mark .rBrace :: us) := by
        simpa using htokens
      exact not_assignmentFollows_of_arguments harguments hbehind
  | nil => exact .nil
  | cons hstmt _ ih ihrest => exact .cons ⟨ih hplain.1, hstmt⟩ (ihrest hplain.2)

theorem Accepts.block {stmts : List Stmt} (h : StmtForm (.stmts stmts) ts)
    (hplain : Stmt.AllPlain stmts) :
    Accepts block (.mark .lBrace :: (ts ++ [.mark .rBrace])) us
      fun found => found.map Stmt.shape = stmts := by
  intro s hlevel hcoming
  have hlength : (ts ++ Terminal.mark .rBrace :: us).length < s.rest.length := by
    have htotal := congrArg List.length hcoming
    simp only [List.length_map, List.length_append, List.length_cons, List.length_nil] at htotal ⊢
    omega
  exact Accepts.blockAlong (StmtForm.accepted h hplain) hlength s hlevel hcoming

end Parser

end BehaviorTree
