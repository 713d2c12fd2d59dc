import BehaviorTree.Parsing.Item
import BehaviorTree.Proofs.Parsing.Acceptance
import BehaviorTree.Proofs.Syntax.Grammar

/-!
# Accepted types and expressions

Whatever the grammar derives for a type or an expression is accepted for it, in front of anything
that cannot be taken to continue it. The induction is on the derivation. Where the grammar is
left-recursive the parser is in a loop, so the induction hypothesis for the left part says that the
run has got to a turn of that loop.
-/

namespace BehaviorTree

/-! ### What may follow -/

theorem EndsInString.append {ts us : List Terminal} (h : EndsInString us) :
    EndsInString (ts ++ us) := by
  unfold EndsInString at h ⊢
  rw [List.getLast?_append, h]
  rfl

/-- What comes cannot be taken for the rest of a type at the end of `ts`. -/
structure EndsType (ts us : List Terminal) : Prop where
  question : (front us).kind ≠ .punctuation .question
  less : EndsInString ts → (front us).kind ≠ .operator .lt

theorem EndsType.of_append {ts us vs : List Terminal} (h : EndsType (ts ++ us) vs) :
    EndsType us vs := ⟨h.question, fun hends => h.less hends.append⟩

theorem EndsType.of_cons {us vs : List Terminal} {t : Terminal} (h : EndsType (t :: us) vs) :
    EndsType us vs := EndsType.of_append (show EndsType ([t] ++ us) vs from h)

/-- What comes is no suffix. -/
structure EndsSuffixes (us : List Terminal) : Prop where
  bracket : (front us).kind ≠ .punctuation .lBracket
  cast : (front us).kind ≠ .keyword .asWord

/-- What comes is no operator of the given layers. -/
def EndsLayers (layers : List Nat) (us : List Terminal) : Prop :=
  ∀ op : BinaryOp, op.operator.precedence ∈ layers → (front us).kind ≠ .operator op.operator

/-- A mark behind which no expression goes on. -/
def Closes (us : List Terminal) : Prop :=
  ∃ mark, (front us).kind = .punctuation mark ∧ mark ≠ .question ∧ mark ≠ .lBracket

namespace Closes

variable {us : List Terminal}

theorem mark {mark : Punctuation} (hquestion : mark ≠ .question) (hbracket : mark ≠ .lBracket) :
    Closes (.mark mark :: us) := ⟨mark, rfl, hquestion, hbracket⟩

theorem endsType (h : Closes us) (ts : List Terminal) : EndsType ts us := by
  obtain ⟨mark, hmark, hquestion, -⟩ := h
  constructor
  · rw [hmark]
    simpa using hquestion
  · intro _
    simp [hmark]

theorem endsSuffixes (h : Closes us) : EndsSuffixes us := by
  obtain ⟨mark, hmark, -, hbracket⟩ := h
  constructor
  · rw [hmark]
    simpa using hbracket
  · simp [hmark]

theorem endsLayers (h : Closes us) (layers : List Nat) : EndsLayers layers us := by
  obtain ⟨mark, hmark, -⟩ := h
  intro op _
  simp [hmark]

end Closes

theorem EndsType.operator {op : BinaryOp} {ts us : List Terminal}
    (hless : op = .less → ¬EndsInString ts) : EndsType ts (.op op.operator :: us) := by
  constructor
  · simp [Terminal.op, Terminal.of]
  · intro hends hkind
    have hop : op.operator = .lt := by simpa [Terminal.op, Terminal.of] using hkind
    have hless' : op = .less := by cases op <;> simp_all [BinaryOp.operator]
    exact hless hless' hends

namespace Parser

/-! ### Nesting -/

/-- Parsers with at least so many levels of nesting. -/
inductive Deep : Nat → Nested → Prop
  | bottom (nested : Nested) : Deep 0 nested
  | around {depth : Nat} {inner : Unit → Nested} :
    Deep depth (inner ()) → Deep (depth + 1) (around inner)

theorem Deep.along (levels : List Token) : Deep (levels.length + 1) (nestedAlong levels) := by
  induction levels with
  | nil => exact .around (.bottom _)
  | cons token levels ih => exact .around ih

/-- The terminals are accepted for a chain of the given layers. Behind the tighter ones the run is in
the loop of the loosest layer, where an operator of that layer may come unless it does not group. -/
def ChainAccepted : List Nat → Expr → List Terminal → Prop
  | [], expr, ts => ∀ {depth nested} us, Deep depth nested → (ts ++ us).length ≤ depth →
      EndsType ts us → EndsSuffixes us → Accepts (unary nested) ts us (·.shape = expr)
  | layer :: layers, expr, ts => ∀ {depth nested} us, Deep depth nested →
      (ts ++ us).length ≤ depth → (layer :: layers).Nodup →
      EndsType ts us → EndsSuffixes us → EndsLayers layers us →
      (∀ op : BinaryOp, op.operator.precedence = layer → op.operator.associativity = .none →
        (front us).kind ≠ .operator op.operator) →
      Leads (extendChain layer (layered nested layers)) (layered nested (layer :: layers)) ts us
        fun chain => chain.left.shape = expr ∧ chain.reported = false

/-- The elements of a list behind its first. -/
inductive Elements : List Expr → List Terminal → Prop
  | none : Elements [] []
  | comma : Elements [] [.mark .comma]
  | next {expr rest ts us} : ChainAccepted Operator.layers expr ts →
    Derives (.expr expr) ts → Elements rest us → Elements (expr :: rest) (.mark .comma :: (ts ++ us))

/-- The terminals are accepted for the phrase wherever nothing continues it. -/
def PhraseAccepted : Phrase → List Terminal → Prop
  | .layered layers e, ts => ChainAccepted layers e ts
  | .unary e, ts => ChainAccepted [] e ts
  | .suffixed e, ts => ∀ {depth nested} us, Deep depth nested → (ts ++ us).length ≤ depth →
      EndsType ts us → Leads (suffix nested) (suffixed nested) ts us (·.shape = e)
  | .primary e, ts => ∀ {depth nested} us, Deep depth nested → (ts ++ us).length ≤ depth →
      Accepts (primary nested) ts us (·.shape = e)
  | .array e, ts => ∀ {depth nested} us, Deep depth nested → (ts ++ us).length ≤ depth →
      Accepts (arrayExpr nested) ts us (·.shape = e)
  | .elements es, ts => ∃ first rest fs ms, es = first :: rest ∧ ts = fs ++ ms ∧
      ChainAccepted Operator.layers first fs ∧ Derives (.expr first) fs ∧ Elements rest ms
  | .type t, ts => ∀ {depth nested} us, Deep depth nested → (ts ++ us).length ≤ depth →
      EndsType ts us → Accepts (typeIn nested) ts us (·.shape = t)
  | .plainType t, ts => ∀ {depth nested} us, Deep depth nested → (ts ++ us).length ≤ depth →
      (EndsInString ts → (front us).kind ≠ .operator .lt) →
      Accepts (plainType nested) ts us fun result =>
        ∃ build, result = some build ∧ ∀ origin, (build origin).shape = t

variable {depth : Nat} {nested : Nested} {ts us vs : List Terminal} {expr : Expr} {type : TypeExpr}

theorem ChainAccepted.layered {layers : List Nat} (h : ChainAccepted layers expr ts)
    (us : List Terminal) (hdeep : Deep depth nested) (hlength : (ts ++ us).length ≤ depth) (hnodup : layers.Nodup)
    (hends : EndsType ts us) (hsuffixes : EndsSuffixes us) (hlayers : EndsLayers layers us) :
    Accepts (layered nested layers) ts us fun chain =>
      chain.left.shape = expr ∧ chain.reported = false := by
  cases layers with
  | nil =>
      refine Accepts.bind_nil (h us hdeep hlength hends hsuffixes) fun operand hoperand => ?_
      exact Accepts.pure ⟨hoperand, rfl⟩
  | cons layer layers =>
      have hlead := h us hdeep hlength hnodup hends hsuffixes
        (fun op hop => hlayers op (List.mem_cons_of_mem _ hop))
        (fun op hop _ => hlayers op (hop ▸ List.mem_cons_self))
      refine Leads.stop_nil hlead fun chain hchain => ?_
      unfold Parser.extendChain
      refine Accepts.peek fun token htoken => ?_
      have hnone : token.binaryOpOn? layer = none := by
        refine Token.binaryOpOn?_eq_none fun op hop => ?_
        rw [Token.kind_of_terminal htoken]
        exact hlayers op (hop ▸ List.mem_cons_self)
      rw [hnone]
      exact Accepts.pure ⟨chain, rfl, hchain⟩

/-- An expression is accepted in front of what does not continue it. -/
theorem ChainAccepted.expressionIn (h : ChainAccepted Operator.layers expr ts)
    (hdeep : Deep depth nested) (hlength : (ts ++ us).length ≤ depth) (hcloses : Closes us) :
    Accepts (expressionIn nested) ts us (·.shape = expr) := by
  unfold Parser.expressionIn
  have hchain := h.layered us hdeep hlength (by decide) (hcloses.endsType ts) hcloses.endsSuffixes
    (hcloses.endsLayers _)
  exact Accepts.bind_nil hchain fun chain hgood => Accepts.pure hgood.1

theorem ChainAccepted.nested_expression (h : ChainAccepted Operator.layers expr ts)
    (us : List Terminal) (hdeep : Deep depth nested) (hlength : (ts ++ us).length < depth) (hcloses : Closes us) :
    Accepts nested.expression ts us (·.shape = expr) := by
  cases hdeep with
  | bottom => exact absurd hlength (Nat.not_lt_zero _)
  | around hinner => exact h.expressionIn hinner (by omega) hcloses

theorem PhraseAccepted.nested_type (h : PhraseAccepted (.type type) ts) (us : List Terminal)
    (hdeep : Deep depth nested) (hlength : (ts ++ us).length < depth) (hends : EndsType ts us) :
    Accepts nested.type ts us (·.shape = type) := by
  cases hdeep with
  | bottom => exact absurd hlength (Nat.not_lt_zero _)
  | around hinner => exact h us hinner (by omega) hends

theorem PhraseAccepted.nested_operand (h : PhraseAccepted (.unary expr) ts) (us : List Terminal)
    (hdeep : Deep depth nested) (hlength : (ts ++ us).length < depth) (hends : EndsType ts us)
    (hsuffixes : EndsSuffixes us) : Accepts nested.operand ts us (·.shape = expr) := by
  cases hdeep with
  | bottom => exact absurd hlength (Nat.not_lt_zero _)
  | around hinner => exact h us hinner (by omega) hends hsuffixes

/-! ### Operators -/

theorem ChainAccepted.tighter {layer : Nat} {layers : List Nat} (h : ChainAccepted layers expr ts) :
    ChainAccepted (layer :: layers) expr ts := by
  intro depth nested us hdeep hlength hnodup hends hsuffixes hlayers _
  exact Leads.start (h.layered us hdeep hlength hnodup.of_cons hends hsuffixes hlayers)

/-- One more operator and its right operand. -/
theorem ChainAccepted.extend {layer : Nat} {layers : List Nat} {op : BinaryOp} {left right : Expr}
    {rs : List Terminal} (hlayer : op.operator.precedence = layer)
    (hright : ChainAccepted layers right rs) (hdeep : Deep depth nested)
    (hlength : (rs ++ us).length ≤ depth) (hnodup : layers.Nodup) (hends : EndsType rs us)
    (hsuffixes : EndsSuffixes us) (hlayers : EndsLayers layers us)
    (hnone : op.operator.associativity = .none →
      ∀ other : BinaryOp, other.operator.precedence = layer →
        (front us).kind ≠ .operator other.operator)
    {chain : Chain} (hchain : chain.left.shape = left ∧ chain.reported = false) :
    Accepts (extendChain layer (Parser.layered nested layers) chain) (.op op.operator :: rs) us
      fun result => ∃ next, result = .again next ∧
        next.left.shape = .binary .blank op left right ∧ next.reported = false := by
  unfold Parser.extendChain
  refine Accepts.peek fun token htoken => ?_
  have hop : token.binaryOpOn? layer = some op := by
    rw [← hlayer]
    exact Token.binaryOpOn?_eq_some (Token.kind_of_terminal htoken)
  rw [hop]
  refine Accepts.advance (by simp [Terminal.op, Terminal.of]) fun opening _ => ?_
  refine Accepts.bind_nil (hright.layered us hdeep hlength hnodup hends hsuffixes hlayers)
    fun operand hoperand => Accepts.newExpr fun origin => Accepts.peek fun next hnext => ?_
  have hshape : (Expr.binary origin op chain.left operand.left).shape =
      .binary .blank op left right := by
    rw [Expr.shape, hchain.1, hoperand.1]
  have hunchained : ¬(op.operator.associativity = .none ∧ !chain.reported ∧
      (next.binaryOpOn? layer).isSome) := by
    rintro ⟨hassociativity, -, hsome⟩
    rw [Token.binaryOpOn?_eq_none fun other hother => ?_] at hsome
    · cases hsome
    · rw [Token.kind_of_terminal hnext]
      exact hnone hassociativity other hother
  rw [if_neg hunchained]
  exact Accepts.pure ⟨_, rfl, hshape, hchain.2⟩

theorem ChainAccepted.grouped {layer : Nat} {layers : List Nat} {left right : Expr}
    {ls rs : List Terminal} (op : BinaryOp) (hlayer : op.operator.precedence = layer)
    (hleftward : op.operator.associativity = .left)
    (hleft : ChainAccepted (layer :: layers) left ls) (hright : ChainAccepted layers right rs) :
    ChainAccepted (layer :: layers) (.binary .blank op left right) (ls ++ .op op.operator :: rs) := by
  intro depth nested us hdeep hlength hnodup hends hsuffixes hlayers hnone
  simp only [List.length_append, List.length_cons] at hlength
  have hless : op = .less → ¬EndsInString ls := by
    rintro rfl
    cases hleftward
  have hloop := hleft (.op op.operator :: rs ++ us) hdeep (by simp; omega) hnodup
    (EndsType.operator hless) ⟨by simp [Terminal.op, Terminal.of], by simp [Terminal.op, Terminal.of]⟩
    (fun other hother hkind => ?_) (fun other hother hother' hkind => ?_)
  · refine Leads.turn hloop (by simp) fun chain hchain => ?_
    refine hright.extend hlayer hdeep (by simp; omega) hnodup.of_cons hends.of_append.of_cons
      hsuffixes hlayers (fun h => ?_) hchain
    rw [hleftward] at h
    cases h
  · have hsame : op.operator = other.operator := by simpa [Terminal.op, Terminal.of] using hkind
    rw [← hsame, hlayer] at hother
    exact (List.nodup_cons.mp hnodup).1 hother
  · have hsame : op.operator = other.operator := by simpa [Terminal.op, Terminal.of] using hkind
    rw [← hsame, hleftward] at hother'
    cases hother'

theorem ChainAccepted.single {layer : Nat} {layers : List Nat} {left right : Expr}
    {ls rs : List Terminal} (op : BinaryOp) (hlayer : op.operator.precedence = layer)
    (hnone : op.operator.associativity = .none) (hless : op = .less → ¬EndsInString ls)
    (hleft : ChainAccepted layers left ls) (hright : ChainAccepted layers right rs) :
    ChainAccepted (layer :: layers) (.binary .blank op left right) (ls ++ .op op.operator :: rs) := by
  intro depth nested us hdeep hlength hnodup hends hsuffixes hlayers hother
  simp only [List.length_append, List.length_cons] at hlength
  have hstart := hleft.layered (.op op.operator :: rs ++ us) hdeep (by simp; omega)
    hnodup.of_cons (EndsType.operator hless)
    ⟨by simp [Terminal.op, Terminal.of], by simp [Terminal.op, Terminal.of]⟩
    (fun other hother hkind => ?_)
  · refine Leads.turn (Leads.start hstart) (by simp) fun chain hchain => ?_
    refine hright.extend hlayer hdeep (by simp; omega) hnodup.of_cons hends.of_append.of_cons
      hsuffixes hlayers (fun _ other hsame => hother other hsame ?_) hchain
    rw [← hnone]
    exact (Operator.associativity_eq_of_precedence_eq (hlayer.trans hsame.symm) op.precedence_pos).symm
  · have hsame : op.operator = other.operator := by simpa [Terminal.op, Terminal.of] using hkind
    rw [← hsame, hlayer] at hother
    exact (List.nodup_cons.mp hnodup).1 hother

theorem ChainAccepted.prefixed {operand : Expr} (op : UnaryOp)
    (h : PhraseAccepted (.unary operand) ts) :
    ChainAccepted [] (.unary .blank op operand) (.op op.operator :: ts) := by
  intro depth nested us hdeep hlength hends hsuffixes
  unfold Parser.unary
  refine Accepts.peek fun token htoken => ?_
  have hop : token.operator?.bind UnaryOp.ofOperator? = some op := by
    simp [Token.operator?, Token.kind_of_terminal htoken, Terminal.op, Terminal.of,
      TokenKind.operator?, UnaryOp.ofOperator?_operator]
  rw [hop]
  refine Accepts.advance (by simp [Terminal.op, Terminal.of]) fun _ _ => ?_
  have hoperand := h.nested_operand us hdeep
    (by rw [List.cons_append, List.length_cons] at hlength; exact hlength) hends.of_cons hsuffixes
  refine Accepts.bind_nil hoperand fun x hx => Accepts.of_bind_pure (Accepts.newExpr fun origin => ?_)
  exact Accepts.pure (by rw [Expr.shape, hx])

theorem ChainAccepted.unprefixed (hderives : Derives (.suffixed expr) ts)
    (h : PhraseAccepted (.suffixed expr) ts) : ChainAccepted [] expr ts := by
  intro depth nested us hdeep hlength hends hsuffixes
  obtain ⟨t, rest, rfl, hstarts⟩ := hderives.starts
  unfold Parser.unary
  refine Accepts.peek fun token htoken => ?_
  have hnone : token.operator?.bind UnaryOp.ofOperator? = none := by
    have hkind : token.kind = t.kind := Token.kind_of_terminal htoken
    simp only [Phrase.StartsWith] at hstarts
    cases ht : t.kind <;> simp_all [Token.operator?, TokenKind.operator?, TokenKind.startsPrimary]
  rw [hnone]
  refine Leads.stop_nil (h us hdeep hlength hends) fun base hbase => ?_
  unfold Parser.suffix
  dsimp only
  refine Accepts.noPunctuation hsuffixes.bracket (Accepts.peek fun token htoken => ?_)
  rw [if_neg]
  · exact Accepts.pure ⟨base, rfl, hbase⟩
  · rw [Token.isKeyword, Token.kind_of_terminal htoken]
    simpa using hsuffixes.cast

/-! ### Suffixes -/

theorem PhraseAccepted.index {base position : Expr} {bs ps : List Terminal}
    (hbase : PhraseAccepted (.suffixed base) bs) (hposition : ChainAccepted Operator.layers position ps) :
    PhraseAccepted (.suffixed (.index .blank base position))
      (bs ++ .mark .lBracket :: (ps ++ [.mark .rBracket])) := by
  intro depth nested us hdeep hlength hends
  simp only [List.length_append, List.length_cons, List.length_nil] at hlength
  have hloop := hbase (.mark .lBracket :: (ps ++ [.mark .rBracket]) ++ us) hdeep
    (by simp; omega) ⟨by simp [Terminal.mark, Terminal.of], fun _ => by simp [Terminal.mark, Terminal.of]⟩
  refine Leads.turn hloop (by simp) fun base' hbase' => ?_
  unfold Parser.suffix
  dsimp only
  refine Accepts.punctuation ?_
  have hinner := hposition.nested_expression ([.mark .rBracket] ++ us) hdeep
    (by simp; omega) (Closes.mark (by simp) (by simp))
  refine Accepts.bind hinner fun position' hposition' => ?_
  refine Accepts.bind_nil Accepts.expectPunctuation fun _ _ => Accepts.rangeSince fun range => ?_
  refine Accepts.newExpr fun origin => Accepts.pure ⟨_, rfl, ?_⟩
  rw [Expr.shape, hbase', hposition']

theorem PhraseAccepted.cast {operand : Expr} {os : List Terminal}
    (hoperand : PhraseAccepted (.suffixed operand) os) (htype : PhraseAccepted (.type type) ts) :
    PhraseAccepted (.suffixed (.cast .blank operand type)) (os ++ .word .asWord :: ts) := by
  intro depth nested us hdeep hlength hends
  simp only [List.length_append, List.length_cons] at hlength
  have hloop := hoperand (.word .asWord :: ts ++ us) hdeep (by simp; omega)
    ⟨by simp [Terminal.word, Terminal.of], fun _ => by simp [Terminal.word, Terminal.of]⟩
  refine Leads.turn hloop (by simp) fun operand' hoperand' => ?_
  unfold Parser.suffix
  dsimp only
  refine Accepts.noPunctuation (by simp [Terminal.word, Terminal.of]) (Accepts.peek fun token htoken => ?_)
  rw [if_pos (by simp [Token.isKeyword, Token.kind_of_terminal htoken, Terminal.word, Terminal.of])]
  refine Accepts.advance (by simp [Terminal.word, Terminal.of]) fun _ _ => ?_
  have hinner := htype.nested_type us hdeep (by simp; omega) hends.of_append.of_cons
  refine Accepts.bind_nil hinner fun type' htype' => Accepts.rangeSince fun range => ?_
  refine Accepts.newExpr fun origin => Accepts.pure ⟨_, rfl, ?_⟩
  rw [Expr.shape, hoperand', htype']

theorem PhraseAccepted.unsuffixed (h : PhraseAccepted (.primary expr) ts) :
    PhraseAccepted (.suffixed expr) ts := by
  intro depth nested us hdeep hlength _
  exact Leads.start (h us hdeep hlength)

/-! ### Operands -/

theorem Accepts.literal {kind : TokenKind} {build : Origin → Expr} (hend : kind ≠ .endOfFile)
    {shape : Expr} (hbuild : ∀ origin, (build origin).shape = shape) {text : String} :
    Accepts (literal build) [⟨kind, text⟩] us (·.shape = shape) := by
  unfold Parser.literal
  refine Accepts.advance hend fun token _ => Accepts.of_bind_pure ?_
  exact Accepts.newExpr fun origin => Accepts.pure (hbuild origin)

theorem PhraseAccepted.ref (text : String) :
    PhraseAccepted (.primary (.ref .blank ⟨text, .none⟩)) [.name text] := by
  intro depth nested us _ _
  unfold Parser.primary
  refine Accepts.peek fun token htoken => ?_
  rw [show token.kind = .identifier from Token.kind_of_terminal htoken]
  refine Accepts.nameOf (Accepts.literal TokenKind.noConfusion fun origin => ?_)
  rw [Expr.shape, Name.shape, Token.text_of_terminal htoken]

theorem PhraseAccepted.parens (h : ChainAccepted Operator.layers expr ts) :
    PhraseAccepted (.primary expr) (.mark .lParen :: (ts ++ [.mark .rParen])) := by
  intro depth nested us hdeep hlength
  simp only [List.length_append, List.length_cons, List.length_nil] at hlength
  unfold Parser.primary
  refine Accepts.peek fun token htoken => ?_
  rw [show token.kind = .punctuation .lParen from Token.kind_of_terminal htoken]
  dsimp only
  unfold Parser.parenthesized
  refine Accepts.advance (by simp [Terminal.mark, Terminal.of]) fun _ _ => ?_
  have hinner := h.nested_expression ([.mark .rParen] ++ us) hdeep (by simp; omega)
    (Closes.mark (by simp) (by simp))
  refine Accepts.bind hinner fun inner hshape => ?_
  refine Accepts.bind_nil Accepts.expectPunctuation fun _ _ => Accepts.rangeSince fun range => ?_
  refine Accepts.of_bind_pure (Accepts.widenExpr (Accepts.pure ?_))
  rw [Expr.shape_withRange, hshape]

theorem PhraseAccepted.array_primary (hderives : Derives (.array expr) ts)
    (h : PhraseAccepted (.array expr) ts) : PhraseAccepted (.primary expr) ts := by
  intro depth nested us hdeep hlength
  unfold Parser.primary
  refine Accepts.peek fun token htoken => ?_
  have hkind : token.kind = .punctuation .lBracket := by
    rw [Token.kind_of_terminal htoken]
    cases hderives <;> rfl
  rw [hkind]
  exact h us hdeep hlength

theorem PhraseAccepted.vec (hderives : Derives (.array expr) ts)
    (h : PhraseAccepted (.array expr) ts) :
    PhraseAccepted (.primary (.vec .blank expr)) (.word .vecWord :: .op .bang :: ts) := by
  intro depth nested us hdeep hlength
  simp only [List.length_append, List.length_cons] at hlength
  unfold Parser.primary
  refine Accepts.peek fun token htoken => ?_
  rw [show token.kind = .keyword .vecWord from Token.kind_of_terminal htoken]
  dsimp only
  unfold Parser.vecExpr
  refine Accepts.advance (by simp [Terminal.word, Terminal.of]) fun _ _ => ?_
  dsimp only
  refine Accepts.operator (Accepts.atPunctuation ?_)
  have hkind : ((front (ts ++ us)).kind == .punctuation .lBracket) = true := by
    cases hderives <;> rfl
  rw [hkind, if_pos rfl]
  refine Accepts.bind_nil (h us hdeep (by simp; omega)) fun inner hinner => ?_
  refine Accepts.rangeSince fun range => Accepts.of_bind_pure ?_
  exact Accepts.newExpr fun origin => Accepts.pure (by rw [Expr.shape, hinner])

theorem PhraseAccepted.empty :
    PhraseAccepted (.array (.array .blank [])) [.mark .lBracket, .mark .rBracket] := by
  intro depth nested us _ _
  unfold Parser.arrayExpr
  refine Accepts.advance (by simp [Terminal.mark, Terminal.of]) fun _ _ => ?_
  dsimp only
  refine Accepts.punctuation (Accepts.rangeSince fun range => Accepts.of_bind_pure ?_)
  exact Accepts.newExpr fun origin => Accepts.pure rfl

/-- What an expression starts with is no closing bracket. -/
theorem front_ne_rBracket (h : Derives (.expr expr) ts) :
    (front (ts ++ us)).kind ≠ .punctuation .rBracket := by
  obtain ⟨t, rest, rfl, hstarts⟩ := h.starts
  intro hkind
  have ht : t.kind = .punctuation .rBracket := hkind
  rw [Phrase.StartsWith, ht] at hstarts
  cases hstarts

theorem PhraseAccepted.repeated {value count : Expr} {vs cs : List Terminal}
    (hderives : Derives (.expr value) vs) (hvalue : ChainAccepted Operator.layers value vs)
    (hcount : ChainAccepted Operator.layers count cs) :
    PhraseAccepted (.array (.repeated .blank value count))
      (.mark .lBracket :: (vs ++ .mark .semi :: (cs ++ [.mark .rBracket]))) := by
  intro depth nested us hdeep hlength
  simp only [List.length_append, List.length_cons, List.length_nil] at hlength
  unfold Parser.arrayExpr
  refine Accepts.advance (by simp [Terminal.mark, Terminal.of]) fun _ _ => ?_
  dsimp only
  refine Accepts.noPunctuation ?_ ?_
  · rw [List.append_assoc]
    exact front_ne_rBracket hderives
  · have hfirst := hvalue.nested_expression (.mark .semi :: (cs ++ [.mark .rBracket]) ++ us) hdeep
      (by simp; omega) (Closes.mark (by simp) (by simp))
    refine Accepts.bind hfirst fun value' hvalue' => Accepts.punctuation ?_
    have hsecond := hcount.nested_expression ([.mark .rBracket] ++ us) hdeep (by simp; omega)
      (Closes.mark (by simp) (by simp))
    refine Accepts.bind hsecond fun count' hcount' => ?_
    refine Accepts.bind_nil Accepts.expectPunctuation fun _ _ => Accepts.rangeSince fun range => ?_
    refine Accepts.of_bind_pure (Accepts.newExpr fun origin => Accepts.pure ?_)
    rw [Expr.shape, hvalue', hcount']

theorem Elements.closes {rest : List Expr} {ms : List Terminal} (h : Elements rest ms) :
    Closes (ms ++ .mark .rBracket :: us) := by
  cases h with
  | none => exact Closes.mark (by simp) (by simp)
  | comma => exact Closes.mark (by simp) (by simp)
  | next _ _ _ => exact Closes.mark (by simp) (by simp)

/-- The loop over the elements of a list from any of its turns on. -/
theorem Leads.elements {rest : List Expr} {ms : List Terminal} (h : Elements rest ms)
    (hdeep : Deep depth nested) {p : Parser (List Expr)} {found : List Expr}
    (hlead : Leads (nextElement nested) p ts (ms ++ .mark .rBracket :: us)
      fun elements => Expr.shapes elements = found)
    (hlength : (ms ++ .mark .rBracket :: us).length ≤ depth) :
    Accepts p (ts ++ ms) (.mark .rBracket :: us)
      fun elements => Expr.shapes elements = found ++ rest := by
  induction h generalizing ts found p with
  | none =>
      refine Leads.stop hlead fun elements helements => ?_
      unfold Parser.nextElement
      refine Accepts.noPunctuation (by simp [Terminal.mark, Terminal.of]) ?_
      exact Accepts.pure ⟨elements, rfl, by rw [helements, List.append_nil]⟩
  | comma =>
      refine Leads.stop hlead fun elements helements => ?_
      unfold Parser.nextElement
      refine Accepts.punctuation (Accepts.atPunctuation ?_)
      exact Accepts.pure ⟨elements, rfl, by rw [helements, List.append_nil]⟩
  | @next expr rest es ms haccepted hderives hrest ih =>
      rw [List.cons_append, List.length_cons, List.append_assoc] at hlength
      rw [List.cons_append, List.append_assoc] at hlead
      have hturn : Leads (nextElement nested) p (ts ++ .mark .comma :: es)
          (ms ++ .mark .rBracket :: us) fun elements => Expr.shapes elements = found ++ [expr] := by
        refine Leads.turn hlead (by simp) fun elements helements => ?_
        unfold Parser.nextElement
        refine Accepts.punctuation (Accepts.atPunctuation ?_)
        rw [if_neg (by simpa using front_ne_rBracket hderives)]
        have hinner := haccepted.nested_expression (ms ++ .mark .rBracket :: us) hdeep
          (by simp only [List.length_append] at hlength ⊢; omega) hrest.closes
        refine Accepts.bind_nil hinner fun element helement => Accepts.pure ⟨_, rfl, ?_⟩
        simp [Expr.shapes_eq_map, ← helements, helement]
      have hall := ih hturn (by simp only [List.length_append] at hlength ⊢; omega)
      simpa using hall

theorem PhraseAccepted.listed {elements : List Expr} (h : PhraseAccepted (.elements elements) ts) :
    PhraseAccepted (.array (.array .blank elements))
      (.mark .lBracket :: (ts ++ [.mark .rBracket])) := by
  obtain ⟨first, rest, fs, ms, rfl, rfl, hfirst, hderives, hrest⟩ := h
  intro depth nested us hdeep hlength
  simp only [List.length_append, List.length_cons, List.length_nil] at hlength
  unfold Parser.arrayExpr
  refine Accepts.advance (by simp [Terminal.mark, Terminal.of]) fun _ _ => ?_
  dsimp only
  rw [List.append_assoc]
  refine Accepts.noPunctuation ?_ ?_
  · rw [List.append_assoc]
    exact front_ne_rBracket hderives
  · have hinner := hfirst.nested_expression (ms ++ .mark .rBracket :: us) hdeep
      (by simp; omega) hrest.closes
    refine Accepts.bind (by simpa using hinner) fun first' hfirst' => ?_
    refine Accepts.noPunctuation ?_ ?_
    · cases hrest <;> simp [Terminal.mark, Terminal.of]
    · have hloop : Leads (nextElement nested) (iterate (nextElement nested) [first']) []
          (ms ++ .mark .rBracket :: us) fun elements => Expr.shapes elements = [first] :=
        Leads.iterate (by rw [Expr.shapes, hfirst', Expr.shapes])
      have helements := Leads.elements hrest hdeep hloop (by simp; omega)
      refine Accepts.bind (by simpa using helements) fun elements' helements' => ?_
      refine Accepts.bind_nil Accepts.expectPunctuation fun _ _ => Accepts.rangeSince fun range => ?_
      refine Accepts.of_bind_pure (Accepts.newExpr fun origin => Accepts.pure ?_)
      rw [Expr.shape, helements']

/-! ### Types -/

theorem PhraseAccepted.nullable (h : PhraseAccepted (.plainType type) ts) :
    PhraseAccepted (.type (.nullable .blank type)) (ts ++ [.mark .question]) := by
  intro depth nested us hdeep hlength hends
  unfold Parser.typeIn
  refine Accepts.peek fun token _ => ?_
  have hplain := h ([.mark .question] ++ us) hdeep (by simpa using hlength)
    fun _ => by simp [Terminal.mark, Terminal.of]
  refine Accepts.bind hplain ?_
  rintro _ ⟨build, rfl, hbuild⟩
  refine Accepts.rangeSince fun range => Accepts.newType fun origin => Accepts.punctuation ?_
  refine Accepts.rangeSince fun range' => Accepts.of_bind_pure ?_
  exact Accepts.newType fun origin' => Accepts.pure (by rw [TypeExpr.shape, hbuild])

theorem PhraseAccepted.plain (h : PhraseAccepted (.plainType type) ts) :
    PhraseAccepted (.type type) ts := by
  intro depth nested us hdeep hlength hends
  unfold Parser.typeIn
  refine Accepts.peek fun token _ => Accepts.bind_nil (h us hdeep hlength hends.less) ?_
  rintro _ ⟨build, rfl, hbuild⟩
  refine Accepts.rangeSince fun range => Accepts.newType fun origin => ?_
  exact Accepts.noPunctuation hends.question (Accepts.pure (hbuild _))

theorem PhraseAccepted.infer : PhraseAccepted (.plainType (.infer .blank)) [.of .infer] := by
  intro depth nested us _ _ _
  unfold Parser.plainType
  refine Accepts.peek fun token htoken => ?_
  rw [show token.kind = .infer from Token.kind_of_terminal htoken]
  exact Accepts.advance (by simp [Terminal.of]) fun _ _ => Accepts.pure ⟨_, rfl, fun _ => rfl⟩

theorem PhraseAccepted.named (text : String) :
    PhraseAccepted (.plainType (.named .blank ⟨text, .none⟩)) [.name text] := by
  intro depth nested us _ _ _
  unfold Parser.plainType
  refine Accepts.peek fun token htoken => ?_
  rw [show token.kind = .identifier from Token.kind_of_terminal htoken]
  refine Accepts.advance (by simp [Terminal.name]) fun _ _ => Accepts.nameOf (Accepts.pure ?_)
  refine ⟨_, rfl, fun origin => ?_⟩
  rw [TypeExpr.shape, Name.shape, Token.text_of_terminal htoken]

theorem PhraseAccepted.string :
    PhraseAccepted (.plainType (.string .blank none)) [.word .stringWord] := by
  intro depth nested us _ _ hless
  unfold Parser.plainType
  refine Accepts.peek fun token htoken => ?_
  rw [show token.kind = .keyword .stringWord from Token.kind_of_terminal htoken]
  have hstring : Accepts stringType [] us fun build =>
      ∀ origin, (build origin).shape = .string .blank none := by
    unfold Parser.stringType
    exact Accepts.noOperator (hless rfl) (Accepts.pure fun _ => rfl)
  refine Accepts.advance (by simp [Terminal.word, Terminal.of]) fun _ _ => ?_
  exact Accepts.map hstring fun build hbuild => ⟨build, rfl, hbuild⟩

theorem PhraseAccepted.boundedString (bound : Nat) :
    PhraseAccepted (.plainType (.string .blank (some bound)))
      [.word .stringWord, .op .lt, .of (.int bound), .op .gt] := by
  intro depth nested us _ _ _
  unfold Parser.plainType
  refine Accepts.peek fun token htoken => ?_
  rw [show token.kind = .keyword .stringWord from Token.kind_of_terminal htoken]
  have hbound : Accepts stringBound [.of (.int bound), .op .gt] us (· = some bound) := by
    unfold Parser.stringBound
    refine Accepts.peek fun token htoken => ?_
    rw [show token.kind = .int bound from Token.kind_of_terminal htoken]
    refine Accepts.advance (by simp [Terminal.of]) fun _ _ => Accepts.pure_bind ?_
    exact Accepts.bind_nil Accepts.expectOperator fun _ _ => Accepts.pure rfl
  have hstring : Accepts stringType [.op .lt, .of (.int bound), .op .gt] us fun build =>
      ∀ origin, (build origin).shape = .string .blank (some bound) := by
    unfold Parser.stringType
    refine Accepts.operator (Accepts.bind_nil hbound ?_)
    rintro _ rfl
    exact Accepts.pure fun _ => rfl
  refine Accepts.advance (by simp [Terminal.word, Terminal.of]) fun _ _ => ?_
  exact Accepts.map hstring fun build hbuild => ⟨build, rfl, hbuild⟩

theorem PhraseAccepted.vecType (h : PhraseAccepted (.type type) ts) :
    PhraseAccepted (.plainType (.vec .blank type)) (.word .vecWord :: .op .lt :: (ts ++ [.op .gt])) := by
  intro depth nested us hdeep hlength _
  simp only [List.length_append, List.length_cons, List.length_nil] at hlength
  unfold Parser.plainType
  refine Accepts.peek fun token htoken => ?_
  rw [show token.kind = .keyword .vecWord from Token.kind_of_terminal htoken]
  have hvec : Accepts (Parser.vecType nested) ([.op .lt] ++ (ts ++ [.op .gt])) us fun build =>
      ∀ origin, (build origin).shape = .vec .blank type := by
    unfold Parser.vecType
    refine Accepts.bind Accepts.expectOperator ?_
    rintro _ rfl
    have hinner := h.nested_type ([.op .gt] ++ us) hdeep (by simp; omega)
      ⟨by simp [Terminal.op, Terminal.of], fun _ => by simp [Terminal.op, Terminal.of]⟩
    refine Accepts.bind hinner fun element helement => ?_
    refine Accepts.bind_nil Accepts.expectOperator fun _ _ => Accepts.pure fun origin => ?_
    rw [TypeExpr.shape, helement]
  refine Accepts.advance (by simp [Terminal.word, Terminal.of]) fun _ _ => ?_
  exact Accepts.map hvec fun build hbuild => ⟨build, rfl, hbuild⟩

/-- Both kinds of array types. -/
theorem Accepts.arrayType {length : Expr} {ls bounds : List Terminal} (bounded : Bool)
    (hbounds : bounds = if bounded then [.op .ltEq] else [])
    (hderives : Derives (.expr length) ls) (htype : PhraseAccepted (.type type) ts)
    (hlengthExpr : ChainAccepted Operator.layers length ls) (hdeep : Deep depth nested)
    (hlength : (ts ++ Terminal.mark .semi :: (bounds ++ (ls ++ [.mark .rBracket])) ++ us).length <
      depth) :
    Accepts (arrayType nested) (ts ++ .mark .semi :: (bounds ++ (ls ++ [.mark .rBracket]))) us
      fun build => ∀ origin, (build origin).shape =
        if bounded then .boundedArray .blank type length else .staticArray .blank type length := by
  simp only [List.length_append, List.length_cons, List.length_nil] at hlength
  unfold Parser.arrayType
  dsimp only
  have helement := htype.nested_type (.mark .semi :: (bounds ++ (ls ++ [.mark .rBracket])) ++ us)
    hdeep (by simp; omega) ((Closes.mark (by simp) (by simp)).endsType ts)
  refine Accepts.bind helement fun element helement' => ?_
  change Accepts _ ([.mark .semi] ++ (bounds ++ (ls ++ [.mark .rBracket]))) us _
  refine Accepts.bind Accepts.expectPunctuation ?_
  rintro _ rfl
  have hinner := hlengthExpr.nested_expression ([.mark .rBracket] ++ us) hdeep
    (by simp; omega) (Closes.mark (by simp) (by simp))
  cases bounded with
  | true =>
      rw [if_pos rfl] at hbounds
      subst hbounds
      change Accepts _ (.op .ltEq :: (ls ++ [.mark .rBracket])) us _
      refine Accepts.operator (Accepts.bind hinner fun length' hlength' => ?_)
      refine Accepts.bind_nil Accepts.expectPunctuation fun _ _ => Accepts.pure fun origin => ?_
      rw [if_pos rfl, TypeExpr.shape, helement', hlength']
  | false =>
      rw [if_neg (by simp)] at hbounds
      subst hbounds
      change Accepts _ (ls ++ [.mark .rBracket]) us _
      obtain ⟨t, rest, rfl, hstarts⟩ := hderives.starts
      refine Accepts.noOperator ?_ (Accepts.bind hinner fun length' hlength' => ?_)
      · intro hkind
        have ht : t.kind = .operator .ltEq := hkind
        rw [Phrase.StartsWith, ht] at hstarts
        cases hstarts
      · refine Accepts.bind_nil Accepts.expectPunctuation fun _ _ => Accepts.pure fun origin => ?_
        rw [TypeExpr.shape, helement', hlength']
        rfl

/-- The bracket in front of an array type. -/
theorem PhraseAccepted.arrayType {shape : TypeExpr} {ms : List Terminal}
    (h : ∀ {depth nested} us, Deep depth nested → (ms ++ us).length < depth →
      Accepts (Parser.arrayType nested) ms us fun build => ∀ origin, (build origin).shape = shape) :
    PhraseAccepted (.plainType shape) (.mark .lBracket :: ms) := by
  intro depth nested us hdeep hlength _
  unfold Parser.plainType
  refine Accepts.peek fun token htoken => ?_
  rw [show token.kind = .punctuation .lBracket from Token.kind_of_terminal htoken]
  refine Accepts.advance (by simp [Terminal.mark, Terminal.of]) fun _ _ => ?_
  exact Accepts.map (h us hdeep hlength) fun build hbuild => ⟨build, rfl, hbuild⟩

/-! ### Every phrase -/

theorem Derives.accepted {phrase : Phrase} {ts : List Terminal} (h : Derives phrase ts) :
    PhraseAccepted phrase ts := by
  induction h with
  | operand _ ih => exact ih
  | tighter _ ih => exact ChainAccepted.tighter ih
  | grouped op hlayer hleftward _ _ ihl ihr => exact ChainAccepted.grouped op hlayer hleftward ihl ihr
  | single op hlayer hnone hless _ _ ihl ihr =>
      exact ChainAccepted.single op hlayer hnone hless ihl ihr
  | prefixed op _ ih => exact ChainAccepted.prefixed op ih
  | unprefixed h ih => exact ChainAccepted.unprefixed h ih
  | index _ _ ihb ihp => exact PhraseAccepted.index ihb ihp
  | cast _ _ iho iht => exact PhraseAccepted.cast iho iht
  | unsuffixed _ ih => exact PhraseAccepted.unsuffixed ih
  | int value =>
      intro depth nested us _ _
      unfold Parser.primary
      refine Accepts.peek fun token htoken => ?_
      rw [show token.kind = .int value from Token.kind_of_terminal htoken]
      exact Accepts.literal (by simp) (by simp)
  | float value =>
      intro depth nested us _ _
      unfold Parser.primary
      refine Accepts.peek fun token htoken => ?_
      rw [show token.kind = .float value from Token.kind_of_terminal htoken]
      exact Accepts.literal (by simp) (by simp)
  | text value =>
      intro depth nested us _ _
      unfold Parser.primary
      refine Accepts.peek fun token htoken => ?_
      rw [show token.kind = .string value from Token.kind_of_terminal htoken]
      exact Accepts.intern (Accepts.literal (by simp) (by simp))
  | trueWord =>
      intro depth nested us _ _
      unfold Parser.primary
      refine Accepts.peek fun token htoken => ?_
      rw [show token.kind = .keyword .trueWord from Token.kind_of_terminal htoken]
      exact Accepts.literal (by simp) (by simp)
  | falseWord =>
      intro depth nested us _ _
      unfold Parser.primary
      refine Accepts.peek fun token htoken => ?_
      rw [show token.kind = .keyword .falseWord from Token.kind_of_terminal htoken]
      exact Accepts.literal (by simp) (by simp)
  | nullWord =>
      intro depth nested us _ _
      unfold Parser.primary
      refine Accepts.peek fun token htoken => ?_
      rw [show token.kind = .keyword .nullWord from Token.kind_of_terminal htoken]
      exact Accepts.literal (by simp) (by simp)
  | ref name => exact PhraseAccepted.ref name
  | parens _ ih => exact PhraseAccepted.parens ih
  | array h ih => exact PhraseAccepted.array_primary h ih
  | vec h ih => exact PhraseAccepted.vec h ih
  | empty => exact PhraseAccepted.empty
  | listed _ ih => exact PhraseAccepted.listed ih
  | repeated hv _ ihv ihc => exact PhraseAccepted.repeated hv ihv ihc
  | last h ih => exact ⟨_, [], _, [], rfl, by simp, ih, h, .none⟩
  | lastComma h ih => exact ⟨_, [], _, [.mark .comma], rfl, rfl, ih, h, .comma⟩
  | more h _ ih ihrest =>
      obtain ⟨first, rest, fs, ms, rfl, rfl, hfirst, hderives, hrest⟩ := ihrest
      exact ⟨_, _, _, _, rfl, rfl, ih, h, .next hfirst hderives hrest⟩
  | nullable _ ih => exact PhraseAccepted.nullable ih
  | plain _ ih => exact PhraseAccepted.plain ih
  | infer => exact PhraseAccepted.infer
  | named name => exact PhraseAccepted.named name
  | string => exact PhraseAccepted.string
  | boundedString bound => exact PhraseAccepted.boundedString bound
  | vecType _ ih => exact PhraseAccepted.vecType ih
  | staticArray _ hl iht ihl =>
      refine PhraseAccepted.arrayType fun us hdeep hlength => ?_
      exact Accepts.arrayType false rfl hl iht ihl hdeep hlength
  | boundedArray _ hb iht ihb =>
      refine PhraseAccepted.arrayType fun us hdeep hlength => ?_
      exact Accepts.arrayType true rfl hb iht ihb hdeep hlength

theorem Accepts.expression (h : Derives (.expr expr) ts) (hcloses : Closes us) :
    Accepts expression ts us (·.shape = expr) := by
  intro s hlevel hcoming
  have hlength : (ts ++ us).length < s.rest.length + 1 := by
    rw [← hcoming, List.length_map]
    omega
  have haccepted : ChainAccepted Operator.layers expr ts := Derives.accepted h
  have haccepts := haccepted.nested_expression us (Deep.along s.rest) hlength hcloses
  exact haccepts s hlevel hcoming

theorem Accepts.typeExpr (h : Derives (.type type) ts) (hends : EndsType ts us) :
    Accepts typeExpr ts us (·.shape = type) := by
  intro s hlevel hcoming
  have hlength : (ts ++ us).length < s.rest.length + 1 := by
    rw [← hcoming, List.length_map]
    omega
  have haccepted : PhraseAccepted (.type type) ts := Derives.accepted h
  have haccepts := haccepted.nested_type us (Deep.along s.rest) hlength hends
  exact haccepts s hlevel hcoming

end Parser

end BehaviorTree
