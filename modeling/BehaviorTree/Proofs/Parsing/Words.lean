import BehaviorTree.Parsing.Expression
import BehaviorTree.Proofs.Syntax.Grammar

/-!
# Words of the grammar

Tokens and their terminals, and the operators, directions and names that a token can stand for.
-/

namespace BehaviorTree

/-! ### Tokens and terminals -/

theorem Token.terminal_eq_of {token : Token} {kind : TokenKind} (hkind : token.kind = kind)
    (hname : kind ≠ .identifier) : token.terminal = .of kind := by
  simp [Token.terminal, Terminal.of, hkind, hname]

theorem Token.terminal_eq_name {token : Token} (hkind : token.kind = .identifier) :
    token.terminal = .name token.text := by
  simp [Token.terminal, Terminal.name, hkind]

theorem Token.kind_of_terminal {token : Token} {t : Terminal} (h : token.terminal = t) :
    token.kind = t.kind := h ▸ rfl

theorem Token.text_of_terminal {token : Token} {text : String}
    (h : token.terminal = .name text) : token.text = text := by
  have hkind : token.kind = .identifier := Token.kind_of_terminal h
  have htext := congrArg Terminal.text h
  simpa [Token.terminal, Terminal.name, hkind] using htext

/-! ### Vocabulary -/

theorem BinaryOp.precedence_pos (op : BinaryOp) : 0 < op.operator.precedence := by
  cases op <;> decide

theorem BinaryOp.associativity_ne_right (op : BinaryOp) :
    op.operator.associativity ≠ .right := by
  cases op <;> decide

theorem UnaryOp.operator_of_ofOperator? {operator : Operator} {op : UnaryOp}
    (h : UnaryOp.ofOperator? operator = some op) : op.operator = operator := by
  cases operator <;> simp [UnaryOp.ofOperator?] at h <;> subst h <;> rfl

theorem BinaryOp.operator_of_ofOperator? {operator : Operator} {op : BinaryOp}
    (h : BinaryOp.ofOperator? operator = some op) : op.operator = operator := by
  cases operator <;> simp [BinaryOp.ofOperator?] at h <;> subst h <;> rfl

theorem AssignOp.operator_of_ofOperator? {operator : Operator} {op : AssignOp}
    (h : AssignOp.ofOperator? operator = some op) : op.operator = operator := by
  cases operator <;> simp [AssignOp.ofOperator?] at h <;> subst h <;> rfl

theorem Direction.keyword_of_ofKeyword? {word : Keyword} {direction : Direction}
    (h : Direction.ofKeyword? word = some direction) : direction.keyword = word := by
  cases word <;> simp [Direction.ofKeyword?] at h <;> subst h <;> rfl

theorem NodeCategory.keyword_of_ofKeyword? {word : Keyword} {category : NodeCategory}
    (h : NodeCategory.ofKeyword? word = some category) : category.keyword = word := by
  cases word <;> simp [NodeCategory.ofKeyword?] at h <;> subst h <;> rfl

theorem PreconditionKind.spelling_of_ofSpelling? {text : String} {kind : PreconditionKind}
    (h : PreconditionKind.ofSpelling? text = some kind) : text = kind.spelling := by
  have hspelling : kind.spelling = text := by simpa using List.find?_some h
  exact hspelling.symm

theorem DataPolicy.spelling_of_ofSpelling? {text : String} {policy : DataPolicy}
    (h : DataPolicy.ofSpelling? text = some policy) : policy.spelling = text := by
  simpa using List.find?_some h

theorem FlowPolicy.spelling_of_ofSpelling? {text : String} {policy : FlowPolicy}
    (h : FlowPolicy.ofSpelling? text = some policy) : policy.spelling = text := by
  simpa using List.find?_some h

/-! ### What a token stands for -/

theorem Token.kind_of_operator? {token : Token} {operator : Operator}
    (h : token.operator? = some operator) : token.kind = .operator operator := by
  unfold Token.operator? TokenKind.operator? at h
  split at h
  · rename_i hkind
    rw [hkind, Option.some.inj h]
  · cases h

theorem Token.kind_of_unaryOp? {token : Token} {op : UnaryOp}
    (h : token.operator?.bind UnaryOp.ofOperator? = some op) :
    token.kind = .operator op.operator := by
  obtain ⟨operator, hoperator, hunary⟩ := Option.bind_eq_some_iff.mp h
  rw [UnaryOp.operator_of_ofOperator? hunary]
  exact Token.kind_of_operator? hoperator

theorem Token.kind_of_binaryOpOn? {token : Token} {layer : Nat} {op : BinaryOp}
    (h : token.binaryOpOn? layer = some op) :
    token.kind = .operator op.operator ∧ op.operator.precedence = layer := by
  obtain ⟨hsome, hlayer⟩ := Option.filter_eq_some_iff.mp h
  obtain ⟨operator, hoperator, hbinary⟩ := Option.bind_eq_some_iff.mp hsome
  refine ⟨?_, by simpa using hlayer⟩
  rw [BinaryOp.operator_of_ofOperator? hbinary]
  exact Token.kind_of_operator? hoperator

theorem Token.binaryOpOn?_eq_some {token : Token} {op : BinaryOp}
    (hkind : token.kind = .operator op.operator) :
    token.binaryOpOn? op.operator.precedence = some op := by
  simp [Token.binaryOpOn?, Token.operator?, hkind, TokenKind.operator?,
    BinaryOp.ofOperator?_operator, Option.filter]

theorem Token.binaryOpOn?_eq_none {token : Token} {layer : Nat}
    (h : ∀ op : BinaryOp, op.operator.precedence = layer → token.kind ≠ .operator op.operator) :
    token.binaryOpOn? layer = none := by
  cases hop : token.binaryOpOn? layer with
  | none => rfl
  | some op =>
      obtain ⟨hkind, hlayer⟩ := Token.kind_of_binaryOpOn? hop
      exact absurd hkind (h op hlayer)

theorem Token.kind_of_keyword? {token : Token} {word : Keyword}
    (h : token.keyword? = some word) : token.kind = .keyword word := by
  unfold Token.keyword? TokenKind.keyword? at h
  split at h
  · rename_i hkind
    rw [hkind, Option.some.inj h]
  · cases h

theorem Token.kind_of_isOpenerWord {token : Token} (h : token.isOpenerWord = true) :
    ∃ word : Keyword, token.kind = .keyword word ∧ word.isOpener = true := by
  unfold Token.isOpenerWord at h
  cases hword : token.keyword? with
  | none => simp [hword] at h
  | some word => exact ⟨word, Token.kind_of_keyword? hword, by simpa [hword] using h⟩

end BehaviorTree
