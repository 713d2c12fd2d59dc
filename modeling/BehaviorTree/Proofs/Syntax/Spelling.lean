import BehaviorTree.Proofs.Parsing.Words
import BehaviorTree.Proofs.Syntax.Plain

/-!
# Spelling

Every well-formed program is spelled in one way here: an expression inside another one stands in
parentheses, unless it is a single terminal, and all policies are written out. Spelled programs are
sentences of the grammar, so that a program can be got back from its spelling.
-/

namespace BehaviorTree

/-- Lists of terminals with commas between them. -/
def commaSeparated : List (List Terminal) → List Terminal
  | [] => []
  | [ts] => ts
  | ts :: us :: rest => ts ++ .mark .comma :: commaSeparated (us :: rest)

def optionally {α : Type} (front : Terminal) (spelling : α → List Terminal) :
    Option α → List Terminal
  | none => []
  | some item => front :: spelling item

/-! ### Expressions and types -/

namespace Expr

/-- An expression of more than one terminal. -/
def isCompound : Expr → Bool
  | .int _ _ | .float _ _ | .string _ _ | .bool _ _ | .null _ | .ref _ _ | .missing _ => false
  | .binary .. | .unary .. | .index .. | .cast .. | .array .. | .repeated .. | .vec .. => true

def isArray : Expr → Bool
  | .array .. | .repeated .. => true
  | _ => false

/-- The spelling of an expression inside another one, given its own. -/
def enclose (expr : Expr) (ts : List Terminal) : List Terminal :=
  if expr.isCompound then .mark .lParen :: (ts ++ [.mark .rParen]) else ts

end Expr

def TypeExpr.isNullable : TypeExpr → Bool
  | .nullable .. => true
  | _ => false

mutual

def Expr.spelled : Expr → List Terminal
  | .int _ value => [.of (.int value)]
  | .float _ value => [.of (.float value)]
  | .string _ value => [.of (.string value)]
  | .bool _ value => [.word (if value then .trueWord else .falseWord)]
  | .null _ => [.word .nullWord]
  | .ref _ name => [.name name.text]
  | .binary _ op left right =>
    left.enclose left.spelled ++ .op op.operator :: right.enclose right.spelled
  | .unary _ op operand => .op op.operator :: operand.enclose operand.spelled
  | .index _ base position =>
    base.enclose base.spelled ++
      .mark .lBracket :: (position.enclose position.spelled ++ [.mark .rBracket])
  | .cast _ operand type => operand.enclose operand.spelled ++ .word .asWord :: type.spelled
  | .array _ elements =>
    .mark .lBracket :: (commaSeparated (Expr.eachSpelled elements) ++ [.mark .rBracket])
  | .repeated _ value count =>
    .mark .lBracket :: (value.enclose value.spelled ++
      .mark .semi :: (count.enclose count.spelled ++ [.mark .rBracket]))
  | .vec _ inner => .word .vecWord :: .op .bang :: inner.spelled
  | .missing _ => []

def Expr.eachSpelled : List Expr → List (List Terminal)
  | [] => []
  | expr :: rest => expr.enclose expr.spelled :: Expr.eachSpelled rest

def TypeExpr.spelled : TypeExpr → List Terminal
  | .named _ name => [.name name.text]
  | .infer _ => [.of .infer]
  | .string _ none => [.word .stringWord]
  | .string _ (some bound) => [.word .stringWord, .op .lt, .of (.int bound), .op .gt]
  | .staticArray _ element length =>
    .mark .lBracket :: (element.spelled ++ .mark .semi :: (length.spelled ++ [.mark .rBracket]))
  | .boundedArray _ element bound =>
    .mark .lBracket ::
      (element.spelled ++ .mark .semi :: .op .ltEq :: (bound.spelled ++ [.mark .rBracket]))
  | .vec _ element => .word .vecWord :: .op .lt :: (element.spelled ++ [.op .gt])
  | .nullable _ inner => inner.spelled ++ [.mark .question]
  | .missing _ => []

end

mutual

/-- Nothing is missing, and what has to be an array is one. -/
def Expr.wellFormed : Expr → Bool
  | .int _ _ | .float _ _ | .string _ _ | .bool _ _ | .null _ | .ref _ _ => true
  | .binary _ _ left right => left.wellFormed && right.wellFormed
  | .unary _ _ operand => operand.wellFormed
  | .index _ base position => base.wellFormed && position.wellFormed
  | .cast _ operand type => operand.wellFormed && type.wellFormed
  | .array _ elements => Expr.allWellFormed elements
  | .repeated _ value count => value.wellFormed && count.wellFormed
  | .vec _ inner => inner.isArray && inner.wellFormed
  | .missing _ => false

def Expr.allWellFormed : List Expr → Bool
  | [] => true
  | expr :: rest => expr.wellFormed && Expr.allWellFormed rest

/-- Nothing is missing, and no type is nullable twice over. -/
def TypeExpr.wellFormed : TypeExpr → Bool
  | .named _ _ | .infer _ | .string _ _ => true
  | .staticArray _ element length => element.wellFormed && length.wellFormed
  | .boundedArray _ element bound => element.wellFormed && bound.wellFormed
  | .vec _ element => element.wellFormed
  | .nullable _ inner => !inner.isNullable && inner.wellFormed
  | .missing _ => false

end

/-! ### Expressions and types are derived as they are spelled -/

namespace Derives

variable {expr left right : Expr} {ts ls rs : List Terminal}

theorem layers (h : Derives (.unary expr) ts) : ∀ layers, Derives (.layered layers expr) ts := by
  intro layers
  induction layers with
  | nil => exact .operand h
  | cons layer layers ih => exact .tighter ih

theorem of_primary (h : Derives (.primary expr) ts) (layers : List Nat) :
    Derives (.layered layers expr) ts :=
  Derives.layers (.unprefixed (.unsuffixed h)) layers

/-- An operator between operands, on its layer. -/
theorem binary_of_primary (op : BinaryOp) (hleft : Derives (.primary left) ls)
    (hright : Derives (.primary right) rs) : ∀ layers, op.operator.precedence ∈ layers →
      Derives (.layered layers (.binary .blank op left right)) (ls ++ .op op.operator :: rs) := by
  intro layers hmem
  induction layers with
  | nil => cases hmem
  | cons layer layers ih =>
      by_cases hlayer : op.operator.precedence = layer
      · cases hassociativity : op.operator.associativity with
        | left =>
            exact .grouped op hlayer hassociativity (hleft.of_primary _) (hright.of_primary _)
        | none =>
            exact .single op hlayer hassociativity (fun _ => hleft.not_endsInString_primary)
              (hleft.of_primary _) (hright.of_primary _)
        | right => exact absurd hassociativity op.associativity_ne_right
      · have hrest : op.operator.precedence ∈ layers := by
          rcases List.mem_cons.mp hmem with h | h
          · exact absurd h hlayer
          · exact h
        exact .tighter (ih hrest)

end Derives

/-- The spelling of an expression is derived for it, also where the grammar asks for less than any
expression. -/
structure Expr.Written (expr : Expr) : Prop where
  whole : Derives (.expr expr.shape) expr.spelled
  single : expr.isCompound = false → Derives (.primary expr.shape) expr.spelled
  array : expr.isArray = true → Derives (.array expr.shape) expr.spelled

namespace Expr.Written

variable {expr : Expr}

theorem enclosed (h : expr.Written) : Derives (.primary expr.shape) (expr.enclose expr.spelled) := by
  unfold Expr.enclose
  cases hcompound : expr.isCompound with
  | true => exact .parens h.whole
  | false => exact h.single hcompound

theorem of_single (h : Derives (.primary expr.shape) expr.spelled) (harray : expr.isArray = false) :
    expr.Written :=
  ⟨h.of_primary _, fun _ => h, fun hyes => absurd hyes (by simp [harray])⟩

theorem of_compound (hcompound : expr.isCompound = true) (harray : expr.isArray = false)
    (h : Derives (.expr expr.shape) expr.spelled) : expr.Written :=
  ⟨h, fun hno => absurd hcompound (by simp [hno]), fun hyes => absurd hyes (by simp [harray])⟩

theorem of_array (hcompound : expr.isCompound = true)
    (h : Derives (.array expr.shape) expr.spelled) : expr.Written :=
  ⟨(Derives.array h).of_primary _, fun hno => absurd hcompound (by simp [hno]), fun _ => h⟩

end Expr.Written

theorem Expr.elements_of_written {first : Expr} {rest : List Expr}
    (h : ∀ expr ∈ first :: rest, expr.Written) :
    Derives (.elements (Expr.shapes (first :: rest)))
      (commaSeparated (Expr.eachSpelled (first :: rest))) := by
  induction rest generalizing first with
  | nil => exact .last ((h first List.mem_cons_self).enclosed.of_primary _)
  | cons second rest ih =>
      have hfirst := (h first List.mem_cons_self).enclosed
      exact .more (hfirst.of_primary _) (ih fun expr hexpr => h expr (List.mem_cons_of_mem _ hexpr))

mutual

theorem Expr.written : ∀ expr : Expr, expr.wellFormed = true → expr.Written
  | .int _ value, _ => .of_single (.int value) rfl
  | .float _ value, _ => .of_single (.float value) rfl
  | .string _ value, _ => .of_single (.text value) rfl
  | .bool _ true, _ => .of_single .trueWord rfl
  | .bool _ false, _ => .of_single .falseWord rfl
  | .null _, _ => .of_single .nullWord rfl
  | .ref _ name, _ => .of_single (.ref name.text) rfl
  | .binary _ op left right, h => by
      obtain ⟨hleft, hright⟩ := Bool.and_eq_true_iff.mp h
      have hl := (Expr.written left hleft).enclosed
      have hr := (Expr.written right hright).enclosed
      refine .of_compound rfl rfl ?_
      rw [Expr.shape, Expr.spelled]
      exact Derives.binary_of_primary op hl hr _
        (Operator.precedence_mem_layers (by cases op <;> rfl))
  | .unary _ op operand, h => by
      have ho := (Expr.written operand h).enclosed
      refine .of_compound rfl rfl ?_
      rw [Expr.shape, Expr.spelled]
      exact (Derives.prefixed op (.unprefixed (.unsuffixed ho))).layers _
  | .index _ base position, h => by
      obtain ⟨hbase, hposition⟩ := Bool.and_eq_true_iff.mp h
      have hb := (Expr.written base hbase).enclosed
      have hp := (Expr.written position hposition).enclosed
      refine .of_compound rfl rfl ?_
      rw [Expr.shape, Expr.spelled]
      exact (Derives.unprefixed (.index (.unsuffixed hb) (hp.of_primary _))).layers _
  | .cast _ operand type, h => by
      obtain ⟨hoperand, htype⟩ := Bool.and_eq_true_iff.mp h
      have ho := (Expr.written operand hoperand).enclosed
      have ht := (TypeExpr.written type htype).1
      refine .of_compound rfl rfl ?_
      rw [Expr.shape, Expr.spelled]
      exact (Derives.unprefixed (.cast (.unsuffixed ho) ht)).layers _
  | .array _ [], _ => .of_array rfl .empty
  | .array _ (first :: rest), h =>
      .of_array rfl (.listed (Expr.elements_of_written (Expr.written_of_mem (first :: rest) h)))
  | .repeated _ value count, h => by
      obtain ⟨hvalue, hcount⟩ := Bool.and_eq_true_iff.mp h
      have hv := (Expr.written value hvalue).enclosed
      have hc := (Expr.written count hcount).enclosed
      exact .of_array rfl (.repeated (hv.of_primary _) (hc.of_primary _))
  | .vec _ inner, h => by
      obtain ⟨harray, hinner⟩ := Bool.and_eq_true_iff.mp h
      have hi := (Expr.written inner hinner).array harray
      exact .of_compound rfl rfl ((Derives.vec hi).of_primary _)

theorem Expr.written_of_mem : ∀ exprs : List Expr, Expr.allWellFormed exprs = true →
    ∀ expr ∈ exprs, expr.Written
  | [], _ => nofun
  | first :: rest, h => by
      obtain ⟨hfirst, hrest⟩ := Bool.and_eq_true_iff.mp h
      exact List.forall_mem_cons.mpr ⟨Expr.written first hfirst, Expr.written_of_mem rest hrest⟩

theorem TypeExpr.written : ∀ type : TypeExpr, type.wellFormed = true →
    Derives (.type type.shape) type.spelled ∧
      (type.isNullable = false → Derives (.plainType type.shape) type.spelled)
  | .named _ name, _ => ⟨.plain (.named name.text), fun _ => .named name.text⟩
  | .infer _, _ => ⟨.plain .infer, fun _ => .infer⟩
  | .string _ none, _ => ⟨.plain .string, fun _ => .string⟩
  | .string _ (some bound), _ => ⟨.plain (.boundedString bound), fun _ => .boundedString bound⟩
  | .staticArray _ element length, h => by
      obtain ⟨helement, hlength⟩ := Bool.and_eq_true_iff.mp h
      have harray := Derives.staticArray (TypeExpr.written element helement).1
        (Expr.written length hlength).whole
      exact ⟨.plain harray, fun _ => harray⟩
  | .boundedArray _ element bound, h => by
      obtain ⟨helement, hbound⟩ := Bool.and_eq_true_iff.mp h
      have harray := Derives.boundedArray (TypeExpr.written element helement).1
        (Expr.written bound hbound).whole
      exact ⟨.plain harray, fun _ => harray⟩
  | .vec _ element, h => by
      have hvec := Derives.vecType (TypeExpr.written element h).1
      exact ⟨.plain hvec, fun _ => hvec⟩
  | .nullable _ inner, h => by
      obtain ⟨hplain, hinner⟩ := Bool.and_eq_true_iff.mp h
      have hinner' := (TypeExpr.written inner hinner).2 (by simpa using hplain)
      exact ⟨.nullable hinner', fun hno => by cases hno⟩

end

/-! ### Statements -/

def Precondition.spelled (precondition : Precondition) : List Terminal :=
  .mark .at :: .name precondition.kind.spelling :: .mark .lParen ::
    (precondition.condition.spelled ++ [.mark .rParen])

def Argument.spelled (argument : Argument) : List Terminal :=
  argumentNameTerminals argument.name ++ directionTerminals argument.direction ++
    argument.value.spelled

def Argument.spelledList (arguments : List Argument) : List Terminal :=
  commaSeparated (arguments.map Argument.spelled) ++ [.mark .rParen]

def StmtHead.spelled (head : StmtHead) : List Terminal :=
  docTerminals head.docs ++ head.preconditions.flatMap Precondition.spelled

def Expr.spelledIndex (position : Expr) : List Terminal :=
  .mark .lBracket :: (position.spelled ++ [.mark .rBracket])

def typeSpelled : Option TypeExpr → List Terminal := optionally (.mark .colon) TypeExpr.spelled

def valueSpelled : Option Expr → List Terminal := optionally (.op .eq) Expr.spelled

mutual

def Stmt.spelled : Stmt → List Terminal
  | .varDecl head name type init =>
    head.spelled ++ .word .varWord :: .name name.text ::
      (typeSpelled type ++ valueSpelled init ++ [.mark .semi])
  | .constDecl head name type value =>
    head.spelled ++ .word .constWord :: .name name.text ::
      (typeSpelled type ++ .op .eq :: (value.spelled ++ [.mark .semi]))
  | .assignment head target indices op value =>
    head.spelled ++ .name target.text ::
      (indices.flatMap Expr.spelledIndex ++ .op op.operator :: (value.spelled ++ [.mark .semi]))
  | .leaf head callee arguments =>
    head.spelled ++ .name callee.text :: .mark .lParen ::
      (Argument.spelledList arguments ++ [.mark .semi])
  | .compound head callee arguments children =>
    head.spelled ++ .name callee.text :: (optionally (.mark .lParen) Argument.spelledList arguments ++
      .mark .lBrace :: (Stmt.allSpelled children ++ [.mark .rBrace]))

def Stmt.allSpelled : List Stmt → List Terminal
  | [] => []
  | stmt :: rest => stmt.spelled ++ Stmt.allSpelled rest

end

def StmtHead.wellFormed (head : StmtHead) : Bool :=
  head.preconditions.all fun precondition => precondition.condition.wellFormed

mutual

/-- What a statement is made of is well-formed, a word in front opens no construct of other
languages, and no index is spelled with a `;`. -/
def Stmt.wellFormed : Stmt → Bool
  | .varDecl head _ type init =>
    head.wellFormed && type.all TypeExpr.wellFormed && init.all Expr.wellFormed
  | .constDecl head _ type value =>
    head.wellFormed && type.all TypeExpr.wellFormed && value.wellFormed
  | .assignment head target indices _ value =>
    head.wellFormed && (ForeignWord.ofSpelling? target.text).isNone &&
      indices.all (fun position =>
        position.wellFormed && !position.spelled.contains (.mark .semi)) && value.wellFormed
  | .leaf head callee arguments =>
    head.wellFormed && (ForeignWord.ofSpelling? callee.text).isNone &&
      arguments.all fun argument => argument.value.wellFormed
  | .compound head callee arguments children =>
    head.wellFormed && (ForeignWord.ofSpelling? callee.text).isNone &&
      arguments.all (fun list => list.all fun argument => argument.value.wellFormed) &&
      Stmt.allWellFormed children

def Stmt.allWellFormed : List Stmt → Bool
  | [] => true
  | stmt :: rest => stmt.wellFormed && Stmt.allWellFormed rest

end

/-! ### Declarations and programs -/

def Param.spelled (param : Param) : List Terminal :=
  docTerminals param.docs ++ directionTerminals param.direction ++
    .name param.name.text :: .mark .colon :: (param.type.spelled ++ valueSpelled param.default)

def Param.spelledList (params : List Param) : List Terminal :=
  commaSeparated (params.map Param.spelled) ++ [.mark .rParen]

def Param.wellFormed (param : Param) : Bool :=
  param.type.wellFormed && param.default.all Expr.wellFormed

def Behavior.spelled (behavior : Behavior) : List Terminal :=
  [.mark .hash, .mark .lBracket, .name behaviorAttribute, .mark .lParen,
    .name behavior.data.spelling, .mark .comma, .name behavior.flow.spelling, .mark .rParen,
    .mark .rBracket]

def Decl.spelled (decl : Decl) : List Terminal :=
  docTerminals decl.head.docs ++ match decl with
    | .importFile _ path _ => [.word .importWord, .of (.string path), .mark .semi]
    | .node _ category name ports behavior =>
      behavior.toList.flatMap Behavior.spelled ++ .word .externWord :: .word category.keyword ::
        .name name.text :: .mark .lParen :: (Param.spelledList ports ++ [.mark .semi])
    | .opaqueType _ name => [.word .externWord, .word .typeWord, .name name.text, .mark .semi]
    | .typeAlias _ name type =>
      .word .typeWord :: .name name.text :: .op .eq :: (type.spelled ++ [.mark .semi])
    | .varDecl _ name type init =>
      .word .varWord :: .name name.text :: (typeSpelled type ++ valueSpelled init ++ [.mark .semi])
    | .constDecl _ name type value =>
      .word .constWord :: .name name.text ::
        (typeSpelled type ++ .op .eq :: (value.spelled ++ [.mark .semi]))
    | .tree _ name params body =>
      .word .treeWord :: .name name.text :: .mark .lParen ::
        (Param.spelledList params ++ .mark .lBrace :: (Stmt.allSpelled body ++ [.mark .rBrace]))

def Decl.wellFormed : Decl → Bool
  | .importFile .. | .opaqueType .. => true
  | .node _ _ _ ports _ => ports.all Param.wellFormed
  | .typeAlias _ _ type => type.wellFormed
  | .varDecl _ _ type init => type.all TypeExpr.wellFormed && init.all Expr.wellFormed
  | .constDecl _ _ type value => type.all TypeExpr.wellFormed && value.wellFormed
  | .tree _ _ params body => params.all Param.wellFormed && Stmt.allWellFormed body

/-- The sentence that a program is spelled with. -/
def Program.spelled (program : Program) : List Terminal :=
  program.docs.map (fun line => .of (.moduleDoc line)) ++ program.decls.flatMap Decl.spelled

/-- A program that has a spelling to be got back from. -/
def Program.wellFormed (program : Program) : Bool := program.decls.all Decl.wellFormed

/-! ### Programs are sentences as they are spelled -/

section Lists

variable {α β : Type} {form : β → List Terminal → Prop} {shape : α → β}
  {spelling : α → List Terminal} {items : List α}

theorem Sequence.of_flatMap (h : ∀ item ∈ items, form (shape item) (spelling item)) :
    Sequence form (items.map shape) (items.flatMap spelling) := by
  induction items with
  | nil => exact .nil
  | cons item rest ih =>
      obtain ⟨hitem, hrest⟩ := List.forall_mem_cons.mp h
      exact .cons hitem (ih hrest)

theorem Closed.of_commaSeparated (h : ∀ item ∈ items, form (shape item) (spelling item)) :
    Closed form (items.map shape) (commaSeparated (items.map spelling) ++ [.mark .rParen]) := by
  induction items with
  | nil => exact .nil
  | cons item rest ih =>
      obtain ⟨hitem, hrest⟩ := List.forall_mem_cons.mp h
      cases rest with
      | nil => exact .last hitem
      | cons second rest =>
          have hmore := Closed.more hitem (ih hrest)
          simpa [commaSeparated] using hmore

theorem Optional.of_optionally {front : Terminal} {item : Option α} {good : α → Bool}
    (hall : item.all good = true)
    (h : ∀ found, good found = true → form (shape found) (spelling found)) :
    Optional front form (item.map shape) (optionally front spelling item) := by
  cases item with
  | none => exact .absent
  | some found => exact .present (h found hall)

end Lists

theorem TypePart.of_wellFormed {type : Option TypeExpr} (h : type.all TypeExpr.wellFormed = true) :
    TypePart (type.map TypeExpr.shape) (typeSpelled type) :=
  Optional.of_optionally h fun found hfound => (TypeExpr.written found hfound).1

theorem ValuePart.of_wellFormed {value : Option Expr} (h : value.all Expr.wellFormed = true) :
    ValuePart (value.map Expr.shape) (valueSpelled value) :=
  Optional.of_optionally h fun found hfound => (Expr.written found hfound).whole

theorem Argument.form_spelled {argument : Argument} (h : argument.value.wellFormed = true) :
    ArgumentForm argument.shape argument.spelled := by
  obtain ⟨name, direction, value, range⟩ := argument
  have hvalue := (Expr.written value h).whole
  cases name with
  | none => exact .mk none direction hvalue
  | some name => exact .mk (some name.text) direction hvalue

theorem Argument.closed_spelledList {arguments : List Argument}
    (h : (arguments.all fun argument => argument.value.wellFormed) = true) :
    Closed ArgumentForm (arguments.map Argument.shape) (Argument.spelledList arguments) :=
  Closed.of_commaSeparated fun argument hargument =>
    Argument.form_spelled (List.all_eq_true.mp h argument hargument)

theorem StmtHead.form_spelled {head : StmtHead} (h : head.wellFormed = true) :
    HeadForm head.shape head.spelled := by
  apply HeadForm.mk
  apply Sequence.of_flatMap
  intro precondition hprecondition
  exact .mk _ (Expr.written _ (List.all_eq_true.mp h precondition hprecondition)).whole

theorem Param.form_spelled {param : Param} (h : param.wellFormed = true) :
    ParamForm param.shape param.spelled := by
  obtain ⟨htype, hdefault⟩ := Bool.and_eq_true_iff.mp h
  exact .mk _ _ _ (TypeExpr.written _ htype).1 (ValuePart.of_wellFormed hdefault)

theorem Param.closed_spelledList {params : List Param} (h : params.all Param.wellFormed = true) :
    Closed ParamForm (params.map Param.shape) (Param.spelledList params) :=
  Closed.of_commaSeparated fun param hparam =>
    Param.form_spelled (List.all_eq_true.mp h param hparam)

theorem Behavior.attributeForm {behavior : Option Behavior} :
    AttributeForm (behavior.map Behavior.shape) (behavior.toList.flatMap Behavior.spelled) := by
  cases behavior with
  | none => exact .absent
  | some behavior => exact .present (.full behavior.data behavior.flow)

mutual

theorem Stmt.form_spelled : ∀ stmt : Stmt, stmt.wellFormed = true →
    StmtForm (.stmt stmt.shape) stmt.spelled ∧ stmt.shape.Plain
  | .varDecl head name type init, h => by
      simp only [Stmt.wellFormed, Bool.and_eq_true] at h
      obtain ⟨⟨hhead, htype⟩, hinit⟩ := h
      exact ⟨.headed (StmtHead.form_spelled hhead) (.varDecl _ name.text
        (TypePart.of_wellFormed htype) (ValuePart.of_wellFormed hinit)), trivial⟩
  | .constDecl head name type value, h => by
      simp only [Stmt.wellFormed, Bool.and_eq_true] at h
      obtain ⟨⟨hhead, htype⟩, hvalue⟩ := h
      exact ⟨.headed (StmtHead.form_spelled hhead) (.constDecl _ name.text
        (TypePart.of_wellFormed htype) (Expr.written value hvalue).whole), trivial⟩
  | .assignment head target indices op value, h => by
      simp only [Stmt.wellFormed, Bool.and_eq_true] at h
      obtain ⟨⟨⟨hhead, hforeign⟩, hindices⟩, hvalue⟩ := h
      have hwritten : ∀ position ∈ indices, Derives (.expr position.shape) position.spelled ∧
          position.shape.hasSemi = false := by
        intro position hposition
        obtain ⟨hwell, hsemi⟩ := Bool.and_eq_true_iff.mp (List.all_eq_true.mp hindices position hposition)
        have hderives := (Expr.written position hwell).whole
        refine ⟨hderives, ?_⟩
        rw [← Bool.not_eq_true]
        intro hyes
        have hmem : .mark .semi ∈ position.spelled := hderives.semi_mem_iff.mpr hyes
        simp [hmem] at hsemi
      have hsequence : Sequence IndexForm (indices.map Expr.shape) (indices.flatMap Expr.spelledIndex) :=
        Sequence.of_flatMap fun position hposition => .mk (hwritten position hposition).1
      refine ⟨.headed (StmtHead.form_spelled hhead) (.assignment _ target.text op hsequence
        (Expr.written value hvalue).whole), Option.isNone_iff_eq_none.mp hforeign, ?_⟩
      intro position hposition
      obtain ⟨position, hmem, rfl⟩ := List.mem_map.mp hposition
      exact (hwritten position hmem).2
  | .leaf head callee arguments, h => by
      simp only [Stmt.wellFormed, Bool.and_eq_true] at h
      obtain ⟨⟨hhead, hforeign⟩, harguments⟩ := h
      exact ⟨.headed (StmtHead.form_spelled hhead) (.leaf _ callee.text
        (Argument.closed_spelledList harguments)), Option.isNone_iff_eq_none.mp hforeign⟩
  | .compound head callee arguments children, h => by
      simp only [Stmt.wellFormed, Bool.and_eq_true] at h
      obtain ⟨⟨⟨hhead, hforeign⟩, harguments⟩, hchildren⟩ := h
      obtain ⟨hform, hplain⟩ := Stmt.forms_spelled children hchildren
      have hlist : Optional (.mark .lParen) (Closed ArgumentForm)
          (arguments.map fun list => list.map Argument.shape)
          (optionally (.mark .lParen) Argument.spelledList arguments) :=
        Optional.of_optionally harguments fun list => Argument.closed_spelledList
      exact ⟨.headed (StmtHead.form_spelled hhead) (.compound _ callee.text hlist hform),
        Option.isNone_iff_eq_none.mp hforeign, hplain⟩

theorem Stmt.forms_spelled : ∀ stmts : List Stmt, Stmt.allWellFormed stmts = true →
    StmtForm (.stmts (Stmt.shapes stmts)) (Stmt.allSpelled stmts) ∧
      Stmt.AllPlain (Stmt.shapes stmts)
  | [], _ => ⟨.nil, trivial⟩
  | first :: rest, h => by
      obtain ⟨hfirst, hrest⟩ := Bool.and_eq_true_iff.mp h
      obtain ⟨hform, hplain⟩ := Stmt.form_spelled first hfirst
      obtain ⟨hforms, hplains⟩ := Stmt.forms_spelled rest hrest
      exact ⟨.cons hform hforms, hplain, hplains⟩

end

theorem Decl.form_spelled {decl : Decl} (h : decl.wellFormed = true) :
    DeclForm decl.shape decl.spelled ∧ decl.shape.Plain := by
  cases decl with
  | importFile head path range => exact ⟨.mk head.docs rfl (.importFile _ path), trivial⟩
  | node head category name ports behavior =>
      exact ⟨.mk head.docs rfl (.node _ category name.text Behavior.attributeForm
        (Param.closed_spelledList h)), trivial⟩
  | opaqueType head name => exact ⟨.mk head.docs rfl (.opaqueType _ name.text), trivial⟩
  | typeAlias head name type =>
      exact ⟨.mk head.docs rfl (.typeAlias _ name.text (TypeExpr.written type h).1), trivial⟩
  | varDecl head name type init =>
      obtain ⟨htype, hinit⟩ := Bool.and_eq_true_iff.mp h
      exact ⟨.mk head.docs rfl (.varDecl _ name.text (TypePart.of_wellFormed htype)
        (ValuePart.of_wellFormed hinit)), trivial⟩
  | constDecl head name type value =>
      obtain ⟨htype, hvalue⟩ := Bool.and_eq_true_iff.mp h
      exact ⟨.mk head.docs rfl (.constDecl _ name.text (TypePart.of_wellFormed htype)
        (Expr.written value hvalue).whole), trivial⟩
  | tree head name params body =>
      obtain ⟨hparams, hbody⟩ := Bool.and_eq_true_iff.mp h
      obtain ⟨hform, hplain⟩ := Stmt.forms_spelled body hbody
      rw [Stmt.shapes_eq_map] at hform hplain
      exact ⟨.mk head.docs rfl (.tree _ name.text (Param.closed_spelledList hparams) hform), hplain⟩

/-- **Spelled programs are plain sentences** of the grammar. -/
theorem Program.form_spelled {program : Program} (h : program.wellFormed = true) :
    ProgramForm program.shape program.spelled ∧ program.shape.Plain := by
  have hdecls : ∀ decl ∈ program.decls, DeclForm decl.shape decl.spelled ∧ decl.shape.Plain :=
    fun decl hdecl => Decl.form_spelled (List.all_eq_true.mp h decl hdecl)
  refine ⟨.mk program.docs (Sequence.of_flatMap fun decl hdecl => (hdecls decl hdecl).1), ?_⟩
  intro decl hdecl
  obtain ⟨decl, hmem, rfl⟩ := List.mem_map.mp hdecl
  exact (hdecls decl hmem).2

end BehaviorTree
