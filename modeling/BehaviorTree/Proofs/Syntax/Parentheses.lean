import BehaviorTree.Proofs.Syntax.Spelling

/-!
# Parentheses that are needed

An expression is printed here with no parentheses but those that the layers of the grammar ask for.
What stands in a place of the grammar goes in parentheses if only looser layers derive it. One pair
more settles the one ambiguity: a cast to plain `string` stands in parentheses directly in front of a
`<`, which would open a bound there.
-/

namespace BehaviorTree

/-! ### Places -/

/-- What the grammar asks for at a place of an expression. -/
inductive Slot
  /-- Operators outside brackets bind at least as tight as the given layer. -/
  | layered (minimum : Nat)
  /-- An operand of operators. -/
  | unary
  /-- What indices and casts stand behind. -/
  | suffixed

/-- The layers of operators that bind at least as tight as the given one. -/
def Operator.layersFrom (minimum : Nat) : List Nat := layers.filter (minimum ≤ ·)

def Slot.phrase : Slot → Expr → Phrase
  | layered minimum, expr => .layered (Operator.layersFrom minimum) expr
  | unary, expr => .unary expr
  | suffixed, expr => .suffixed expr

/-- Where a whole expression stands. -/
def Slot.whole : Slot := layered 1

/-- The place on the left of an operator: one more operator of its layer can stand there only if the
layer groups to the left. -/
def BinaryOp.leftSlot (op : BinaryOp) : Slot :=
  match op.operator.associativity with
  | .left => .layered op.operator.precedence
  | .right | .none => .layered (op.operator.precedence + 1)

/-- The place on the right of an operator. -/
def BinaryOp.rightSlot (op : BinaryOp) : Slot := .layered (op.operator.precedence + 1)

/-- The operator can stand at the place between its operands. -/
def Slot.takes : Slot → BinaryOp → Bool
  | layered minimum, op => minimum ≤ op.operator.precedence
  | unary, _ | suffixed, _ => false

/-- The outermost form of an expression can stand at the place. -/
def Expr.fits : Expr → Slot → Bool
  | .binary _ op _ _, slot => slot.takes op
  | .unary .., .suffixed => false
  | _, _ => true

theorem Expr.fits_whole (expr : Expr) : expr.fits .whole = true := by
  cases expr with
  | binary origin op left right => exact decide_eq_true op.precedence_pos
  | _ => rfl

/-- A cast whose last terminal is the word `string`. -/
def Expr.isStringCast : Expr → Bool
  | .cast _ _ (.string _ none) => true
  | _ => false

/-! ### Printing -/

/-- What is printed at a place, given how the expression is printed in front of a `<` or of something
else. -/
def Expr.placed (slot : Slot) (lessFollows : Bool) (expr : Expr) (printed : Bool → List Terminal) :
    List Terminal :=
  if expr.fits slot && !(lessFollows && expr.isStringCast) then printed lessFollows
  else .mark .lParen :: (printed false ++ [.mark .rParen])

mutual

/-- The terminals of an expression, with the parentheses inside it that are needed. The flag says that
a `<` follows. -/
def Expr.printed : Expr → Bool → List Terminal
  | .int _ value, _ => [.of (.int value)]
  | .float _ value, _ => [.of (.float value)]
  | .string _ value, _ => [.of (.string value)]
  | .bool _ value, _ => [.word (if value then .trueWord else .falseWord)]
  | .null _, _ => [.word .nullWord]
  | .ref _ name, _ => [.name name.text]
  | .binary _ op left right, lessFollows =>
    left.placed op.leftSlot (op = .less) left.printed ++
      .op op.operator :: right.placed op.rightSlot lessFollows right.printed
  | .unary _ op operand, lessFollows =>
    .op op.operator :: operand.placed .unary lessFollows operand.printed
  | .index _ base position, _ =>
    base.placed .suffixed false base.printed ++
      .mark .lBracket :: (position.printed false ++ [.mark .rBracket])
  | .cast _ operand type, _ =>
    operand.placed .suffixed false operand.printed ++ .word .asWord :: type.printed
  | .array _ elements, _ =>
    .mark .lBracket :: (commaSeparated (Expr.eachPrinted elements) ++ [.mark .rBracket])
  | .repeated _ value count, _ =>
    .mark .lBracket :: (value.printed false ++
      .mark .semi :: (count.printed false ++ [.mark .rBracket]))
  | .vec _ inner, _ => .word .vecWord :: .op .bang :: inner.printed false
  | .missing _, _ => []

def Expr.eachPrinted : List Expr → List (List Terminal)
  | [] => []
  | expr :: rest => expr.printed false :: Expr.eachPrinted rest

def TypeExpr.printed : TypeExpr → List Terminal
  | .named _ name => [.name name.text]
  | .infer _ => [.of .infer]
  | .string _ none => [.word .stringWord]
  | .string _ (some bound) => [.word .stringWord, .op .lt, .of (.int bound), .op .gt]
  | .staticArray _ element length =>
    .mark .lBracket :: (element.printed ++ .mark .semi :: (length.printed false ++ [.mark .rBracket]))
  | .boundedArray _ element bound =>
    .mark .lBracket ::
      (element.printed ++ .mark .semi :: .op .ltEq :: (bound.printed false ++ [.mark .rBracket]))
  | .vec _ element => .word .vecWord :: .op .lt :: (element.printed ++ [.op .gt])
  | .nullable _ inner => inner.printed ++ [.mark .question]
  | .missing _ => []

end

/-! ### Layers -/

namespace Operator

/-- The layer of an operator stands between the looser and the tighter ones. -/
theorem layers_eq_append (op : BinaryOp) :
    layers = layers.filter (· < op.operator.precedence) ++
      op.operator.precedence :: layersFrom (op.operator.precedence + 1) := by
  cases op <;> rfl

theorem layersFrom_precedence (op : BinaryOp) : layersFrom op.operator.precedence =
    op.operator.precedence :: layersFrom (op.operator.precedence + 1) := by
  cases op <;> rfl

/-- From a layer that is no tighter on, the layer of the operator and the tighter ones come last. -/
theorem layersFrom_of_le (op : BinaryOp) {minimum : Nat} (hle : minimum ≤ op.operator.precedence) :
    ∃ looser, layersFrom minimum =
      looser ++ op.operator.precedence :: layersFrom (op.operator.precedence + 1) := by
  have htighter : ∀ layer ∈ op.operator.precedence :: layersFrom (op.operator.precedence + 1),
      decide (minimum ≤ layer) = true := by
    rw [List.forall_mem_cons]
    refine ⟨decide_eq_true hle, fun layer hlayer => ?_⟩
    have habove := of_decide_eq_true (List.mem_filter.mp hlayer).2
    exact decide_eq_true (by omega)
  refine ⟨(layers.filter (· < op.operator.precedence)).filter (minimum ≤ ·), ?_⟩
  calc layersFrom minimum
      = (layers.filter (· < op.operator.precedence) ++
          op.operator.precedence :: layersFrom (op.operator.precedence + 1)).filter (minimum ≤ ·) := by
        rw [← layers_eq_append]
        rfl
    _ = _ := by
        rw [List.filter_append, List.filter_eq_self.mpr htighter]

end Operator

namespace Derives

variable {expr left right : Expr} {ts ls rs : List Terminal}

theorem looser {layers : List Nat} (h : Derives (.layered layers expr) ts) (more : List Nat) :
    Derives (.layered (more ++ layers) expr) ts := by
  induction more with
  | nil => exact h
  | cons layer more ih => exact .tighter ih

theorem suffixed_slot (h : Derives (.suffixed expr) ts) : ∀ slot : Slot, Derives (slot.phrase expr) ts
  | .layered minimum => Derives.layers (.unprefixed h) (Operator.layersFrom minimum)
  | .unary => .unprefixed h
  | .suffixed => h

theorem primary_slot (h : Derives (.primary expr) ts) (slot : Slot) : Derives (slot.phrase expr) ts :=
  suffixed_slot (.unsuffixed h) slot

/-- An operator between what may stand on either side of it. -/
theorem binary_slot {op : BinaryOp} {slot : Slot} (htakes : slot.takes op = true)
    (hleft : Derives (op.leftSlot.phrase left) ls) (hless : op = .less → ¬EndsInString ls)
    (hright : Derives (op.rightSlot.phrase right) rs) :
    Derives (slot.phrase (.binary .blank op left right)) (ls ++ .op op.operator :: rs) := by
  cases slot with
  | unary | suffixed => cases htakes
  | layered minimum =>
      have hown : Derives (.layered
          (op.operator.precedence :: Operator.layersFrom (op.operator.precedence + 1))
          (.binary .blank op left right)) (ls ++ .op op.operator :: rs) := by
        unfold BinaryOp.leftSlot at hleft
        cases hassociativity : op.operator.associativity with
        | left =>
            rw [hassociativity] at hleft
            refine .grouped op rfl hassociativity ?_ hright
            rw [← Operator.layersFrom_precedence]
            exact hleft
        | none =>
            rw [hassociativity] at hleft
            exact .single op rfl hassociativity hless hleft hright
        | right => exact absurd hassociativity op.associativity_ne_right
      obtain ⟨looser, hlayers⟩ := Operator.layersFrom_of_le op (of_decide_eq_true htakes)
      show Derives (.layered (Operator.layersFrom minimum) _) _
      rw [hlayers]
      exact hown.looser looser

/-! ### Parentheses are needed -/

/-- The terminals are something in parentheses. -/
def InParens (ts : List Terminal) : Prop := ∃ inner, ts = .mark .lParen :: (inner ++ [.mark .rParen])

theorem inParens_of_suffixed_binary {origin : Origin} {op : BinaryOp}
    (h : Derives (.suffixed (.binary origin op left right)) ts) : InParens ts := by
  cases h with
  | unsuffixed h =>
      cases h with
      | parens _ => exact ⟨_, rfl⟩
      | array h => cases h

theorem inParens_of_suffixed_unary {origin : Origin} {op : UnaryOp}
    (h : Derives (.suffixed (.unary origin op expr)) ts) : InParens ts := by
  cases h with
  | unsuffixed h =>
      cases h with
      | parens _ => exact ⟨_, rfl⟩
      | array h => cases h

theorem inParens_of_unary_binary {origin : Origin} {op : BinaryOp}
    (h : Derives (.unary (.binary origin op left right)) ts) : InParens ts := by
  cases h with
  | unprefixed h => exact inParens_of_suffixed_binary h

theorem inParens_of_layered_binary {origin : Origin} {op : BinaryOp} {layers : List Nat}
    (hloose : op.operator.precedence ∉ layers)
    (h : Derives (.layered layers (.binary origin op left right)) ts) : InParens ts := by
  induction layers with
  | nil =>
      cases h with
      | operand h => exact inParens_of_unary_binary h
  | cons layer layers ih =>
      obtain ⟨hlayer, hlayers⟩ := not_or.mp (mt List.mem_cons.mpr hloose)
      cases h with
      | tighter h => exact ih hlayers h
      | grouped _ hsame => exact absurd hsame hlayer
      | single _ hsame => exact absurd hsame hlayer

/-- **Parentheses are needed** where an expression cannot stand: the grammar derives nothing else for
it there. -/
theorem inParens_of_not_fits {slot : Slot} (hfits : expr.fits slot = false)
    (h : Derives (slot.phrase expr.shape) ts) : InParens ts := by
  cases expr with
  | binary origin op left right =>
      cases slot with
      | layered minimum =>
          refine inParens_of_layered_binary (fun hmem => ?_) h
          have htakes : minimum ≤ op.operator.precedence :=
            of_decide_eq_true (List.mem_filter.mp hmem).2
          exact of_decide_eq_false hfits htakes
      | unary => exact inParens_of_unary_binary h
      | suffixed => exact inParens_of_suffixed_binary h
  | unary origin op operand =>
      cases slot with
      | suffixed => exact inParens_of_suffixed_unary h
      | layered | unary => cases hfits
  | _ => cases hfits

end Derives

/-! ### What is printed is derived -/

/-- What is printed for an expression is derived for it where it can stand. -/
structure Expr.Printed (expr : Expr) : Prop where
  derives : ∀ slot lessFollows, expr.fits slot = true →
    Derives (slot.phrase expr.shape) (expr.printed lessFollows)
  array : expr.isArray = true → Derives (.array expr.shape) (expr.printed false)
  notInString : expr.isStringCast = false → ¬EndsInString (expr.printed true)

namespace Expr.Printed

variable {expr : Expr}

theorem whole (h : expr.Printed) : Derives (.expr expr.shape) (expr.printed false) :=
  h.derives .whole false expr.fits_whole

theorem placed (h : expr.Printed) (slot : Slot) (lessFollows : Bool) :
    Derives (slot.phrase expr.shape) (expr.placed slot lessFollows expr.printed) := by
  unfold Expr.placed
  split
  · rename_i hstands
    exact h.derives slot lessFollows (Bool.and_eq_true_iff.mp hstands).1
  · exact (Derives.parens h.whole).primary_slot slot

theorem placed_notInString (h : expr.Printed) (slot : Slot) :
    ¬EndsInString (expr.placed slot true expr.printed) := by
  unfold Expr.placed
  split
  · rename_i hstands
    simp only [Bool.true_and, Bool.and_eq_true, Bool.not_eq_true'] at hstands
    exact h.notInString hstands.2
  · exact EndsInString.not_cons_append_singleton _ _ (by decide)

theorem of_primary {ts : List Terminal} (hprinted : ∀ lessFollows, expr.printed lessFollows = ts)
    (h : Derives (.primary expr.shape) ts) (harray : expr.isArray = false) : expr.Printed where
  derives slot lessFollows _ := by
    rw [hprinted]
    exact h.primary_slot slot
  array hyes := absurd hyes (by simp [harray])
  notInString _ := by
    rw [hprinted]
    exact h.not_endsInString_primary

theorem of_array {ts : List Terminal} (hprinted : ∀ lessFollows, expr.printed lessFollows = ts)
    (h : Derives (.array expr.shape) ts) : expr.Printed where
  derives slot lessFollows _ := by
    rw [hprinted]
    exact (Derives.array h).primary_slot slot
  array _ := by
    rw [hprinted]
    exact h
  notInString _ := by
    rw [hprinted]
    exact h.not_endsInString_array

theorem binary {left right : Expr} (origin : Origin) (op : BinaryOp) (hleft : left.Printed)
    (hright : right.Printed) : (Expr.binary origin op left right).Printed where
  derives slot lessFollows hfits := by
    refine Derives.binary_slot ?_ (hleft.placed _ _) ?_ (hright.placed _ _)
    · exact hfits
    · rintro rfl
      exact hleft.placed_notInString _
  array := nofun
  notInString _ hends := hright.placed_notInString _ (hends.of_append_cons (by cases op <;> decide))

theorem unary {operand : Expr} (origin : Origin) (op : UnaryOp) (h : operand.Printed) :
    (Expr.unary origin op operand).Printed where
  derives slot lessFollows hfits := by
    have hprefixed : Derives (.unary (.unary .blank op operand.shape))
        (.op op.operator :: operand.placed .unary lessFollows operand.printed) :=
      .prefixed op (h.placed .unary lessFollows)
    cases slot with
    | layered minimum => exact hprefixed.layers (Operator.layersFrom minimum)
    | unary => exact hprefixed
    | suffixed => cases hfits
  array := nofun
  notInString _ hends := h.placed_notInString _ (hends.of_cons (by cases op <;> decide))

theorem index {base position : Expr} (origin : Origin) (hbase : base.Printed)
    (hposition : position.Printed) : (Expr.index origin base position).Printed where
  derives slot _ _ :=
    Derives.suffixed_slot (.index (hbase.placed .suffixed false) hposition.whole) slot
  array := nofun
  notInString _ hends :=
    EndsInString.not_append_singleton _ (by decide) (hends.of_append_cons (by decide))

theorem cast {operand : Expr} {type : TypeExpr} (origin : Origin) (hoperand : operand.Printed)
    (htype : Derives (.type type.shape) type.printed)
    (hends : (∀ o, type ≠ .string o none) → ¬EndsInString type.printed) :
    (Expr.cast origin operand type).Printed where
  derives slot _ _ := Derives.suffixed_slot (.cast (hoperand.placed .suffixed false) htype) slot
  array := nofun
  notInString hcast hin := by
    refine hends ?_ (hin.of_append_cons (by decide))
    rintro o rfl
    cases hcast

end Expr.Printed

theorem Expr.elements_of_printed {first : Expr} {rest : List Expr}
    (h : ∀ expr ∈ first :: rest, expr.Printed) :
    Derives (.elements (Expr.shapes (first :: rest)))
      (commaSeparated (Expr.eachPrinted (first :: rest))) := by
  induction rest generalizing first with
  | nil => exact .last (h first List.mem_cons_self).whole
  | cons second rest ih =>
      exact .more (h first List.mem_cons_self).whole
        (ih fun expr hexpr => h expr (List.mem_cons_of_mem _ hexpr))

/-- What is printed for a type is derived for it, and it ends in the word `string` for that type
only. -/
structure TypeExpr.Printed (type : TypeExpr) : Prop where
  whole : Derives (.type type.shape) type.printed
  plain : type.isNullable = false → Derives (.plainType type.shape) type.printed
  notInString : (∀ origin, type ≠ .string origin none) → ¬EndsInString type.printed

theorem TypeExpr.Printed.of_plain {type : TypeExpr} (h : Derives (.plainType type.shape) type.printed) :
    type.Printed where
  whole := .plain h
  plain _ := h
  notInString hstring := by
    refine h.not_endsInString_plainType fun hshape => ?_
    cases type with
    | string origin bound =>
        cases hshape
        exact hstring origin rfl
    | _ => cases hshape

mutual

theorem Expr.printed_of_wellFormed : ∀ expr : Expr, expr.wellFormed = true → expr.Printed
  | .int _ value, _ => .of_primary (fun _ => rfl) (.int value) rfl
  | .float _ value, _ => .of_primary (fun _ => rfl) (.float value) rfl
  | .string _ value, _ => .of_primary (fun _ => rfl) (.text value) rfl
  | .bool _ true, _ => .of_primary (fun _ => rfl) .trueWord rfl
  | .bool _ false, _ => .of_primary (fun _ => rfl) .falseWord rfl
  | .null _, _ => .of_primary (fun _ => rfl) .nullWord rfl
  | .ref _ name, _ => .of_primary (fun _ => rfl) (.ref name.text) rfl
  | .binary origin op left right, h => by
      obtain ⟨hleft, hright⟩ := Bool.and_eq_true_iff.mp h
      exact .binary origin op (Expr.printed_of_wellFormed left hleft)
        (Expr.printed_of_wellFormed right hright)
  | .unary origin op operand, h => .unary origin op (Expr.printed_of_wellFormed operand h)
  | .index origin base position, h => by
      obtain ⟨hbase, hposition⟩ := Bool.and_eq_true_iff.mp h
      exact .index origin (Expr.printed_of_wellFormed base hbase)
        (Expr.printed_of_wellFormed position hposition)
  | .cast origin operand type, h => by
      obtain ⟨hoperand, htype⟩ := Bool.and_eq_true_iff.mp h
      have hprinted := TypeExpr.printed_of_wellFormed type htype
      exact .cast origin (Expr.printed_of_wellFormed operand hoperand) hprinted.whole
        hprinted.notInString
  | .array _ [], _ => .of_array (fun _ => rfl) .empty
  | .array _ (first :: rest), h =>
      .of_array (fun _ => rfl)
        (.listed (Expr.elements_of_printed (Expr.printed_of_mem (first :: rest) h)))
  | .repeated _ value count, h => by
      obtain ⟨hvalue, hcount⟩ := Bool.and_eq_true_iff.mp h
      exact .of_array (fun _ => rfl) (.repeated (Expr.printed_of_wellFormed value hvalue).whole
        (Expr.printed_of_wellFormed count hcount).whole)
  | .vec _ inner, h => by
      obtain ⟨harray, hinner⟩ := Bool.and_eq_true_iff.mp h
      exact .of_primary (fun _ => rfl)
        (.vec ((Expr.printed_of_wellFormed inner hinner).array harray)) rfl

theorem Expr.printed_of_mem : ∀ exprs : List Expr, Expr.allWellFormed exprs = true →
    ∀ expr ∈ exprs, expr.Printed
  | [], _ => nofun
  | first :: rest, h => by
      obtain ⟨hfirst, hrest⟩ := Bool.and_eq_true_iff.mp h
      exact List.forall_mem_cons.mpr
        ⟨Expr.printed_of_wellFormed first hfirst, Expr.printed_of_mem rest hrest⟩

theorem TypeExpr.printed_of_wellFormed : ∀ type : TypeExpr, type.wellFormed = true → type.Printed
  | .named _ name, _ => .of_plain (.named name.text)
  | .infer _, _ => .of_plain .infer
  | .string _ none, _ => .of_plain .string
  | .string _ (some bound), _ => .of_plain (.boundedString bound)
  | .staticArray _ element length, h => by
      obtain ⟨helement, hlength⟩ := Bool.and_eq_true_iff.mp h
      exact .of_plain (.staticArray (TypeExpr.printed_of_wellFormed element helement).whole
        (Expr.printed_of_wellFormed length hlength).whole)
  | .boundedArray _ element bound, h => by
      obtain ⟨helement, hbound⟩ := Bool.and_eq_true_iff.mp h
      exact .of_plain (.boundedArray (TypeExpr.printed_of_wellFormed element helement).whole
        (Expr.printed_of_wellFormed bound hbound).whole)
  | .vec _ element, h => .of_plain (.vecType (TypeExpr.printed_of_wellFormed element h).whole)
  | .nullable _ inner, h => by
      obtain ⟨honce, hinner⟩ := Bool.and_eq_true_iff.mp h
      have hplain := (TypeExpr.printed_of_wellFormed inner hinner).plain (by simpa using honce)
      exact ⟨.nullable hplain, nofun, fun _ => EndsInString.not_append_singleton _ (by decide)⟩

end

end BehaviorTree
