import BehaviorTree.Proofs.Parsing.Anywhere
import BehaviorTree.Proofs.Parsing.Enough
import BehaviorTree.Proofs.Parsing.TermsAccepted
import BehaviorTree.Proofs.Parsing.StatementsFlow
import BehaviorTree.Proofs.Parsing.Words
import BehaviorTree.Proofs.Syntax.Parentheses

/-!
# Precedence

Operators can also be parsed with a single loop for all layers: it goes on as long as the next
operator binds at least as tight as a minimum, and starts anew for each right operand with a tighter
minimum. From every state this does the same as one loop for each layer. The loop for many layers
falls into one for the tighter layers and one for the loosest layer behind it, because no operator
of the tighter layers comes where the right operand of a looser one has ended.
-/

namespace BehaviorTree

/-- The operator between operands that a token is. -/
def Token.binaryOp? (token : Token) : Option BinaryOp := token.operator?.bind BinaryOp.ofOperator?

theorem Token.binaryOpOn?_eq_some_iff {token : Token} {layer : Nat} {op : BinaryOp} :
    token.binaryOpOn? layer = some op ↔
      token.binaryOp? = some op ∧ op.operator.precedence = layer := by
  unfold binaryOpOn? binaryOp?
  rw [Option.filter_eq_some_iff, beq_iff_eq]

theorem BinaryOp.precedence_lt (op : BinaryOp) : op.operator.precedence < 100 := by
  cases op <;> decide

theorem Operator.mem_layersFrom_iff {op : BinaryOp} {minimum : Nat} :
    op.operator.precedence ∈ layersFrom minimum ↔ minimum ≤ op.operator.precedence := by
  have hmem : op.operator.precedence ∈ layers := precedence_mem_layers (by cases op <;> rfl)
  simp [layersFrom, hmem]

/-- Of a sorted list, what comes behind the first member from a minimum on. -/
theorem filter_le_eq_cons {minimum first : Nat} {later : List Nat} : ∀ {sorted : List Nat},
    sorted.Pairwise (· < ·) → sorted.filter (minimum ≤ ·) = first :: later →
      later = sorted.filter (first + 1 ≤ ·)
  | [], _, h => nomatch h
  | least :: rest, hsorted, h => by
      obtain ⟨hleast, hrest⟩ := List.pairwise_cons.mp hsorted
      by_cases hle : minimum ≤ least
      · simp only [List.filter_cons, hle, decide_true, if_true] at h
        obtain ⟨rfl, rfl⟩ := List.cons.inj h
        rw [List.filter_cons_of_neg (by simp)]
        refine List.filter_congr fun other hother => ?_
        have hless := hleast other hother
        rw [decide_eq_true (by omega), decide_eq_true (by omega)]
      · simp only [List.filter_cons, hle, decide_false, Bool.false_eq_true, if_false] at h
        have hmem : first ∈ rest.filter (minimum ≤ ·) := h ▸ List.mem_cons_self
        have hless := hleast first (List.mem_filter.mp hmem).1
        rw [List.filter_cons_of_neg (by simp; omega)]
        exact filter_le_eq_cons hrest h

/-- The tighter layers are those from the next one on. -/
theorem Operator.layersFrom_tighter {minimum layer : Nat} {tighter : List Nat}
    (hlayers : layersFrom minimum = layer :: tighter) : tighter = layersFrom (layer + 1) :=
  filter_le_eq_cons (by decide) hlayers

namespace Parser

open ParserState

/-- One more operator that binds at least as tight as the minimum and its right operand, if they
follow. -/
def climbTurn (minimum : Nat)
    (right : (op : BinaryOp) → minimum ≤ op.operator.precedence → Parser Chain) (chain : Chain) :
    Parser (Turn Chain) := do
  match (← peek).binaryOp? with
  | some op =>
    if htight : minimum ≤ op.operator.precedence then
      extendChain op.operator.precedence (right op htight) chain
    else pure (.done chain)
  | none => pure (.done chain)

/-- An expression whose operators outside brackets bind at least as tight as the minimum. -/
def climb (nested : Nested) (minimum : Nat) : Parser Chain := do
  let operand ← unary nested
  iterate (climbTurn minimum fun op _ => climb nested (op.operator.precedence + 1)) ⟨operand, false⟩
termination_by 100 - minimum
decreasing_by
  have hless := op.precedence_lt
  omega

variable {nested : Nested} {layer minimum : Nat} {tighter : List Nat} {p q : Parser Chain}
  {chain : Chain} {s : ParserState}

/-! ### Turns -/

/-- Makes the node for an operator, and reports the operator behind it if that goes on with a chain. -/
def join (op : BinaryOp) (layer : Nat) (chain : Chain) (first : SourceRange) (right : Chain) :
    Parser (Turn Chain) := do
  let whole ← newExpr (chain.left.range.merge right.left.range) (.binary · op chain.left right.left)
  let next ← peek
  if op.operator.associativity = .none ∧ !chain.reported ∧ (next.binaryOpOn? layer).isSome then
    report (SyntaxReport.chainedComparison next.range first)
    pure (.again ⟨whole, true⟩)
  else pure (.again ⟨whole, chain.reported⟩)

/-- The node and the report leave the tokens alone. -/
theorem join_eq (op : BinaryOp) (layer : Nat) (chain : Chain) (first : SourceRange) (right : Chain)
    (s : ParserState) : ∃ next arena diagnostics, join op layer chain first right s =
      (.again next, { s with arena := arena, diagnostics := diagnostics }) := by
  let whole := s.arena.addExpr (chain.left.range.merge right.left.range)
    (.binary · op chain.left right.left)
  change ∃ next arena diagnostics, (if op.operator.associativity = .none ∧ !chain.reported ∧
      (s.current.binaryOpOn? layer).isSome then _ else _ : Parser (Turn Chain))
        { s with arena := whole.2 } = _
  split
  · exact ⟨⟨whole.1, true⟩, whole.2, _, rfl⟩
  · exact ⟨⟨whole.1, chain.reported⟩, whole.2, _, rfl⟩

theorem extendChain_some {op : BinaryOp} (hop : s.current.binaryOpOn? layer = some op)
    (p : Parser Chain) (chain : Chain) : extendChain layer p chain s =
      (p >>= join op layer chain s.current.range) (s.skip 1) := by
  have hgoes : s.current.isEndOfFile = false := by
    rw [Token.isEndOfFile, (Token.kind_of_binaryOpOn? hop).1]
    rfl
  unfold extendChain
  change (match s.current.binaryOpOn? layer with
    | some op => _
    | none => _ : Parser (Turn Chain)) s = _
  rw [hop]
  exact advance_bind hgoes _

theorem extendChain_none (hop : s.current.binaryOpOn? layer = none) (p : Parser Chain)
    (chain : Chain) : extendChain layer p chain s = (.done chain, s) := by
  unfold extendChain
  change (match s.current.binaryOpOn? layer with
    | some op => _
    | none => _ : Parser (Turn Chain)) s = _
  rw [hop]
  rfl

/-- A turn with an operator ends where its right operand does. -/
theorem extendChain_again {op : BinaryOp} (hop : s.current.binaryOpOn? layer = some op)
    (p : Parser Chain) (chain : Chain) : ∃ next arena diagnostics,
      extendChain layer p chain s = (.again next,
        { (p (s.skip 1)).2 with arena := arena, diagnostics := diagnostics }) := by
  rw [extendChain_some hop]
  exact join_eq op layer chain s.current.range (p (s.skip 1)).1 (p (s.skip 1)).2

theorem extendChain_congr (h : p (s.skip 1) = q (s.skip 1)) :
    extendChain layer p chain s = extendChain layer q chain s := by
  cases hop : s.current.binaryOpOn? layer with
  | none => rw [extendChain_none hop, extendChain_none hop]
  | some op =>
      rw [extendChain_some hop, extendChain_some hop]
      show join op layer chain s.current.range (p (s.skip 1)).1 (p (s.skip 1)).2 =
        join op layer chain s.current.range (q (s.skip 1)).1 (q (s.skip 1)).2
      rw [h]

/-- An operator that binds tight enough comes, or none does. -/
theorem tight_or_loose (s : ParserState) (minimum : Nat) :
    (∃ op, s.current.binaryOp? = some op ∧ minimum ≤ op.operator.precedence) ∨
      ∀ op, s.current.binaryOp? = some op → ¬minimum ≤ op.operator.precedence := by
  by_cases htight : ∃ op, s.current.binaryOp? = some op ∧ minimum ≤ op.operator.precedence
  · exact .inl htight
  · exact .inr fun op hop hle => htight ⟨op, hop, hle⟩

/-! ### Loops -/

/-- A loop whose turns consume a token each, but for the last. -/
structure Consumes {α : Type} (body : α → Parser (Turn α)) : Prop where
  reaches : ∀ v (s : ParserState), s.Reaches (body v s).2
  shrinks : ∀ v s next, s.Ended → (body v s).1 = .again next →
    (body v s).2.rest.length < s.rest.length

/-- The first turn of a loop, and the loop behind it. -/
theorem Consumes.iterate_eq {α : Type} {body : α → Parser (Turn α)} (hbody : Consumes body) (v : α)
    (hended : s.Ended) :
    iterate body v s = (body v s).1.goOn (iterate body) (body v s).2 := by
  show iterateAlong body s.rest v s = _
  have hless := hbody.shrinks v s
  cases hrest : s.rest with
  | nil =>
      rw [iterateAlong_nil]
      cases hturn : (body v s).1 with
      | done last => rfl
      | again next =>
          have hnone := hless next hended hturn
          rw [hrest] at hnone
          exact absurd hnone (Nat.not_lt_zero _)
  | cons token turns =>
      rw [iterateAlong_cons]
      cases hturn : (body v s).1 with
      | done last => rfl
      | again next =>
          have hfewer := hless next hended hturn
          rw [hrest, List.length_cons] at hfewer
          exact iterateAlong_enough hbody.reaches hbody.shrinks turns (body v s).2.rest next
            (body v s).2 ((hbody.reaches v s).ended hended) (by omega) (Nat.le_refl _)

theorem iterate_congr {α : Type} {body body' : α → Parser (Turn α)}
    (hreaches : ∀ v (s : ParserState), s.Reaches (body v s).2)
    (hsame : ∀ v (s : ParserState), s.Ended → body v s = body' v s) (v : α) (hended : s.Ended) :
    iterate body v s = iterate body' v s := by
  have halong : ∀ turns v (s : ParserState), s.Ended →
      iterateAlong body turns v s = iterateAlong body' turns v s := by
    intro turns
    induction turns with
    | nil =>
        intro v s hended
        rw [iterateAlong_nil, iterateAlong_nil, hsame v s hended]
    | cons token turns ih =>
        intro v s hended
        rw [iterateAlong_cons, iterateAlong_cons, ← hsame v s hended]
        cases (body v s).1 with
        | done last => rfl
        | again next => exact ih next _ ((hreaches v s).ended hended)
  exact halong s.rest v s hended

theorem Consumes.extendChain (hp : Agrees p p (Alike Chain.shape)) :
    Consumes (Parser.extendChain layer p) where
  reaches chain s := (Agrees.extendChain hp (show Alike Chain.shape chain chain from rfl)).reaches s
  shrinks chain s next hended hagain := by
    cases hop : s.current.binaryOpOn? layer with
    | none =>
        rw [extendChain_none hop] at hagain
        cases hagain
    | some op =>
        obtain ⟨next, arena, diagnostics, hturn⟩ := extendChain_again hop p chain
        have hgoes : s.current.isEndOfFile = false := by
          rw [Token.isEndOfFile, (Token.kind_of_binaryOpOn? hop).1]
          rfl
        have hpositive := List.length_pos_iff.mpr (hended.some_left hgoes)
        have hle := (hp.reaches (s.skip 1)).length_le
        have hskip : (s.skip 1).rest.length = s.rest.length - 1 := List.length_drop
        rw [hturn]
        show (p (s.skip 1)).2.rest.length < _
        omega

/-! ### One loop and many -/

/-- No operator of the layers comes. -/
def Settled (layers : List Nat) (s : ParserState) : Prop :=
  ∀ layer ∈ layers, s.current.binaryOpOn? layer = none

theorem Settled.not_tight (hsettled : Settled (Operator.layersFrom minimum) s) (op : BinaryOp)
    (hop : s.current.binaryOp? = some op) : ¬minimum ≤ op.operator.precedence := by
  intro htight
  have hnone := hsettled _ (Operator.mem_layersFrom_iff.mpr htight)
  rw [Token.binaryOpOn?_eq_some_iff.mpr ⟨hop, rfl⟩] at hnone
  cases hnone

/-- A turn of the loop for one layer. -/
def turnOn (nested : Nested) (layer : Nat) : Chain → Parser (Turn Chain) :=
  extendChain layer (layered nested (Operator.layersFrom (layer + 1)))

/-- A turn of the loop for all layers from a minimum on, with right operands parsed layer by layer. -/
def turnFrom (nested : Nested) (minimum : Nat) : Chain → Parser (Turn Chain) :=
  climbTurn minimum fun op _ => layered nested (Operator.layersFrom (op.operator.precedence + 1))

theorem climbTurn_tight {op : BinaryOp} (hop : s.current.binaryOp? = some op)
    (htight : minimum ≤ op.operator.precedence)
    (right : (op : BinaryOp) → minimum ≤ op.operator.precedence → Parser Chain) (chain : Chain) :
    climbTurn minimum right chain s =
      extendChain op.operator.precedence (right op htight) chain s := by
  unfold climbTurn
  change (match s.current.binaryOp? with
    | some op => _
    | none => _ : Parser (Turn Chain)) s = _
  rw [hop]
  change (if _ : _ then _ else _ : Parser (Turn Chain)) s = _
  rw [dif_pos htight]

theorem climbTurn_loose
    (hloose : ∀ op, s.current.binaryOp? = some op → ¬minimum ≤ op.operator.precedence)
    (right : (op : BinaryOp) → minimum ≤ op.operator.precedence → Parser Chain) (chain : Chain) :
    climbTurn minimum right chain s = (.done chain, s) := by
  unfold climbTurn
  change (match s.current.binaryOp? with
    | some op => _
    | none => _ : Parser (Turn Chain)) s = _
  cases hop : s.current.binaryOp? with
  | none => rfl
  | some op =>
      change (if _ : _ then _ else _ : Parser (Turn Chain)) s = _
      rw [dif_neg (hloose op hop)]
      rfl

theorem turnFrom_tight {op : BinaryOp} (hop : s.current.binaryOp? = some op)
    (htight : minimum ≤ op.operator.precedence) :
    turnFrom nested minimum chain s = turnOn nested op.operator.precedence chain s :=
  climbTurn_tight hop htight _ chain

theorem turnFrom_loose
    (hloose : ∀ op, s.current.binaryOp? = some op → ¬minimum ≤ op.operator.precedence) :
    turnFrom nested minimum chain s = (.done chain, s) :=
  climbTurn_loose hloose _ chain

section Nested

variable (hnested : NestedAgrees nested)

include hnested

theorem Consumes.turnOn (layer : Nat) : Consumes (turnOn nested layer) :=
  .extendChain (Agrees.layered hnested _)

theorem Consumes.turnFrom (minimum : Nat) : Consumes (turnFrom nested minimum) where
  reaches chain s := by
    obtain ⟨op, hop, htight⟩ | hloose := tight_or_loose s minimum
    · rw [turnFrom_tight hop htight]
      exact (Consumes.turnOn hnested _).reaches chain s
    · rw [turnFrom_loose hloose]
      exact .refl s
  shrinks chain s next hended hagain := by
    obtain ⟨op, hop, htight⟩ | hloose := tight_or_loose s minimum
    · rw [turnFrom_tight hop htight] at hagain ⊢
      exact (Consumes.turnOn hnested _).shrinks chain s next hended hagain
    · rw [turnFrom_loose hloose] at hagain
      cases hagain

/-- Where a chain of the layers has ended, no operator of theirs comes. -/
theorem settled_layered (layers : List Nat) (hended : s.Ended) :
    Settled layers (layered nested layers s).2 := by
  induction layers generalizing s with
  | nil => exact List.forall_mem_nil _
  | cons layer tighter ih =>
      have hconsumes : Consumes (extendChain layer (layered nested tighter)) :=
        .extendChain (Agrees.layered hnested tighter)
      have hloop : ∀ length (s : ParserState) chain, s.rest.length = length → s.Ended →
          Settled tighter s →
          Settled (layer :: tighter) (iterate (extendChain layer (layered nested tighter)) chain s).2 := by
        intro length
        induction length using Nat.strongRecOn with
        | _ length ihlength =>
            rintro s chain rfl hended hsettled
            rw [hconsumes.iterate_eq chain hended]
            cases hop : s.current.binaryOpOn? layer with
            | none =>
                rw [extendChain_none hop]
                exact List.forall_mem_cons.mpr ⟨hop, hsettled⟩
            | some op =>
                obtain ⟨next, arena, diagnostics, hturn⟩ :=
                  extendChain_again hop (layered nested tighter) chain
                have hless := hconsumes.shrinks chain s next hended (by rw [hturn])
                have hends := (hconsumes.reaches chain s).ended hended
                rw [hturn] at hless hends ⊢
                have hsettled' : Settled tighter (layered nested tighter (s.skip 1)).2 := ih hended
                exact ihlength _ hless _ next rfl hends hsettled'
      have hended₁ := ((Agrees.layered hnested tighter).reaches s).ended hended
      exact hloop _ _ _ rfl hended₁ (ih hended)

/-- A turn with an operator consumes tokens, and leaves no operator of a tighter layer to come. -/
theorem turnOn_again {op : BinaryOp} (hop : s.current.binaryOp? = some op) (chain : Chain)
    (hended : s.Ended) : ∃ next s', turnOn nested op.operator.precedence chain s = (.again next, s') ∧
      s'.Ended ∧ s'.rest.length < s.rest.length ∧
        Settled (Operator.layersFrom (op.operator.precedence + 1)) s' := by
  have hon : s.current.binaryOpOn? op.operator.precedence = some op :=
    Token.binaryOpOn?_eq_some_iff.mpr ⟨hop, rfl⟩
  obtain ⟨next, arena, diagnostics, hturn⟩ := extendChain_again hon
    (layered nested (Operator.layersFrom (op.operator.precedence + 1))) chain
  have hconsumes := Consumes.turnOn hnested op.operator.precedence
  have hless := hconsumes.shrinks chain s next hended (congrArg Prod.fst hturn)
  have hends := (hconsumes.reaches chain s).ended hended
  have hsettled : Settled (Operator.layersFrom (op.operator.precedence + 1))
      (layered nested (Operator.layersFrom (op.operator.precedence + 1)) (s.skip 1)).2 :=
    settled_layered hnested _ hended
  rw [show turnOn nested op.operator.precedence chain s = _ from hturn] at hless hends
  exact ⟨next, _, hturn, hends, hless, hsettled⟩

/-- A loop for many layers falls into one for the tighter layers and one for the loosest. -/
theorem iterate_turnFrom (hlayers : Operator.layersFrom minimum = layer :: tighter) (chain : Chain)
    (hended : s.Ended) : iterate (turnFrom nested minimum) chain s =
      (iterate (turnFrom nested (layer + 1)) chain >>= iterate (turnOn nested layer)) s := by
  have hmany := Consumes.turnFrom hnested minimum
  have htighter := Consumes.turnFrom hnested (layer + 1)
  have hloosest := Consumes.turnOn hnested layer
  have hminimum : minimum ≤ layer := by
    have hmem : layer ∈ Operator.layersFrom minimum := hlayers ▸ List.mem_cons_self
    exact of_decide_eq_true (List.mem_filter.mp hmem).2
  induction hlength : s.rest.length using Nat.strongRecOn generalizing s chain with
  | _ length ih =>
      subst hlength
      show _ = iterate (turnOn nested layer) (iterate (turnFrom nested (layer + 1)) chain s).1
        (iterate (turnFrom nested (layer + 1)) chain s).2
      rw [hmany.iterate_eq chain hended, htighter.iterate_eq chain hended]
      obtain ⟨op, hop, htight⟩ | hloose := tight_or_loose s (layer + 1)
      · -- an operator of a tighter layer: both sides make the same turn
        obtain ⟨next, s', hturn, hended', hless, -⟩ := turnOn_again hnested hop chain hended
        rw [turnFrom_tight hop htight,
          turnFrom_tight hop (Nat.le_trans hminimum (Nat.le_of_succ_le htight)), hturn]
        exact ih _ hless next hended' rfl
      rw [turnFrom_loose hloose]
      show _ = iterate (turnOn nested layer) chain s
      obtain ⟨op, hop, htight⟩ | hnone := tight_or_loose s minimum
      · -- an operator of the loosest layer: behind its right operand the inner loop ends at once
        obtain ⟨next, s', hturn, hended', hless, hsettled⟩ := turnOn_again hnested hop chain hended
        have hsame : op.operator.precedence = layer := by
          have hmem := Operator.mem_layersFrom_iff.mpr htight
          rw [hlayers, List.mem_cons, Operator.layersFrom_tighter hlayers,
            Operator.mem_layersFrom_iff] at hmem
          exact hmem.resolve_right (hloose op hop)
        rw [hsame] at hturn hsettled
        have hdone : iterate (turnFrom nested (layer + 1)) next s' = (next, s') := by
          rw [htighter.iterate_eq next hended', turnFrom_loose hsettled.not_tight]
          rfl
        rw [turnFrom_tight hop htight, hsame, hloosest.iterate_eq chain hended, hturn]
        refine (ih _ hless next hended' rfl).trans ?_
        show iterate (turnOn nested layer) (iterate (turnFrom nested (layer + 1)) next s').1
          (iterate (turnFrom nested (layer + 1)) next s').2 = _
        rw [hdone]
        rfl
      · -- no operator of any of the layers
        have hon : s.current.binaryOpOn? layer = none := by
          rw [Option.eq_none_iff_forall_ne_some]
          intro op hop
          obtain ⟨hbinary, rfl⟩ := Token.binaryOpOn?_eq_some_iff.mp hop
          exact hnone op hbinary hminimum
        rw [turnFrom_loose hnone, hloosest.iterate_eq chain hended, turnOn, extendChain_none hon]
        rfl

/-- The loop for all layers from a minimum on is as good as one loop for each of them. -/
theorem iterate_turnFrom_eq_layered (layers : List Nat) {minimum : Nat} {s : ParserState}
    (hlayers : Operator.layersFrom minimum = layers) (hended : s.Ended) :
    (unary nested >>= fun operand => iterate (turnFrom nested minimum) ⟨operand, false⟩) s =
      layered nested layers s := by
  have hended' : (unary nested s).2.Ended := ((Agrees.unary hnested).reaches s).ended hended
  induction layers generalizing minimum with
  | nil =>
      show iterate (turnFrom nested minimum) ⟨(unary nested s).1, false⟩ (unary nested s).2 = _
      rw [(Consumes.turnFrom hnested minimum).iterate_eq _ hended', turnFrom_loose]
      · rfl
      · intro op _ htight
        have hmem := Operator.mem_layersFrom_iff.mpr htight
        rw [hlayers] at hmem
        cases hmem
  | cons layer tighter ih =>
      have htighter := Operator.layersFrom_tighter hlayers
      show iterate (turnFrom nested minimum) ⟨(unary nested s).1, false⟩ (unary nested s).2 =
        iterate (extendChain layer (layered nested tighter)) (layered nested tighter s).1
          (layered nested tighter s).2
      rw [iterate_turnFrom hnested hlayers _ hended', ← ih htighter.symm, turnOn, ← htighter]
      rfl

/-- **Climbing.** The single loop with a minimum parses what one loop for each layer does. -/
theorem climb_eq_layered (minimum : Nat) {s : ParserState} (hended : s.Ended) :
    climb nested minimum s = layered nested (Operator.layersFrom minimum) s := by
  induction hgap : 100 - minimum using Nat.strongRecOn generalizing minimum s with
  | _ gap ih =>
      subst hgap
      have hturn : ∀ chain (s : ParserState), s.Ended → turnFrom nested minimum chain s =
          climbTurn minimum (fun op _ => climb nested (op.operator.precedence + 1)) chain s := by
        intro chain s hended
        obtain ⟨op, hop, htight⟩ | hloose := tight_or_loose s minimum
        · rw [turnFrom_tight hop htight, climbTurn_tight hop htight]
          have hskip : (s.skip 1).Ended := hended
          have hless := op.precedence_lt
          exact extendChain_congr (ih _ (by omega) _ hskip rfl).symm
        · rw [turnFrom_loose hloose, climbTurn_loose hloose]
      have hended' : (unary nested s).2.Ended := ((Agrees.unary hnested).reaches s).ended hended
      rw [← iterate_turnFrom_eq_layered hnested _ rfl hended, climb]
      exact (iterate_congr (Consumes.turnFrom hnested minimum).reaches hturn _ hended').symm

end Nested

/-- What an expression in front of the tokens is parsed with. -/
def nestedInside : List Token → Nested
  | [] => .nothing
  | _ :: levels => nestedAlong levels

theorem NestedAgrees.inside (levels : List Token) : NestedAgrees (nestedInside levels) := by
  cases levels with
  | nil => exact .nothing
  | cons token levels => exact .along levels

theorem nestedAlong_eq (levels : List Token) :
    nestedAlong levels = around fun _ => nestedInside levels := by
  cases levels <;> rfl

/-- **Expressions are climbed**: at every depth of nesting the loop with a minimum, started with the
loosest layer, parses them. -/
theorem nestedAlong_expression (levels : List Token) (hended : s.Ended) :
    (nestedAlong levels).expression s =
      ((climb (nestedInside levels) 1 s).1.left, (climb (nestedInside levels) 1 s).2) := by
  have hclimb := climb_eq_layered (.inside levels) 1 hended
  have hlayers : Operator.layersFrom 1 = Operator.layers := rfl
  rw [hlayers] at hclimb
  have hrun : ∀ p : Parser Chain, (p >>= fun chain => pure chain.left : Parser Expr) s =
      ((p s).1.left, (p s).2) := fun _ => rfl
  rw [hclimb, nestedAlong_eq, ← hrun]
  rfl

end Parser

end BehaviorTree

/-!
## Trees without spare parentheses

Every tree is parsed back from its terminals with no parentheses but those that the layers ask for,
in front of anything that cannot go on with an expression.
-/

namespace BehaviorTree

/-- A token of this kind can go on with an expression: a further operator, an index, a cast, or the
end of the type of a cast. -/
def TokenKind.continuesExpr : TokenKind → Bool
  | .operator op => (BinaryOp.ofOperator? op).isSome
  | .punctuation mark => mark == .lBracket || mark == .question
  | .keyword word => word == .asWord
  | _ => false

section Follow

variable {us : List Terminal} (hfollow : (front us).kind.continuesExpr = false)

include hfollow

theorem EndsType.of_not_continuesExpr (ts : List Terminal) : EndsType ts us where
  question hkind := by
    rw [hkind] at hfollow
    cases hfollow
  less _ hkind := by
    rw [hkind] at hfollow
    cases hfollow

theorem EndsSuffixes.of_not_continuesExpr : EndsSuffixes us where
  bracket hkind := by
    rw [hkind] at hfollow
    cases hfollow
  cast hkind := by
    rw [hkind] at hfollow
    cases hfollow

theorem EndsLayers.of_not_continuesExpr (layers : List Nat) : EndsLayers layers us := by
  intro op _ hkind
  rw [hkind] at hfollow
  simp [TokenKind.continuesExpr, BinaryOp.ofOperator?_operator] at hfollow

end Follow

namespace Parser

open ParserState

variable {ts us : List Terminal} {expr : Expr} {s : ParserState}

theorem Accepts.nested_expression {depth : Nat} {nested : Nested} (h : Derives (.expr expr) ts)
    (hfollow : (front us).kind.continuesExpr = false) (hdeep : Deep depth nested)
    (hlength : (ts ++ us).length < depth) : Accepts nested.expression ts us (·.shape = expr) := by
  have haccepted : ChainAccepted Operator.layers expr ts := Derives.accepted h
  cases hdeep with
  | bottom => exact absurd hlength (Nat.not_lt_zero _)
  | around hinner =>
      have hchain := haccepted.layered us hinner (by omega) (by decide) (.of_not_continuesExpr hfollow ts)
        (.of_not_continuesExpr hfollow) (.of_not_continuesExpr hfollow _)
      exact Accepts.bind_nil hchain fun chain hgood => Accepts.pure hgood.1

/-- What the grammar derives for an expression is accepted in front of whatever does not go on with
it. -/
theorem Accepts.expression_of_follow (h : Derives (.expr expr) ts)
    (hfollow : (front us).kind.continuesExpr = false) :
    Accepts Parser.expression ts us (·.shape = expr) := by
  intro s hlevel hcoming
  have hlength : (ts ++ us).length < s.rest.length + 1 := by
    rw [← hcoming, List.length_map]
    omega
  exact Accepts.nested_expression h hfollow (Deep.along s.rest) hlength s hlevel hcoming

/-- **Precedence.** From every state, the terminals of a tree with the parentheses that the layers
ask for are parsed as that tree, if no token follows that can go on with an expression: just those
tokens are consumed and nothing is reported. The loop that climbs from the loosest layer does it. -/
theorem expression_printed {expr : Expr} (hwell : expr.wellFormed = true) (hended : s.Ended)
    (hcoming : s.rest.map Token.terminal = expr.printed false ++ us)
    (hfollow : (front us).kind.continuesExpr = false) :
    (expression s).1.shape = expr.shape ∧ s.Took (expr.printed false).length (expression s).2 ∧
      expression s =
        ((climb (nestedInside s.rest) 1 s).1.left, (climb (nestedInside s.rest) 1 s).2) := by
  have hderives := (Expr.printed_of_wellFormed expr hwell).whole
  obtain ⟨hshape, htook⟩ := (Accepts.expression_of_follow hderives hfollow).anywhere Flows.expression
    Agrees.expression (fun _ _ hgood hsame => hsame.symm.trans hgood) hended hcoming
  exact ⟨hshape, htook, nestedAlong_expression s.rest hended⟩

/-- A cast in front of a `<`, and a sum below a product, on two lines. -/
def spreadProduct : ParserState :=
  Parsed.initial .detached (TokenStream.ofText .detached "(n as string) <\n -xs[0] * (2 + k);").tokens .empty

theorem expression_printed_of_spreadProduct :
    let ref (text : String) : Expr := .ref .blank ⟨text, .none⟩
    let expr : Expr := .binary .blank .less (.cast .blank (ref "n") (.string .blank none))
      (.binary .blank .mul (.unary .blank .neg (.index .blank (ref "xs") (.int .blank 0)))
        (.binary .blank .add (.int .blank 2) (ref "k")))
    expr.wellFormed = true ∧ spreadProduct.Ended ∧
      spreadProduct.rest.map Token.terminal =
        expr.printed false ++ [.mark .semi, .of .endOfFile] ∧
      (front [.mark .semi, .of .endOfFile]).kind.continuesExpr = false ∧
      (expression spreadProduct).1.shape = expr ∧
      spreadProduct.Took (expr.printed false).length (expression spreadProduct).2 := by
  intro ref expr
  have hwell : expr.wellFormed = true := by decide
  have hended : spreadProduct.Ended := by
    unfold Ended
    decide +kernel
  have hcoming : spreadProduct.rest.map Token.terminal =
      expr.printed false ++ [.mark .semi, .of .endOfFile] := by
    decide +kernel
  obtain ⟨hshape, htook, -⟩ := expression_printed hwell hended hcoming rfl
  exact ⟨hwell, hended, hcoming, rfl, hshape, htook⟩

end Parser

end BehaviorTree
