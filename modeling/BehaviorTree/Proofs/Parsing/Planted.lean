import BehaviorTree.Proofs.Parsing.Errorless
import BehaviorTree.Proofs.Syntax.Forest

/-!
# Trees that a parser plants

What a parser returns are trees of its arena whose roots were not there before and to which nothing
refers yet. The one kind of change that is made to a node, another range for an expression, is made
while nothing refers to it. So the arena stays a forest, and `Plants` can be told of each parser by
itself: a parser that is given trees to work into larger ones names them, all others are left alone.
-/

namespace BehaviorTree

open SyntaxNode

namespace Arena

variable {base arena later : Arena} {node other : SyntaxNode}

/-- What the one arena holds the other holds too, and what is new refers to nothing that was there
before. -/
structure Grows (base arena : Arena) : Prop where
  held : ∀ node, base.Holds node → arena.Holds node
  size : ∀ kind, base.size kind ≤ arena.size kind
  apart : ∀ node, arena.Holds node →
    base.Holds node ∨ ∀ part ∈ node.parts, base.size part.kind ≤ part.id

theorem Grows.refl (arena : Arena) : arena.Grows arena :=
  ⟨fun _ h => h, fun _ => Nat.le_refl _, fun _ => .inl⟩

theorem Grows.trans (h : base.Grows arena) (hlater : arena.Grows later) : base.Grows later where
  held node hnode := hlater.held node (h.held node hnode)
  size kind := Nat.le_trans (h.size kind) (hlater.size kind)
  apart node hnode := by
    rcases hlater.apart node hnode with hold | hnew
    · exact h.apart node hold
    · exact .inr fun part hpart => Nat.le_trans (h.size _) (hnew part hpart)

/-- A tree of an arena whose root was not in an earlier one and is referred to by nothing. -/
structure Planted (base arena : Arena) (node : SyntaxNode) : Prop where
  held : arena.Holds node
  fresh : base.size node.kind ≤ node.id
  free : arena.Frees node

theorem Planted.grow (h : base.Planted arena node) (hlater : arena.Grows later) :
    base.Planted later node where
  held := hlater.held node h.held
  fresh := h.fresh
  free other hother hmem := by
    rcases hlater.apart other hother with hold | hnew
    · exact h.free other hold hmem
    · obtain ⟨part, hpart, hstamp⟩ := List.mem_map.mp hmem
      obtain ⟨hkind, hid⟩ := Stamp.node.inj hstamp
      have hle := hnew part hpart
      rw [hkind, hid] at hle
      exact absurd h.held.lt_size (Nat.not_lt.mpr hle)

/-! ### One more node -/

/-- The later arena has one more node, behind all others. -/
structure Adds (arena : Arena) (node : SyntaxNode) (later : Arena) : Prop where
  id_eq : node.id = arena.size node.kind
  lookup : ∀ kind id, later.node? kind id =
    if kind = node.kind ∧ id = node.id then some node else arena.node? kind id
  size : ∀ kind, later.size kind = arena.size kind + if kind = node.kind then 1 else 0

theorem map_getElem?_push {α β : Type} (items : Array α) (item : α) (f : α → β) (i : Nat) :
    (items.push item)[i]?.map f = if i = items.size then some (f item) else items[i]?.map f := by
  rw [Array.getElem?_push]
  split <;> rfl

theorem adds_addExpr (range : SourceRange) {build : Origin → Expr}
    (horigin : ∀ origin, (build origin).origin = origin) :
    arena.Adds (.expr (arena.addExpr range build).1) (arena.addExpr range build).2 := by
  have hid : (SyntaxNode.expr (arena.addExpr range build).1).id = arena.exprs.size :=
    congrArg Origin.id (horigin _)
  refine ⟨hid, fun kind id => ?_, fun kind => by cases kind <;> simp [Arena.size, addExpr, SyntaxNode.kind]⟩
  rw [hid]
  cases kind <;> simp [node?, addExpr, SyntaxNode.kind, map_getElem?_push]

theorem adds_addType (range : SourceRange) {build : Origin → TypeExpr}
    (horigin : ∀ origin, (build origin).origin = origin) :
    arena.Adds (.type (arena.addType range build).1) (arena.addType range build).2 := by
  have hid : (SyntaxNode.type (arena.addType range build).1).id = arena.types.size :=
    congrArg Origin.id (horigin _)
  refine ⟨hid, fun kind id => ?_, fun kind => by cases kind <;> simp [Arena.size, addType, SyntaxNode.kind]⟩
  rw [hid]
  cases kind <;> simp [node?, addType, SyntaxNode.kind, map_getElem?_push]

theorem adds_addStmt (range : SourceRange) {build : Origin → Stmt}
    (horigin : ∀ origin, (build origin).head.origin = origin) :
    arena.Adds (.stmt (arena.addStmt range build).1) (arena.addStmt range build).2 := by
  have hid : (SyntaxNode.stmt (arena.addStmt range build).1).id = arena.stmts.size :=
    congrArg Origin.id (horigin _)
  refine ⟨hid, fun kind id => ?_, fun kind => by cases kind <;> simp [Arena.size, addStmt, SyntaxNode.kind]⟩
  rw [hid]
  cases kind <;> simp [node?, addStmt, SyntaxNode.kind, map_getElem?_push]

theorem adds_addDecl (range : SourceRange) {build : Origin → Decl}
    (horigin : ∀ origin, (build origin).head.origin = origin) :
    arena.Adds (.decl (arena.addDecl range build).1) (arena.addDecl range build).2 := by
  have hid : (SyntaxNode.decl (arena.addDecl range build).1).id = arena.decls.size :=
    congrArg Origin.id (horigin _)
  refine ⟨hid, fun kind id => ?_, fun kind => by cases kind <;> simp [Arena.size, addDecl, SyntaxNode.kind]⟩
  rw [hid]
  cases kind <;> simp [node?, addDecl, SyntaxNode.kind, map_getElem?_push]

namespace Adds

variable (h : arena.Adds node later)
include h

theorem new : later.Holds node := by
  rw [Holds, h.lookup, if_pos ⟨rfl, rfl⟩]

theorem held (hother : arena.Holds other) : later.Holds other := by
  have hlt := hother.lt_size
  rw [Holds, h.lookup, if_neg]
  · exact hother
  · rintro ⟨hkind, hid⟩
    rw [hid, hkind, h.id_eq] at hlt
    exact Nat.lt_irrefl _ hlt

theorem old_or_new (hother : later.Holds other) : arena.Holds other ∨ other = node := by
  rw [Holds, h.lookup] at hother
  split at hother
  · exact .inr (Option.some.inj hother).symm
  · exact .inl hother

/-- No node of the earlier arena is the new one. -/
theorem stamp_ne (hother : arena.Holds other) : other.stamp ≠ node.stamp := by
  intro hstamp
  obtain ⟨hkind, hid⟩ := Stamp.node.inj hstamp
  have hlt := hother.lt_size
  rw [hid, hkind, h.id_eq] at hlt
  exact Nat.lt_irrefl _ hlt

theorem grows (hbase : base.Grows arena)
    (hparts : ∀ part ∈ node.parts, base.Planted arena part) : base.Grows later where
  held other hother := h.held (hbase.held other hother)
  size kind := by
    rw [h.size]
    exact Nat.le_add_right_of_le (hbase.size kind)
  apart other hother := by
    rcases h.old_or_new hother with hold | rfl
    · exact hbase.apart other hold
    · exact .inr fun part hpart => (hparts part hpart).fresh

/-- A new node that nothing referred to the parts of keeps the arena a forest. -/
theorem isForest (hforest : arena.IsForest)
    (hparts : ∀ part ∈ node.parts, base.Planted arena part)
    (honce : (node.parts.map SyntaxNode.stamp).Nodup) (hshaped : node.Shaped) :
    later.IsForest := by
  have hheld : ∀ part ∈ node.parts, arena.Holds part := fun part hpart => (hparts part hpart).held
  constructor
  case numbered =>
    intro kind id hid
    by_cases hnew : kind = node.kind ∧ id = node.id
    · exact ⟨node, h.new, hnew.1.symm, hnew.2.symm⟩
    · have hold : id < arena.size kind := by
        rw [h.size] at hid
        split at hid
        · rename_i hkind
          have hne : id ≠ node.id := fun heq => hnew ⟨hkind, heq⟩
          rw [h.id_eq, ← hkind] at hne
          omega
        · exact hid
      obtain ⟨other, hother, hkind, hid⟩ := hforest.numbered kind id hold
      exact ⟨other, h.held hother, hkind, hid⟩
  case closed =>
    intro other hother part hpart
    rcases h.old_or_new hother with hold | rfl
    · exact h.held (hforest.closed other hold part hpart)
    · exact h.held (hheld part hpart)
  case parts =>
    intro other hother
    rcases h.old_or_new hother with hold | rfl
    · exact hforest.parts other hold
    · exact honce
  case parent =>
    intro first second part part' hfirst hsecond hpart hpart' hstamp
    rcases h.old_or_new hfirst with hfirst | rfl <;> rcases h.old_or_new hsecond with hsecond | rfl
    · exact hforest.parent first second part part' hfirst hsecond hpart hpart' hstamp
    · exact ((hparts part' hpart').free first hfirst
        (hstamp ▸ List.mem_map_of_mem hpart)).elim
    · exact ((hparts part hpart).free second hsecond
        (hstamp ▸ List.mem_map_of_mem hpart')).elim
    · rfl
  case ordered =>
    intro other hother
    rcases h.old_or_new hother with hold | rfl
    · exact hforest.ordered other hold
    · intro inner hinside hkind
      have hlt := (hforest.holds_inside hheld hinside).lt_size
      rw [h.id_eq, ← hkind]
      exact hlt
  case shaped =>
    intro other hother
    rcases h.old_or_new hother with hold | rfl
    · exact hforest.shaped other hold
    · exact hshaped

theorem planted (hforest : arena.IsForest) (hbase : base.Grows arena)
    (hparts : ∀ part ∈ node.parts, base.Planted arena part) : base.Planted later node where
  held := h.new
  fresh := by
    rw [h.id_eq]
    exact hbase.size node.kind
  free other hother hmem := by
    obtain ⟨part, hpart, hstamp⟩ := List.mem_map.mp hmem
    rcases h.old_or_new hother with hold | rfl
    · exact h.stamp_ne (hforest.closed other hold part hpart) hstamp
    · exact h.stamp_ne (hparts part hpart).held hstamp

end Adds

/-! ### Another range for an expression -/

/-- In the later arena another node with the same parts stands in the place of a node. -/
structure Replaces (arena : Arena) (node other : SyntaxNode) (later : Arena) : Prop where
  stamp_eq : other.stamp = node.stamp
  parts_eq : other.parts = node.parts
  lookup : ∀ kind id, later.node? kind id =
    if kind = node.kind ∧ id = node.id then some other else arena.node? kind id
  size : ∀ kind, later.size kind = arena.size kind

theorem map_getElem?_setIfInBounds {α β : Type} {items : Array α} {i : Nat} (hi : i < items.size)
    (item : α) (f : α → β) (j : Nat) : (items.setIfInBounds i item)[j]?.map f =
      if j = i then some (f item) else items[j]?.map f := by
  rw [Array.getElem?_setIfInBounds]
  by_cases hj : i = j
  · subst hj
    simp [hi]
  · rw [if_neg hj, if_neg (Ne.symm hj)]

theorem replaces_widenExpr {expr : Expr} (hexpr : arena.Holds (.expr expr)) (range : SourceRange) :
    arena.Replaces (.expr expr) (.expr (expr.withRange range)) (arena.widenExpr expr range).2 where
  stamp_eq := congrArg (Stamp.node .expr) (expr.id_withRange range)
  parts_eq := by cases expr <;> rfl
  size kind := by cases kind <;> simp [Arena.size, widenExpr]
  lookup kind id := by
    have hlt : expr.id < arena.exprs.size := hexpr.lt_size
    have hid : (SyntaxNode.expr expr).id = expr.id := rfl
    rw [hid]
    cases kind <;> simp [node?, widenExpr, SyntaxNode.kind, map_getElem?_setIfInBounds hlt]

namespace Replaces

variable (h : arena.Replaces node other later)
include h

theorem new : later.Holds other := by
  obtain ⟨hkind, hid⟩ := Stamp.node.inj h.stamp_eq
  rw [Holds, h.lookup, if_pos ⟨hkind, hid⟩]

theorem held {third : SyntaxNode} (hthird : arena.Holds third) (hne : third.stamp ≠ node.stamp) :
    later.Holds third := by
  rw [Holds, h.lookup, if_neg]
  · exact hthird
  · rintro ⟨hkind, hid⟩
    exact hne (by rw [stamp, stamp, hkind, hid])

theorem old_or_new {third : SyntaxNode} (hthird : later.Holds third) :
    (arena.Holds third ∧ third.stamp ≠ node.stamp) ∨ third = other := by
  rw [Holds, h.lookup] at hthird
  split at hthird
  · exact .inr (Option.some.inj hthird).symm
  · rename_i hne
    refine .inl ⟨hthird, fun hstamp => hne ?_⟩
    obtain ⟨hkind, hid⟩ := Stamp.node.inj hstamp
    exact ⟨hkind, hid⟩

theorem inside_iff {inner : SyntaxNode} : Inside inner other ↔ Inside inner node := by
  constructor
  · intro hinside
    cases hinside with
    | part hpart => exact .part (h.parts_eq ▸ hpart)
    | deeper hpart hdeeper => exact .deeper (h.parts_eq ▸ hpart) hdeeper
  · intro hinside
    cases hinside with
    | part hpart => exact .part (h.parts_eq.symm ▸ hpart)
    | deeper hpart hdeeper => exact .deeper (h.parts_eq.symm ▸ hpart) hdeeper

theorem grows (hbase : base.Grows arena) (hnode : base.Planted arena node) : base.Grows later where
  held third hthird := by
    refine h.held (hbase.held third hthird) fun hstamp => ?_
    obtain ⟨hkind, hid⟩ := Stamp.node.inj hstamp
    have hlt := hthird.lt_size
    rw [hid, hkind] at hlt
    exact absurd hnode.fresh (Nat.not_le.mpr hlt)
  size kind := by
    rw [h.size]
    exact hbase.size kind
  apart third hthird := by
    rcases h.old_or_new hthird with ⟨hold, -⟩ | rfl
    · exact hbase.apart third hold
    · rw [h.parts_eq]
      rcases hbase.apart node hnode.held with hbefore | hnew
      · exact absurd hnode.fresh (Nat.not_le.mpr hbefore.lt_size)
      · exact .inr hnew

/-- A node that nothing refers to may be replaced in a forest. -/
theorem isForest (hforest : arena.IsForest) (hnode : base.Planted arena node)
    (hshaped : other.Shaped) : later.IsForest := by
  have hpart : ∀ third part, arena.Holds third → part ∈ third.parts → later.Holds part := by
    intro third part hthird hmem
    exact h.held (hforest.closed third hthird part hmem) fun hstamp =>
      hnode.free third hthird (hstamp ▸ List.mem_map_of_mem hmem)
  constructor
  case numbered =>
    intro kind id hid
    rw [h.size] at hid
    obtain ⟨third, hthird, hkind, hid⟩ := hforest.numbered kind id hid
    by_cases hstamp : third.stamp = node.stamp
    · obtain ⟨hkind', hid'⟩ := Stamp.node.inj (h.stamp_eq.trans hstamp.symm)
      exact ⟨other, h.new, hkind'.trans hkind, hid'.trans hid⟩
    · exact ⟨third, h.held hthird hstamp, hkind, hid⟩
  case closed =>
    intro third hthird part hmem
    rcases h.old_or_new hthird with ⟨hold, -⟩ | rfl
    · exact hpart third part hold hmem
    · exact hpart node part hnode.held (h.parts_eq ▸ hmem)
  case parts =>
    intro third hthird
    rcases h.old_or_new hthird with ⟨hold, -⟩ | rfl
    · exact hforest.parts third hold
    · exact h.parts_eq.symm ▸ hforest.parts node hnode.held
  case parent =>
    intro first second part part' hfirst hsecond hmem hmem' hstamp
    rcases h.old_or_new hfirst with ⟨hfirst, hne⟩ | rfl <;>
      rcases h.old_or_new hsecond with ⟨hsecond, hne'⟩ | rfl
    · exact hforest.parent first second part part' hfirst hsecond hmem hmem' hstamp
    · rw [h.parts_eq] at hmem'
      have hsame := hforest.parent first node part part' hfirst hnode.held hmem hmem' hstamp
      exact (hne (congrArg stamp hsame)).elim
    · rw [h.parts_eq] at hmem
      have hsame := hforest.parent node second part part' hnode.held hsecond hmem hmem' hstamp
      exact (hne' (congrArg stamp hsame.symm)).elim
    · rfl
  case ordered =>
    intro third hthird
    rcases h.old_or_new hthird with ⟨hold, -⟩ | rfl
    · exact hforest.ordered third hold
    · intro inner hinside hkind
      obtain ⟨hkind', hid'⟩ := Stamp.node.inj h.stamp_eq
      rw [hid']
      exact hforest.ordered node hnode.held inner (h.inside_iff.mp hinside) (hkind.trans hkind')
  case shaped =>
    intro third hthird
    rcases h.old_or_new hthird with ⟨hold, -⟩ | rfl
    · exact hforest.shaped third hold
    · exact hshaped

theorem planted (hnode : base.Planted arena node) : base.Planted later other where
  held := h.new
  fresh := by
    obtain ⟨hkind, hid⟩ := Stamp.node.inj h.stamp_eq
    rw [hkind, hid]
    exact hnode.fresh
  free third hthird hmem := by
    rw [h.stamp_eq] at hmem
    rcases h.old_or_new hthird with ⟨hold, -⟩ | rfl
    · exact hnode.free third hold hmem
    · exact hnode.free node hnode.held (h.parts_eq ▸ hmem)

end Replaces

/-! ### Groves -/

/-- Trees of a forest, no two of them the same, that were planted since an earlier arena. -/
structure Grove (base arena : Arena) (trees : List SyntaxNode) : Prop where
  grows : base.Grows arena
  forest : arena.IsForest
  planted : ∀ node ∈ trees, base.Planted arena node
  distinct : (trees.map SyntaxNode.stamp).Nodup

namespace Grove

variable {trees more : List SyntaxNode}

theorem start (hforest : arena.IsForest) : arena.Grove arena [] :=
  ⟨.refl arena, hforest, by simp, .nil⟩

theorem sublist (h : base.Grove arena trees) (hsublist : more.Sublist trees) :
    base.Grove arena more :=
  ⟨h.grows, h.forest, fun node hnode => h.planted node (hsublist.subset hnode),
    h.distinct.sublist (hsublist.map _)⟩

/-- What is planted later comes to what was there. -/
theorem append (h : base.Grove arena trees) (hlater : arena.Grove later more) :
    base.Grove later (trees ++ more) where
  grows := h.grows.trans hlater.grows
  forest := hlater.forest
  planted node hnode := by
    rcases List.mem_append.mp hnode with hold | hnew
    · exact (h.planted node hold).grow hlater.grows
    · have hplanted := hlater.planted node hnew
      exact ⟨hplanted.held, Nat.le_trans (h.grows.size _) hplanted.fresh, hplanted.free⟩
  distinct := by
    rw [List.map_append, List.nodup_append]
    refine ⟨h.distinct, hlater.distinct, fun stamp hold stamp' hnew heq => ?_⟩
    obtain ⟨node, hnode, rfl⟩ := List.mem_map.mp hold
    obtain ⟨other, hother, rfl⟩ := List.mem_map.mp hnew
    obtain ⟨hkind, hid⟩ := Stamp.node.inj heq
    have hlt := (h.planted node hnode).held.lt_size
    rw [hkind, hid] at hlt
    exact absurd (hlater.planted other hother).fresh (Nat.not_le.mpr hlt)

/-- A new node is made of trees of a grove. -/
theorem add (h : base.Grove arena trees) (hadds : arena.Adds node later)
    (hparts : node.parts.Sublist trees) (hshaped : node.Shaped) : base.Grove later [node] := by
  have hgrove := h.sublist hparts
  exact ⟨hadds.grows h.grows hgrove.planted,
    hadds.isForest h.forest hgrove.planted hgrove.distinct hshaped,
    by simpa using hadds.planted h.forest h.grows hgrove.planted, by simp⟩

theorem replace (h : base.Grove arena [node]) (hreplaces : arena.Replaces node other later)
    (hshaped : node.Shaped → other.Shaped) : base.Grove later [other] := by
  have hnode := h.planted node List.mem_cons_self
  exact ⟨hreplaces.grows h.grows hnode,
    hreplaces.isForest h.forest hnode (hshaped (h.forest.shaped node hnode.held)),
    by simpa using hreplaces.planted hnode, by simp⟩

/-- Interning changes no node. -/
theorem intern (h : base.Grove arena trees) (text : String) :
    base.Grove (arena.intern text) trees := by
  obtain ⟨⟨hheld, hsize, hapart⟩, ⟨hnumbered, hclosed, hparts, hparent, hordered, hshaped⟩, hplanted,
    hdistinct⟩ := h
  unfold Arena.intern
  split
  · exact ⟨⟨hheld, hsize, hapart⟩, ⟨hnumbered, hclosed, hparts, hparent, hordered, hshaped⟩, hplanted,
      hdistinct⟩
  · refine ⟨⟨hheld, hsize, hapart⟩, ⟨hnumbered, hclosed, hparts, hparent, hordered, hshaped⟩,
      fun node hnode => ?_, hdistinct⟩
    exact ⟨(hplanted node hnode).held, (hplanted node hnode).fresh, (hplanted node hnode).free⟩

end Grove

end Arena

namespace Parser

variable {α β : Type} {held more : List SyntaxNode} {p : Parser α} {f : α → Parser β}
  {good good' : α → Prop} {roots roots' : α → List SyntaxNode} {goal : β → Prop}
  {trees : β → List SyntaxNode}

/-- Given the trees `held`, which are not to be used again, the parser returns something `good`,
and the trees in it are `roots`. -/
def Plants (held : List SyntaxNode) (p : Parser α) (good : α → Prop)
    (roots : α → List SyntaxNode) : Prop :=
  ∀ (base : Arena) (s : ParserState), base.Grove s.arena held →
    good (p s).1 ∧ base.Grove (p s).2.arena (roots (p s).1)

/-- The parser leaves the trees alone and returns none. -/
def Barren (p : Parser α) : Prop := Plants [] p (fun _ => True) fun _ => []

theorem Plants.mono (hp : Plants held p good roots) (hgood : ∀ a, good a → good' a)
    (hroots : ∀ a, good a → (roots' a).Sublist (roots a)) : Plants held p good' roots' := by
  intro base s hheld
  obtain ⟨ha, hgrove⟩ := hp base s hheld
  exact ⟨hgood _ ha, hgrove.sublist (hroots _ ha)⟩

theorem Plants.pure {a : α} (ha : good a) (hroots : (roots a).Sublist held) :
    Plants held (pure a) good roots :=
  fun _ _ hheld => ⟨ha, hheld.sublist hroots⟩

theorem Barren.pure (a : α) : Barren (Pure.pure a : Parser α) :=
  Plants.pure trivial (List.nil_sublist _)

/-- One parser behind another that uses the trees of the first. -/
theorem Plants.thread (hp : Plants held p good roots)
    (hf : ∀ a, good a → Plants (roots a) (f a) goal trees) :
    Plants held (p >>= f) goal trees := by
  intro base s hheld
  obtain ⟨ha, hgrove⟩ := hp base s hheld
  exact hf (p s).1 ha base (p s).2 hgrove

/-- One parser behind another. The first leaves alone what is held for the second. -/
theorem Plants.bind (hp : Plants [] p good roots)
    (hf : ∀ a, good a → Plants (held ++ roots a) (f a) goal trees) :
    Plants held (p >>= f) goal trees := by
  intro base s hheld
  obtain ⟨ha, hgrove⟩ := hp s.arena s (.start hheld.forest)
  exact hf (p s).1 ha base (p s).2 (hheld.append hgrove)

theorem Plants.after (hp : Barren p) (hf : ∀ a, Plants held (f a) goal trees) :
    Plants held (p >>= f) goal trees :=
  Plants.bind hp fun a _ => (List.append_nil held).symm ▸ hf a

theorem Plants.map {g : α → β} (hp : Plants held p good roots) (hgood : ∀ a, good a → goal (g a))
    (htrees : ∀ a, good a → (trees (g a)).Sublist (roots a)) : Plants held (g <$> p) goal trees :=
  Plants.thread (f := fun a => Pure.pure (g a)) hp fun a ha => .pure (hgood a ha) (htrees a ha)

theorem Barren.bind (hp : Barren p) (hf : ∀ a, Barren (f a)) : Barren (p >>= f) :=
  Plants.after hp hf

/-! ### Steps -/

/-- A step that leaves the arena as it is. -/
theorem Barren.of_same (h : ∀ s : ParserState, (p s).2.arena = s.arena) : Barren p :=
  fun _ s hheld => ⟨trivial, (h s).symm ▸ hheld⟩

/-- What is read off the state and does not change it is barren. -/
theorem Barren.read (value : ParserState → α) : Barren fun state => (value state, state) :=
  .of_same fun _ => rfl

theorem Barren.peek : Barren peek := .read _

theorem Barren.peekSecond : Barren peekSecond := .read _

theorem Barren.rangeSince (start : SourceRange) : Barren (rangeSince start) := .read _

theorem Barren.emptyHere : Barren emptyHere := .read _

theorem Barren.atPunctuation (mark : Punctuation) : Barren (atPunctuation mark) := .read _

theorem Barren.atEnd : Barren atEnd := .read _

theorem Barren.listBreaksOff (inBody : Bool) : Barren (listBreaksOff inBody) := .read _

theorem Barren.intern (text : String) : Barren (intern text) :=
  fun _ _ hheld => ⟨trivial, hheld.intern text⟩

theorem Barren.nameOf (token : Token) : Barren (nameOf token) :=
  (Barren.intern token.text).bind fun _ => .pure _

theorem Barren.report (diagnostic : Diagnostic) : Barren (report diagnostic) := .of_same fun _ => rfl

theorem arena_reportOnce (s : ParserState) (diagnostic : Diagnostic) :
    (s.reportOnce diagnostic).arena = s.arena := by
  unfold ParserState.reportOnce
  split <;> rfl

theorem Barren.reportOnce (diagnostic : Diagnostic) : Barren (reportOnce diagnostic) :=
  .of_same fun s => arena_reportOnce s diagnostic

theorem Barren.skip (count : List Token → Nat) : Barren (skip count) := .of_same fun _ => rfl

theorem Barren.advance : Barren advance := by
  refine .of_same fun s => ?_
  unfold Parser.advance
  dsimp only
  split <;> rfl

theorem Barren.accept (test : Token → Bool) : Barren (accept test) := by
  refine Barren.peek.bind fun token => ?_
  split
  · exact Barren.advance.bind fun _ => .pure _
  · exact .pure _

theorem Barren.acceptPunctuation (mark : Punctuation) : Barren (acceptPunctuation mark) := .accept _

theorem Barren.acceptOperator (op : Operator) : Barren (acceptOperator op) := .accept _

/-! ### Making nodes -/

/-- A step that adds a node made of trees that are held. -/
theorem Plants.allocate {node : α → SyntaxNode}
    (hadds : ∀ s : ParserState, s.arena.Adds (node (p s).1) (p s).2.arena)
    (hparts : ∀ s, (node (p s).1).parts.Sublist held) (hshaped : ∀ s, (node (p s).1).Shaped)
    (hgood : ∀ s, good (p s).1) : Plants held p good fun a => [node a] :=
  fun _ s hheld => ⟨hgood s, hheld.add (hadds s) (hparts s) (hshaped s)⟩

theorem Plants.newExpr {range : SourceRange} {build : Origin → Expr} {good : Expr → Prop}
    (hparts : ∀ origin, (build origin).parts.Sublist held) (hgood : ∀ origin, good (build origin))
    (horigin : ∀ origin, (build origin).origin = origin)
    (hshaped : ∀ origin, (SyntaxNode.expr (build origin)).Shaped) :
    Plants held (newExpr range build) good fun expr => [.expr expr] :=
  .allocate (fun _ => Arena.adds_addExpr range horigin) (fun _ => hparts _) (fun _ => hshaped _)
    fun _ => hgood _

theorem Plants.newType {range : SourceRange} {build : Origin → TypeExpr} {good : TypeExpr → Prop}
    (hparts : ∀ origin, (build origin).parts.Sublist held) (hgood : ∀ origin, good (build origin))
    (horigin : ∀ origin, (build origin).origin = origin)
    (hshaped : ∀ origin, (SyntaxNode.type (build origin)).Shaped) :
    Plants held (newType range build) good fun type => [.type type] :=
  .allocate (fun _ => Arena.adds_addType range horigin) (fun _ => hparts _) (fun _ => hshaped _)
    fun _ => hgood _

theorem Plants.newStmt {range : SourceRange} {build : Origin → Stmt}
    (hparts : ∀ origin, (build origin).parts.Sublist held)
    (horigin : ∀ origin, (build origin).head.origin = origin)
    (hshaped : ∀ origin, (SyntaxNode.stmt (build origin)).Shaped) :
    Plants held (newStmt range build) (fun _ => True) fun stmt => [.stmt stmt] :=
  .allocate (fun _ => Arena.adds_addStmt range horigin) (fun _ => hparts _) (fun _ => hshaped _)
    fun _ => trivial

theorem Plants.newDecl {range : SourceRange} {build : Origin → Decl}
    (hparts : ∀ origin, (build origin).parts.Sublist held)
    (horigin : ∀ origin, (build origin).head.origin = origin) :
    Plants held (newDecl range build) (fun _ => True) fun decl => [.decl decl] :=
  .allocate (fun _ => Arena.adds_addDecl range horigin) (fun _ => hparts _) (fun _ => trivial)
    fun _ => trivial

theorem Plants.widenExpr {expr : Expr} {range : SourceRange} :
    Plants [.expr expr] (widenExpr expr range) (fun _ => True) fun wider => [.expr wider] := by
  intro base s hheld
  have hexpr : s.arena.Holds (.expr expr) := (hheld.planted _ List.mem_cons_self).held
  refine ⟨trivial, hheld.replace (Arena.replaces_widenExpr hexpr range) fun hshaped => ?_⟩
  cases expr <;> exact hshaped

theorem Plants.missingExpr : Plants [] missingExpr (fun _ => True) fun expr => [.expr expr] :=
  .after .emptyHere fun _ => .newExpr (fun _ => List.nil_sublist _) (fun _ => trivial) (fun _ => rfl)
    fun _ => trivial

theorem Plants.missingType : Plants [] missingType (fun _ => True) fun type => [.type type] :=
  .after .emptyHere fun _ => .newType (fun _ => List.nil_sublist _) (fun _ => trivial) (fun _ => rfl)
    fun _ => trivial

/-! ### Loops -/

theorem Plants.iterate {body : α → Parser (Turn α)} (good : α → Prop) (roots : α → List SyntaxNode)
    (value : α) (hvalue : good value)
    (hbody : ∀ v, good v →
      Plants (roots v) (body v) (fun turn => good turn.value) fun turn => roots turn.value) :
    Plants (roots value) (iterate body value) good roots := by
  have halong : ∀ (turns : List Token) (v : α), good v →
      Plants (roots v) (iterateAlong body turns v) good roots := by
    intro turns
    induction turns with
    | nil =>
        intro v hv
        refine Plants.thread (hbody v hv) fun turn hturn => ?_
        cases turn with
        | again last => exact Plants.pure hturn (List.Sublist.refl _)
        | done last => exact Plants.pure hturn (List.Sublist.refl _)
    | cons token turns ih =>
        intro v hv
        refine Plants.thread (hbody v hv) fun turn hturn => ?_
        cases turn with
        | again next => exact ih next hturn
        | done last => exact Plants.pure hturn (List.Sublist.refl _)
  exact fun base s => halong s.rest value hvalue base s

theorem Barren.iterate {body : α → Parser (Turn α)} (hbody : ∀ v, Barren (body v)) (value : α) :
    Barren (iterate body value) :=
  Plants.iterate (fun _ => True) (fun _ => []) value trivial fun v _ => hbody v

/-! ### Recovery -/

theorem Barren.expected (what : String) : Barren (expected what) :=
  Barren.peek.bind fun _ => .reportOnce _

theorem Barren.expectedWithHelp (what help : String) : Barren (expectedWithHelp what help) :=
  Barren.peek.bind fun _ => .reportOnce _

theorem Barren.synchronize (set : RecoverySet) : Barren (synchronize set) := .skip _

theorem Barren.missing (what context : String) (insertion : Option String) :
    Barren (missing what context insertion) := by
  refine .of_same fun s => ?_
  unfold Parser.missing
  dsimp only
  split <;> exact arena_reportOnce s _

theorem Barren.expectPunctuation (mark : Punctuation) (context : String) (set : RecoverySet) :
    Barren (expectPunctuation mark context set) := by
  refine (Barren.acceptPunctuation mark).bind fun accepted => ?_
  split
  · exact .pure _
  · refine (Barren.missing _ _ _).bind fun recovery => ?_
    cases recovery with
    | insert => exact .pure _
    | skip => exact (Barren.synchronize set).bind fun _ => .acceptPunctuation mark

theorem Barren.expectSemi (context : String) (set : RecoverySet) : Barren (expectSemi context set) := by
  refine (Barren.acceptPunctuation .semi).bind fun accepted => ?_
  split
  · exact .pure _
  · refine (Barren.missing _ _ _).bind fun recovery => ?_
    cases recovery with
    | insert => exact .pure _
    | skip =>
        refine (Barren.synchronize set).bind fun _ => ?_
        exact (Barren.acceptPunctuation .semi).bind fun _ => .pure _

theorem Barren.expectOperator (op : Operator) (context : String) (set : RecoverySet) :
    Barren (expectOperator op context set) := by
  refine (Barren.acceptOperator op).bind fun accepted => ?_
  split
  · exact .pure _
  · refine (Barren.missing _ _ _).bind fun _ => ?_
    exact (Barren.synchronize set).bind fun _ => .acceptOperator op

theorem Barren.expectName (what : String) (set : RecoverySet) : Barren (expectName what set) := by
  refine Barren.peek.bind fun found => ?_
  split
  · exact Barren.advance.bind fun _ => (Barren.nameOf found).bind fun _ => .pure _
  · split
    · refine (Barren.expectedWithHelp _ _).bind fun _ => ?_
      split
      · exact (Barren.synchronize set).bind fun _ => .pure _
      · exact Barren.advance.bind fun _ => (Barren.nameOf found).bind fun _ => .pure _
    · exact (Barren.expected _).bind fun _ => (Barren.synchronize set).bind fun _ => .pure _

theorem Barren.unclosedList (context : String) : Barren (unclosedList context) :=
  (Barren.missing _ _ _).bind fun _ => .pure _

theorem Barren.skipForeign (word : ForeignWord) : Barren (skipForeign word) := by
  refine Barren.peek.bind fun _ => (Barren.reportOnce _).bind fun _ => Barren.advance.bind fun _ => ?_
  refine .iterate (fun _ => (Barren.skip _).bind fun _ => (Barren.atPunctuation _).bind fun opens => ?_) ()
  split
  · refine (Barren.skip _).bind fun _ => Barren.peek.bind fun next => ?_
    split
    · exact Barren.advance.bind fun _ => .pure _
    · exact .pure _
  · exact (Barren.acceptPunctuation _).bind fun _ => .pure _

theorem Barren.danglingDocs (range : Option SourceRange) : Barren (danglingDocs range) := by
  cases range with
  | none => exact .pure _
  | some range => exact .report _

end Parser

end BehaviorTree
