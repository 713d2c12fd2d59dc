import Mathlib.Data.List.Nodup
import BehaviorTree.Proofs.Names.Scopes

/-!
# Symbol tables as stacks of maps

A symbol table keeps every scope that was ever opened, each with its parent. What it answers is what
a stack of maps answers that forgets a map when it is popped. Main result: for every sequence of
steps the answers are the same, and symbols and closed scopes stay as they are.
-/

namespace BehaviorTree

/-! ## Steps and answers -/

/-- A step on a symbol table. -/
inductive SymbolStep
  | enter (kind : ScopeKind)
  | exit
  | define (name : String) (kind : SymbolKind) (range : SourceRange)
  | lookup (name : String)
  | lookupLocal (name : String)
  | lookupGlobal (name : String)
  | globals

inductive SymbolAnswer
  /-- A scope was opened. -/
  | opened (scope : Nat)
  | closed
  | defined (id : Nat)
  /-- The name has a symbol in the scope already. -/
  | taken (earlier : Nat)
  | found (id : Option Nat)
  | listed (symbols : List (Nat × String))
  deriving DecidableEq

def SymbolAnswer.defined? : SymbolAnswer → Option Nat
  | defined id => some id
  | _ => none

namespace SymbolTable

/-- The answer to a step, and the table behind it. -/
def step (table : SymbolTable) : SymbolStep → SymbolAnswer × SymbolTable
  | .enter kind => (.opened (table.enter kind).current, table.enter kind)
  | .exit => (.closed, table.exit)
  | .define name kind range =>
    match table.define name kind range with
    | .error earlier => (.taken earlier, table)
    | .ok next => (.defined table.size, next)
  | .lookup name => (.found (table.lookup name), table)
  | .lookupLocal name => (.found (table.lookupLocal name), table)
  | .lookupGlobal name => (.found (table.lookupGlobal name), table)
  | .globals => (.listed table.globals, table)

/-- The answers to steps that are taken one after the other. -/
def answers (table : SymbolTable) : List SymbolStep → List SymbolAnswer
  | [] => []
  | step :: rest => (table.step step).1 :: (table.step step).2.answers rest

/-- The table behind some steps. -/
def after (table : SymbolTable) (steps : List SymbolStep) : SymbolTable :=
  steps.foldl (fun table step => (table.step step).2) table

end SymbolTable

/-- A stack of maps from names to symbols, each in the order of insertion. -/
structure ScopeStack where
  top : Table Nat
  below : List (Table Nat)
  /-- The number of symbols that were defined. -/
  defined : Nat
  /-- The number of maps that were pushed, the first one included. -/
  opened : Nat

namespace ScopeStack

def empty : ScopeStack := ⟨.empty, [], 0, 1⟩

def bottom (stack : ScopeStack) : Table Nat := stack.below.getLastD stack.top

/-- The answer to a step, and the stack behind it. -/
def step (stack : ScopeStack) : SymbolStep → SymbolAnswer × ScopeStack
  | .enter _ => (.opened stack.opened,
      { stack with top := .empty, below := stack.top :: stack.below, opened := stack.opened + 1 })
  | .exit =>
    match stack.below with
    | [] => (.closed, stack)
    | top :: below => (.closed, { stack with top, below })
  | .define name _ _ =>
    match stack.top.define name stack.defined with
    | .error earlier => (.taken earlier, stack)
    | .ok top => (.defined stack.defined, { stack with top, defined := stack.defined + 1 })
  | .lookup name => (.found ((stack.top :: stack.below).findSome? (·.find? name)), stack)
  | .lookupLocal name => (.found (stack.top.find? name), stack)
  | .lookupGlobal name => (.found (stack.bottom.find? name), stack)
  | .globals => (.listed (stack.bottom.entries.map fun entry => (entry.2, entry.1)), stack)

def answers (stack : ScopeStack) : List SymbolStep → List SymbolAnswer
  | [] => []
  | step :: rest => (stack.step step).1 :: (stack.step step).2.answers rest

end ScopeStack

namespace SymbolTable

variable {table : SymbolTable} {name : String} {kind : SymbolKind} {range : SourceRange}
  {scope id : Nat}

/-! ## Scopes and their parents -/

/-- The scope around another one. -/
def parent? (table : SymbolTable) (scope : Nat) : Option Nat :=
  (table.scope? scope).bind Scope.parent

/-- Scopes that lie in each other, up to that of the module. -/
inductive Nested (table : SymbolTable) : List Nat → Prop
  | module (hparent : table.parent? moduleScope = none) : Nested table [moduleScope]
  | inner {scope outer : Nat} {rest : List Nat} (hparent : table.parent? scope = some outer)
    (hrest : Nested table (outer :: rest)) : Nested table (scope :: outer :: rest)

/-- The search for a name, from a scope outwards along the parents. -/
inductive Search (table : SymbolTable) (name : String) : Nat → Option Nat → Prop
  | found {scope id : Nat} (hfound : table.lookupIn name scope = some id) :
    Search table name scope (some id)
  | missing {scope : Nat} (hmissing : table.lookupIn name scope = none)
    (hparent : table.parent? scope = none) : Search table name scope none
  | outer {scope outer : Nat} {result : Option Nat} (hmissing : table.lookupIn name scope = none)
    (hparent : table.parent? scope = some outer) (hrest : Search table name outer result) :
    Search table name scope result

theorem Search.unique {result other : Option Nat} (h : Search table name scope result)
    (hother : Search table name scope other) : result = other := by
  induction h with
  | found hfound =>
      cases hother with
      | found hsame => exact hfound.symm.trans hsame
      | missing hmissing _ => cases hfound.symm.trans hmissing
      | outer hmissing _ _ => cases hfound.symm.trans hmissing
  | missing hmissing hparent =>
      cases hother with
      | found hfound => cases hmissing.symm.trans hfound
      | missing _ _ => rfl
      | outer _ hsome _ => cases hparent.symm.trans hsome
  | outer hmissing hparent _ ih =>
      cases hother with
      | found hfound => cases hmissing.symm.trans hfound
      | missing _ hnone => cases hparent.symm.trans hnone
      | outer _ hsame hrest =>
          obtain rfl := Option.some.inj (hparent.symm.trans hsame)
          exact ih hrest

/-- Along scopes that lie in each other, the search finds the name in the first one that has it. -/
theorem Nested.search {scopes : List Nat} (h : table.Nested scopes) (name : String) :
    ∀ first rest, scopes = first :: rest →
      Search table name first (scopes.findSome? (table.lookupIn name)) := by
  induction h with
  | module hparent =>
      rintro first rest ⟨⟩
      cases hfound : table.lookupIn name moduleScope with
      | some id => simpa [hfound] using Search.found hfound
      | none => simpa [hfound] using Search.missing hfound hparent
  | @inner scope outer others hparent _ ih =>
      rintro first rest ⟨⟩
      cases hfound : table.lookupIn name scope with
      | some id => simpa [hfound] using Search.found hfound
      | none =>
          rw [List.findSome?_cons, hfound]
          exact .outer hfound hparent (ih outer others rfl)

/-- What holds of the scopes and symbols of a table. -/
structure Ordered (table : SymbolTable) : Prop where
  sound : table.Sound
  nested : table.Nested table.opened
  parents : ∀ scope outer, table.parent? scope = some outer → outer < scope
  names : ∀ scope entries, table.scope? scope = some entries → entries.symbols.names.Nodup
  /-- Every symbol is listed exactly once. -/
  listed : ((table.scopes.flatMap fun scope => scope.symbols.entries).map Prod.snd).Perm
    (List.range table.size)

/-- The search ends, since parents have smaller numbers. -/
theorem Ordered.exists_search (h : table.Ordered) (name : String) (scope : Nat) :
    ∃ result, Search table name scope result := by
  induction scope using Nat.strongRecOn with
  | ind scope ih =>
      cases hfound : table.lookupIn name scope with
      | some id => exact ⟨_, .found hfound⟩
      | none =>
          cases hparent : table.parent? scope with
          | none => exact ⟨_, .missing hfound hparent⟩
          | some outer =>
              obtain ⟨result, hresult⟩ := ih outer (h.parents scope outer hparent)
              exact ⟨result, .outer hfound hparent hresult⟩

theorem Nested.mono {later : SymbolTable} {scopes : List Nat} (h : table.Nested scopes)
    (hparents : ∀ scope ∈ scopes, later.parent? scope = table.parent? scope) :
    later.Nested scopes := by
  induction h with
  | module hparent =>
      exact .module ((hparents _ List.mem_cons_self).trans hparent)
  | inner hparent _ ih =>
      exact .inner ((hparents _ List.mem_cons_self).trans hparent)
        (ih fun scope hscope => hparents scope (List.mem_cons_of_mem _ hscope))

theorem nested_cons_iff {outer : Nat} {rest : List Nat} :
    table.Nested (scope :: outer :: rest) ↔
      table.parent? scope = some outer ∧ table.Nested (outer :: rest) := by
  constructor
  · intro h
    cases h with
    | inner hparent hrest => exact ⟨hparent, hrest⟩
  · exact fun ⟨hparent, hrest⟩ => .inner hparent hrest

/-- A map with the symbols of a scope. -/
def mapAt (table : SymbolTable) (scope : Nat) : Table Nat :=
  ((table.scope? scope).map Scope.symbols).getD .empty

theorem lookupIn_eq (table : SymbolTable) (name : String) (scope : Nat) :
    table.lookupIn name scope = (table.mapAt scope).find? name := by
  rw [lookupIn, mapAt]
  cases table.scope? scope <;> rfl

/-! ### The empty table -/

theorem ordered_empty : empty.Ordered where
  sound := sound_empty
  nested := .module rfl
  parents scope outer hparent := by
    cases scope with
    | zero => cases hparent
    | succ scope => cases hparent
  names scope entries hentries := by
    cases scope with
    | zero =>
        cases hentries
        exact List.nodup_nil
    | succ scope => cases hentries
  listed := .refl _

/-! ### Opening and closing a scope -/

theorem scope?_enter (hlt : scope < table.scopes.length) (kind : ScopeKind) :
    (table.enter kind).scope? scope = table.scope? scope :=
  List.getElem?_append_left hlt

theorem scope?_enter_new (table : SymbolTable) (kind : ScopeKind) :
    (table.enter kind).scope? table.scopes.length = some ⟨some table.current, kind, .empty⟩ := by
  simp [scope?, enter]

/-- A scope of the table behind an opening is the new one or one that was there. -/
theorem scope?_enter_cases {kind : ScopeKind} {entries : Scope}
    (hentries : (table.enter kind).scope? scope = some entries) :
    table.scope? scope = some entries ∨
      scope = table.scopes.length ∧ entries = ⟨some table.current, kind, .empty⟩ := by
  by_cases hlt : scope < table.scopes.length
  · rw [scope?_enter hlt] at hentries
    exact .inl hentries
  · have hlength := (List.getElem?_eq_some_iff.mp hentries).1
    rw [enter, List.length_append, List.length_singleton] at hlength
    obtain rfl : scope = table.scopes.length := by omega
    rw [scope?_enter_new] at hentries
    exact .inr ⟨rfl, (Option.some.inj hentries).symm⟩

theorem Ordered.enter (h : table.Ordered) (kind : ScopeKind) : (table.enter kind).Ordered where
  sound := h.sound.enter kind
  nested := by
    have hparent : (table.enter kind).parent? table.scopes.length = some table.current := by
      rw [parent?, scope?_enter_new]
      rfl
    refine .inner hparent (h.nested.mono fun scope hscope => ?_)
    rw [parent?, scope?_enter (h.sound.opened_lt scope hscope)]
    rfl
  parents scope outer hparent := by
    obtain ⟨entries, hentries, houter⟩ := Option.bind_eq_some_iff.mp hparent
    rcases scope?_enter_cases hentries with hold | ⟨rfl, rfl⟩
    · exact h.parents scope outer (Option.bind_eq_some_iff.mpr ⟨entries, hold, houter⟩)
    · cases houter
      exact h.sound.opened_lt _ List.mem_cons_self
  names scope entries hentries := by
    rcases scope?_enter_cases hentries with hold | ⟨-, rfl⟩
    · exact h.names scope entries hold
    · exact List.nodup_nil
  listed := by
    have hsize : (table.enter kind).size = table.size := rfl
    rw [hsize, SymbolTable.enter, List.flatMap_append]
    simpa [Table.empty] using h.listed

theorem Ordered.exit (h : table.Ordered) : table.exit.Ordered := by
  have hsound := h.sound.exit
  unfold SymbolTable.exit at hsound ⊢
  cases henclosing : table.enclosing with
  | nil => exact h
  | cons outer rest =>
      rw [henclosing] at hsound
      have hnested := h.nested
      rw [opened, henclosing] at hnested
      have hrest := (nested_cons_iff.mp hnested).2
      exact ⟨hsound, hrest.mono fun _ _ => rfl, h.parents, h.names, h.listed⟩

/-! ### Defining a symbol -/

theorem size_add : (table.add name kind range).size = table.size + 1 := by
  simp [size, add]

theorem scope?_add_cases {entries : Scope}
    (hentries : (table.add name kind range).scope? scope = some entries) :
    ∃ old, table.scope? scope = some old ∧
      (scope = table.current ∧
        entries = { old with symbols := old.symbols.add name table.symbols.length } ∨
      scope ≠ table.current ∧ entries = old) := by
  by_cases hscope : scope = table.current
  · subst hscope
    rw [scope?_add_current] at hentries
    obtain ⟨old, hold, rfl⟩ := Option.map_eq_some_iff.mp hentries
    exact ⟨old, hold, .inl ⟨rfl, rfl⟩⟩
  · rw [scope?_add_other hscope] at hentries
    exact ⟨entries, hentries, .inr ⟨hscope, rfl⟩⟩

theorem parent?_add (scope : Nat) :
    (table.add name kind range).parent? scope = table.parent? scope := by
  by_cases hscope : scope = table.current
  · subst hscope
    rw [parent?, scope?_add_current, parent?]
    cases table.scope? table.current <;> rfl
  · rw [parent?, scope?_add_other hscope, parent?]

theorem Ordered.add (h : table.Ordered) (hnew : table.lookupLocal name = none) :
    (table.add name kind range).Ordered where
  sound := h.sound.add
  nested := h.nested.mono fun scope _ => parent?_add scope
  parents scope outer hparent := h.parents scope outer (parent?_add scope ▸ hparent)
  names scope entries hentries := by
    obtain ⟨old, hold, ⟨rfl, rfl⟩ | ⟨-, rfl⟩⟩ := scope?_add_cases hentries
    · have hfree : name ∉ old.symbols.names := by
        rw [← Table.find?_isSome_iff]
        have hnone : old.symbols.find? name = none := by
          rw [lookupLocal, lookupIn, hold] at hnew
          exact hnew
        rw [hnone]
        exact Bool.false_ne_true
      rw [Table.names_add]
      exact List.nodup_append.mpr ⟨h.names _ _ hold, List.nodup_singleton _, by
        rintro a ha b hb rfl
        exact hfree (List.mem_singleton.mp hb ▸ ha)⟩
    · exact h.names _ _ hold
  listed := by
    have hlt := h.sound.opened_lt table.current List.mem_cons_self
    obtain ⟨front, scope, back, hscopes, -, hmodify⟩ := List.exists_of_modify
      (fun scope : Scope =>
        { scope with symbols := scope.symbols.add name table.symbols.length }) hlt
    have hlisted := h.listed
    rw [hscopes] at hlisted
    have hscopes' : (table.add name kind range).scopes = front ++
        { scope with symbols := scope.symbols.add name table.symbols.length } :: back := hmodify
    rw [size_add, hscopes', List.range_succ]
    -- the new entry stands in the middle, and goes to the end
    simp only [List.flatMap_append, List.flatMap_cons, List.map_append, Table.add,
      List.append_assoc] at hlisted ⊢
    refine ((List.perm_append_comm.append_left _).append_left _).trans ?_
    have happended := hlisted.append_right [table.size]
    simp only [List.append_assoc] at happended
    exact happended

/-! ### Steps -/

theorem step_define (table : SymbolTable) (name : String) (kind : SymbolKind)
    (range : SourceRange) : table.step (.define name kind range) =
      match table.lookupLocal name with
      | some earlier => (.taken earlier, table)
      | none => (.defined table.size, table.add name kind range) := by
  rw [step, define_eq]
  cases hlocal : table.lookupLocal name with
  | some earlier => rfl
  | none => simp [ensure, hlocal]

/-- What a step can do to a table. -/
theorem step_cases (table : SymbolTable) (step : SymbolStep) :
    (table.step step).2 = table ∧ (table.step step).1.defined? = none ∨
    (∃ kind, (table.step step).2 = table.enter kind ∧ (table.step step).1.defined? = none) ∨
    (table.step step).2 = table.exit ∧ (table.step step).1.defined? = none ∨
    ∃ name kind range, step = .define name kind range ∧ table.lookupLocal name = none ∧
      table.step step = (.defined table.size, table.add name kind range) := by
  cases step with
  | enter kind => exact .inr (.inl ⟨kind, rfl, rfl⟩)
  | exit => exact .inr (.inr (.inl ⟨rfl, rfl⟩))
  | define name kind range =>
      rw [step_define]
      cases hlocal : table.lookupLocal name with
      | some earlier => exact .inl ⟨rfl, rfl⟩
      | none => exact .inr (.inr (.inr ⟨name, kind, range, rfl, hlocal, rfl⟩))
  | lookup name => exact .inl ⟨rfl, rfl⟩
  | lookupLocal name => exact .inl ⟨rfl, rfl⟩
  | lookupGlobal name => exact .inl ⟨rfl, rfl⟩
  | globals => exact .inl ⟨rfl, rfl⟩

theorem Ordered.step (h : table.Ordered) (step : SymbolStep) : (table.step step).2.Ordered := by
  obtain ⟨hsame, -⟩ | ⟨kind, hsame, -⟩ | ⟨hsame, -⟩ | ⟨name, kind, range, -, hnew, hsame⟩ :=
    table.step_cases step
  · rw [hsame]
    exact h
  · rw [hsame]
    exact h.enter kind
  · rw [hsame]
    exact h.exit
  · rw [hsame]
    exact h.add hnew

theorem Ordered.after (h : table.Ordered) (steps : List SymbolStep) :
    (table.after steps).Ordered := by
  induction steps generalizing table with
  | nil => exact h
  | cons step steps ih => exact ih (h.step step)

/-! ## Tables as stacks -/

/-- The maps of the open scopes. -/
def toStack (table : SymbolTable) : ScopeStack where
  top := table.mapAt table.current
  below := table.enclosing.map table.mapAt
  defined := table.size
  opened := table.scopes.length

theorem Nested.getLastD {scopes : List Nat} (h : table.Nested scopes) :
    ∀ first rest, scopes = first :: rest → rest.getLastD first = moduleScope := by
  induction h with
  | module hparent =>
      rintro first rest ⟨⟩
      rfl
  | inner hparent _ ih =>
      rintro first rest ⟨⟩
      rw [List.getLastD_cons]
      exact ih _ _ rfl

/-- The scope of the module is at the bottom. -/
theorem bottom_toStack (h : table.Ordered) : table.toStack.bottom = table.mapAt moduleScope := by
  have hlast := h.nested.getLastD _ _ rfl
  rw [ScopeStack.bottom, toStack, ← hlast]
  dsimp only
  rw [List.getLastD_eq_getLast?, List.getLastD_eq_getLast?, List.getLast?_map]
  cases table.enclosing.getLast? <;> rfl

theorem toStack_enter (h : table.Ordered) (kind : ScopeKind) : (table.enter kind).toStack =
    { table.toStack with
      top := .empty
      below := table.toStack.top :: table.toStack.below
      opened := table.toStack.opened + 1 } := by
  have htop : (table.enter kind).mapAt table.scopes.length = .empty := by
    rw [mapAt, scope?_enter_new]
    rfl
  have hbelow : table.opened.map (table.enter kind).mapAt = table.opened.map table.mapAt := by
    refine List.map_congr_left fun scope hscope => ?_
    rw [mapAt, scope?_enter (h.sound.opened_lt scope hscope), mapAt]
  have hopened : (table.enter kind).scopes.length = table.scopes.length + 1 :=
    List.length_append
  unfold toStack
  rw [hopened]
  congr 1

theorem toStack_add (h : table.Ordered) : (table.add name kind range).toStack =
    { table.toStack with
      top := table.toStack.top.add name table.size
      defined := table.size + 1 } := by
  have htop : (table.add name kind range).mapAt table.current =
      (table.mapAt table.current).add name table.size := by
    have hlt := h.sound.opened_lt table.current List.mem_cons_self
    obtain ⟨entries, hcurrent⟩ : ∃ entries, table.scope? table.current = some entries :=
      ⟨_, List.getElem?_eq_getElem hlt⟩
    rw [mapAt, scope?_add_current, mapAt, hcurrent]
    rfl
  have hbelow : table.enclosing.map (table.add name kind range).mapAt =
      table.enclosing.map table.mapAt := by
    refine List.map_congr_left fun scope hscope => ?_
    have hother : scope ≠ table.current := by
      rintro rfl
      exact (List.nodup_cons.mp h.sound.opened_nodup).1 hscope
    rw [mapAt, scope?_add_other hother, mapAt]
  have hopened : (table.add name kind range).scopes.length = table.scopes.length :=
    List.length_modify _ _ _
  unfold toStack
  rw [size_add, hopened]
  congr 1

/-- A step on a table is the step on its stack. -/
theorem step_toStack (h : table.Ordered) (step : SymbolStep) :
    table.toStack.step step = ((table.step step).1, (table.step step).2.toStack) := by
  cases step with
  | enter kind => exact congrArg (Prod.mk _) (toStack_enter h kind).symm
  | exit =>
      have hbelow : table.toStack.below = table.enclosing.map table.mapAt := rfl
      rw [ScopeStack.step, hbelow, SymbolTable.step, SymbolTable.exit]
      cases henclosing : table.enclosing with
      | nil => rfl
      | cons outer rest => rfl
  | define name kind range =>
      have hlocal : table.toStack.top.find? name = table.lookupLocal name :=
        (table.lookupIn_eq name table.current).symm
      rw [step_define, ScopeStack.step, Table.define, hlocal]
      cases table.lookupLocal name with
      | some earlier => rfl
      | none => exact congrArg (Prod.mk _) (toStack_add h).symm
  | lookup name =>
      have hmaps : table.toStack.top :: table.toStack.below = table.opened.map table.mapAt := rfl
      rw [ScopeStack.step, hmaps, List.findSome?_map]
      have hfind : (fun map : Table Nat => map.find? name) ∘ table.mapAt = table.lookupIn name :=
        funext fun scope => (table.lookupIn_eq name scope).symm
      rw [hfind]
      rfl
  | lookupLocal name =>
      exact congrArg (fun id => (SymbolAnswer.found id, table.toStack))
        (table.lookupIn_eq name table.current).symm
  | lookupGlobal name =>
      rw [ScopeStack.step, bottom_toStack h, ← lookupIn_eq]
      rfl
  | globals =>
      have hglobals : table.globals =
          (table.mapAt moduleScope).entries.map fun entry => (entry.2, entry.1) := by
        rw [globals, mapAt]
        cases table.scope? moduleScope <;> rfl
      rw [ScopeStack.step, bottom_toStack h, ← hglobals]
      rfl

theorem answers_eq (h : table.Ordered) (steps : List SymbolStep) :
    table.answers steps = table.toStack.answers steps := by
  induction steps generalizing table with
  | nil => rfl
  | cons step steps ih =>
      rw [answers, ScopeStack.answers, step_toStack h, ih (h.step step)]

/-! ## What stays -/

/-- A later table: symbols and scopes are kept and only open scopes get new symbols. -/
structure Continues (earlier later : SymbolTable) : Prop where
  symbols : earlier.symbols <+: later.symbols
  grows : ∀ id scope, earlier.scope? id = some scope → ∃ added, later.scope? id =
    some { scope with symbols := ⟨scope.symbols.entries ++ added⟩ }
  closed : ∀ id scope, earlier.scope? id = some scope → id ∉ earlier.opened →
    later.scope? id = some scope ∧ id ∉ later.opened

theorem Continues.refl (table : SymbolTable) : table.Continues table where
  symbols := List.prefix_rfl
  grows id scope hscope := ⟨[], by rw [hscope, List.append_nil]⟩
  closed id scope hscope hclosed := ⟨hscope, hclosed⟩

theorem Continues.trans {middle later : SymbolTable} (h : table.Continues middle)
    (hlater : middle.Continues later) : table.Continues later where
  symbols := h.symbols.trans hlater.symbols
  grows id scope hscope := by
    obtain ⟨added, hadded⟩ := h.grows id scope hscope
    obtain ⟨more, hmore⟩ := hlater.grows id _ hadded
    exact ⟨added ++ more, by rw [hmore, ← List.append_assoc]⟩
  closed id scope hscope hclosed := by
    obtain ⟨hkept, hstays⟩ := h.closed id scope hscope hclosed
    exact hlater.closed id scope hkept hstays

theorem continues_enter (table : SymbolTable) (kind : ScopeKind) :
    table.Continues (table.enter kind) := by
  have hkept : ∀ id scope, table.scope? id = some scope →
      (table.enter kind).scope? id = some scope := by
    intro id scope hscope
    rw [scope?_enter (List.getElem?_eq_some_iff.mp hscope).1, hscope]
  refine ⟨List.prefix_rfl, fun id scope hscope => ⟨[], ?_⟩, fun id scope hscope hclosed =>
    ⟨hkept id scope hscope, ?_⟩⟩
  · rw [hkept id scope hscope, List.append_nil]
  · have hlt : id < table.scopes.length := (List.getElem?_eq_some_iff.mp hscope).1
    intro hmem
    rcases List.mem_cons.mp hmem with rfl | hmem
    · exact Nat.lt_irrefl _ hlt
    · exact hclosed hmem

theorem continues_exit (table : SymbolTable) : table.Continues table.exit := by
  unfold SymbolTable.exit
  cases henclosing : table.enclosing with
  | nil => exact .refl table
  | cons outer rest =>
      refine ⟨List.prefix_rfl, fun id scope hscope => ⟨[], by rw [List.append_nil]; exact hscope⟩,
        fun id scope hscope hclosed => ⟨hscope, fun hmem => hclosed ?_⟩⟩
      rw [opened, henclosing]
      exact List.mem_cons_of_mem _ hmem

theorem continues_add (table : SymbolTable) (name : String) (kind : SymbolKind)
    (range : SourceRange) : table.Continues (table.add name kind range) := by
  refine ⟨List.prefix_append _ _, fun id scope hscope => ?_, fun id scope hscope hclosed => ?_⟩
  · by_cases hcurrent : id = table.current
    · subst hcurrent
      exact ⟨[(name, table.symbols.length)], by rw [scope?_add_current, hscope]; rfl⟩
    · exact ⟨[], by rw [scope?_add_other hcurrent, hscope, List.append_nil]⟩
  · have hcurrent : id ≠ table.current := fun h => hclosed (h ▸ List.mem_cons_self)
    exact ⟨(scope?_add_other hcurrent).trans hscope, hclosed⟩

theorem continues_step (table : SymbolTable) (step : SymbolStep) :
    table.Continues (table.step step).2 := by
  obtain ⟨hsame, -⟩ | ⟨kind, hsame, -⟩ | ⟨hsame, -⟩ | ⟨name, kind, range, -, -, hsame⟩ :=
    table.step_cases step
  · rw [hsame]
    exact .refl table
  · rw [hsame]
    exact table.continues_enter kind
  · rw [hsame]
    exact table.continues_exit
  · rw [hsame]
    exact table.continues_add name kind range

theorem continues_after (table : SymbolTable) (steps : List SymbolStep) :
    table.Continues (table.after steps) := by
  induction steps generalizing table with
  | nil => exact .refl table
  | cons step steps ih => exact (table.continues_step step).trans (ih (table.step step).2)

theorem after_append (table : SymbolTable) (front back : List SymbolStep) :
    table.after (front ++ back) = (table.after front).after back :=
  List.foldl_append

theorem range_size_step (table : SymbolTable) (step : SymbolStep) :
    List.range table.size ++ (table.step step).1.defined?.toList =
      List.range (table.step step).2.size := by
  obtain ⟨hsame, hnone⟩ | ⟨kind, hsame, hnone⟩ | ⟨hsame, hnone⟩ |
    ⟨name, kind, range, -, -, hsame⟩ := table.step_cases step
  · rw [hsame, hnone, Option.toList_none, List.append_nil]
  · rw [hsame, hnone, Option.toList_none, List.append_nil]
    rfl
  · have hsize : table.exit.size = table.size := by
      unfold exit
      split <;> rfl
    rw [hsame, hnone, hsize, Option.toList_none, List.append_nil]
  · rw [hsame, size_add, List.range_succ]
    rfl

/-- Symbols are numbered in the order of definition. -/
theorem range_size_after (table : SymbolTable) (steps : List SymbolStep) :
    List.range table.size ++ (table.answers steps).filterMap SymbolAnswer.defined? =
      List.range (table.after steps).size := by
  induction steps generalizing table with
  | nil => exact List.append_nil _
  | cons step steps ih =>
      obtain ⟨next, hnext⟩ : ∃ next, next = (table.step step).2 := ⟨_, rfl⟩
      have hsplit : (table.answers (step :: steps)).filterMap SymbolAnswer.defined? =
          (table.step step).1.defined?.toList ++
            (next.answers steps).filterMap SymbolAnswer.defined? := by
        rw [answers, List.filterMap_cons, hnext]
        cases (table.step step).1.defined? <;> rfl
      calc List.range table.size ++ (table.answers (step :: steps)).filterMap SymbolAnswer.defined?
          = (List.range table.size ++ (table.step step).1.defined?.toList) ++
              (next.answers steps).filterMap SymbolAnswer.defined? := by
            rw [hsplit, List.append_assoc]
        _ = List.range next.size ++ (next.answers steps).filterMap SymbolAnswer.defined? := by
            rw [range_size_step, hnext]
        _ = List.range (next.after steps).size := ih next
        _ = List.range (table.after (step :: steps)).size := by
            rw [hnext]
            rfl

/-- A symbol is found under the number that its definition answered, with the scope that was current
then. -/
theorem get?_of_defined {front back : List SymbolStep}
    (hdefined : ((table.after front).step (.define name kind range)).1 = .defined id) :
    (table.after (front ++ .define name kind range :: back)).get? id =
      some ⟨name, kind, range, (table.after front).current⟩ := by
  rw [after_append]
  obtain ⟨earlier, hearlier⟩ : ∃ earlier, earlier = table.after front := ⟨_, rfl⟩
  rw [← hearlier] at hdefined ⊢
  rw [step_define] at hdefined
  cases hlocal : earlier.lookupLocal name with
  | some taken =>
      rw [hlocal] at hdefined
      cases hdefined
  | none =>
      rw [hlocal] at hdefined
      cases hdefined
      have hstep : (earlier.step (.define name kind range)).2 = earlier.add name kind range := by
        rw [step_define, hlocal]
      have hlater := ((earlier.step (.define name kind range)).2.continues_after back).symbols
      rw [hstep] at hlater
      have hsymbol := get?_mono hlater (get?_add_new earlier name kind range)
      rw [← hstep] at hsymbol
      exact hsymbol

theorem step_of_taken {earlier : Nat}
    (htaken : (table.step (.define name kind range)).1 = .taken earlier) :
    (table.step (.define name kind range)).2 = table := by
  rw [step_define] at htaken ⊢
  cases hlocal : table.lookupLocal name with
  | some taken => rfl
  | none =>
      rw [hlocal] at htaken
      cases htaken

/-- Closing a scope leads to its parent. -/
theorem Ordered.current_exit (h : table.Ordered) :
    table.exit.current = (table.parent? table.current).getD table.current := by
  have hnested := h.nested
  rw [opened] at hnested
  unfold SymbolTable.exit
  cases henclosing : table.enclosing with
  | nil =>
      rw [henclosing] at hnested
      generalize hcurrent : table.current = current at hnested
      cases hnested with
      | module hparent => rw [hparent, Option.getD_none]
  | cons outer rest =>
      rw [henclosing] at hnested
      rw [(nested_cons_iff.mp hnested).1, Option.getD_some]

/-- Steps on a table from the empty one on. -/
structure RunsAsStack (steps : List SymbolStep) : Prop where
  answers : empty.answers steps = ScopeStack.empty.answers steps
  ordered : (empty.after steps).Ordered
  /-- From each scope, the search for a name along the parents ends, with one result. -/
  searches : ∀ name scope, ∃ result, Search (empty.after steps) name scope result ∧
    ∀ other, Search (empty.after steps) name scope other → other = result
  lookup : ∀ name, Search (empty.after steps) name (empty.after steps).current
    ((empty.after steps).lookup name)
  exit : (empty.after steps).exit.current =
    ((empty.after steps).parent? (empty.after steps).current).getD (empty.after steps).current
  numbered : (empty.answers steps).filterMap SymbolAnswer.defined? =
    List.range (empty.after steps).size
  defined : ∀ front name kind range back id, steps = front ++ .define name kind range :: back →
    ((empty.after front).step (.define name kind range)).1 = .defined id →
    (empty.after steps).get? id = some ⟨name, kind, range, (empty.after front).current⟩
  taken : ∀ name kind range earlier,
    ((empty.after steps).step (.define name kind range)).1 = .taken earlier →
    ((empty.after steps).step (.define name kind range)).2 = empty.after steps
  continues : ∀ front back, steps = front ++ back →
    (empty.after front).Continues (empty.after steps)

/-- **A symbol table is a stack of maps** that keeps what is popped. For every sequence of steps it
answers what the stack answers. Symbols are numbered in the order of definition and stay as they
are, each is listed in one scope, and closed scopes keep what they list. -/
theorem runs_as_stack (steps : List SymbolStep) : RunsAsStack steps := by
  have hordered := ordered_empty.after steps
  constructor
  case answers => exact answers_eq ordered_empty steps
  case ordered => exact hordered
  case searches =>
    intro name scope
    obtain ⟨result, hresult⟩ := hordered.exists_search name scope
    exact ⟨result, hresult, fun other hother => hother.unique hresult⟩
  case lookup => exact fun name => hordered.nested.search name _ _ rfl
  case exit => exact hordered.current_exit
  case numbered => exact range_size_after empty steps
  case defined =>
    rintro front name kind range back id rfl hdefined
    exact get?_of_defined hdefined
  case taken => exact fun name kind range earlier => step_of_taken
  case continues =>
    rintro front back rfl
    rw [after_append]
    exact (empty.after front).continues_after back

end SymbolTable

end BehaviorTree
