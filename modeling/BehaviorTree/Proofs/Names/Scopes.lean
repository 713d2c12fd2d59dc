import Mathlib.Data.List.Forall2
import Mathlib.Data.List.Nodup
import BehaviorTree.Names.Event

/-!
# Symbol tables

What each operation on a symbol table does to what its open scopes show. The reference is an
environment: for each open scope the list of what was declared in it, of which the first declaration
of a name counts. A table that is sound and shows an environment goes on showing it, event by event.
-/

namespace BehaviorTree

theorem Table.find?_add {α : Type} (table : Table α) (name other : String) (entry : α) :
    (table.add name entry).find? other =
      (table.find? other).or (if other = name then some entry else none) := by
  unfold find? add
  rw [List.find?_append, Option.map_or]
  by_cases hother : other = name
  · simp [hother]
  · simp [hother, Ne.symm hother]

/-- What has been declared in one scope, in the order of the source. -/
abbrev Frame := List (String × SymbolKind)

theorem Frame.lookup_concat (frame : Frame) (name other : String) (kind : SymbolKind) :
    (frame ++ [(name, kind)]).lookup other =
      (frame.lookup other).or (if other = name then some kind else none) := by
  rw [List.lookup_append]
  by_cases hother : other = name
  · simp [hother]
  · have hname : (other == name) = false := beq_false_of_ne hother
    simp [List.lookup_cons, hother, hname]

/-- The frames of the open scopes, innermost first. -/
abbrev Environment := List Frame

/-- The declaration that a name stands for: the first one in the innermost frame that has any. -/
def Environment.find? (env : Environment) (name : String) : Option SymbolKind :=
  env.findSome? (List.lookup name)

namespace SymbolTable

/-- The table with one more symbol, defined in the current scope. -/
def add (table : SymbolTable) (name : String) (kind : SymbolKind) (range : SourceRange) :
    SymbolTable :=
  { table with
    symbols := table.symbols ++ [⟨name, kind, range, table.current⟩]
    scopes := table.scopes.modify table.current fun scope =>
      { scope with symbols := scope.symbols.add name table.symbols.length } }

/-- Defines a symbol, unless its name has one in the current scope. -/
def ensure (table : SymbolTable) (name : String) (kind : SymbolKind) (range : SourceRange) :
    SymbolTable :=
  if (table.lookupLocal name).isSome then table else table.add name kind range

/-- What an event makes of a table. -/
def follow (table : SymbolTable) : NameEvent → SymbolTable
  | .use .. | .textType _ => table
  | .declare kind name => table.ensure name.text kind name.range
  | .enter kind => table.enter kind
  | .leave => table.exit

/-- The open scopes, innermost first. -/
def opened (table : SymbolTable) : List Nat := table.current :: table.enclosing

/-- What declares the symbol that a name has in one scope. -/
def kindIn (table : SymbolTable) (name : String) (scope : Nat) : Option SymbolKind :=
  (table.lookupIn name scope).bind fun id => (table.get? id).map Symbol.kind

structure Sound (table : SymbolTable) : Prop where
  /-- A scope lists symbols of its own, each under its name. -/
  listed : ∀ scope entries, table.scope? scope = some entries → ∀ entry ∈ entries.symbols.entries,
    ∃ symbol, table.get? entry.2 = some symbol ∧ symbol.name = entry.1 ∧ symbol.scope = scope
  opened_lt : ∀ scope ∈ table.opened, scope < table.scopes.length
  opened_nodup : table.opened.Nodup

/-- In each of some scopes a name has the symbol that the frame of the scope gives it. -/
def ShowsIn (table : SymbolTable) (scopes : List Nat) (env : Environment) : Prop :=
  List.Forall₂ (fun scope (frame : Frame) => ∀ name, table.kindIn name scope = frame.lookup name)
    scopes env

/-- The open scopes are those of the environment. -/
def Shows (table : SymbolTable) (env : Environment) : Prop := table.ShowsIn table.opened env

variable {table : SymbolTable} {env : Environment} {frame outer : Frame} {events : List NameEvent}
  {name : String} {kind : SymbolKind} {range : SourceRange} {scope id : Nat} {scopes : List Nat}

theorem define_eq (table : SymbolTable) (name : String) (kind : SymbolKind) (range : SourceRange) :
    table.define name kind range = match table.lookupLocal name with
      | some earlier => .error earlier
      | none => .ok (table.ensure name kind range) := by
  unfold define ensure
  cases table.lookupLocal name <;> rfl

theorem opened_ensure : (table.ensure name kind range).opened = table.opened := by
  unfold ensure
  split <;> rfl

/-! ### Symbols stay -/

theorem symbols_grow_follow (event : NameEvent) :
    table.symbols <+: (table.follow event).symbols := by
  cases event with
  | use purpose origin name => exact List.prefix_rfl
  | textType origin => exact List.prefix_rfl
  | declare kind name =>
      show table.symbols <+: (table.ensure name.text kind name.range).symbols
      unfold ensure
      split
      · exact List.prefix_rfl
      · exact List.prefix_append _ _
  | enter kind => exact List.prefix_rfl
  | leave =>
      show table.symbols <+: table.exit.symbols
      unfold exit
      split <;> exact List.prefix_rfl

theorem symbols_grow_foldl (table : SymbolTable) (events : List NameEvent) :
    table.symbols <+: (events.foldl follow table).symbols := by
  induction events generalizing table with
  | nil => exact List.prefix_rfl
  | cons event events ih => exact (symbols_grow_follow event).trans (ih (table.follow event))

theorem get?_mono {later : SymbolTable} {symbol : Symbol}
    (hgrown : table.symbols <+: later.symbols) (hsymbol : table.get? id = some symbol) :
    later.get? id = some symbol := by
  obtain ⟨added, hadded⟩ := hgrown
  have hlt : id < table.symbols.length := (List.getElem?_eq_some_iff.mp hsymbol).1
  unfold get? at hsymbol ⊢
  rw [← hadded, List.getElem?_append_left hlt, hsymbol]

/-! ### Looking names up -/

theorem mem_entries_of_lookupIn (hfound : table.lookupIn name scope = some id) :
    ∃ entries, table.scope? scope = some entries ∧ (name, id) ∈ entries.symbols.entries := by
  obtain ⟨entries, hentries, hfind⟩ := Option.bind_eq_some_iff.mp hfound
  obtain ⟨entry, hentry, rfl⟩ := Option.map_eq_some_iff.mp hfind
  have hname := List.find?_some hentry
  refine ⟨entries, hentries, ?_⟩
  rw [← beq_iff_eq.mp hname]
  exact List.mem_of_find?_eq_some hentry

theorem Sound.symbol_of_lookupIn (hsound : table.Sound)
    (hfound : table.lookupIn name scope = some id) :
    ∃ symbol, table.get? id = some symbol ∧ symbol.name = name ∧ symbol.scope = scope := by
  obtain ⟨entries, hentries, hmem⟩ := mem_entries_of_lookupIn hfound
  exact hsound.listed scope entries hentries _ hmem

theorem Sound.symbol_of_lookup (hsound : table.Sound) (hfound : table.lookup name = some id) :
    ∃ symbol, table.get? id = some symbol ∧ symbol.name = name := by
  obtain ⟨scope, -, hscope⟩ := List.exists_of_findSome?_eq_some hfound
  obtain ⟨symbol, hsymbol, hname, -⟩ := hsound.symbol_of_lookupIn hscope
  exact ⟨symbol, hsymbol, hname⟩

theorem Sound.kindIn_eq_none_iff (hsound : table.Sound) :
    table.kindIn name scope = none ↔ table.lookupIn name scope = none := by
  unfold kindIn
  cases hfound : table.lookupIn name scope with
  | none => simp
  | some id =>
      obtain ⟨symbol, hsymbol, -⟩ := hsound.symbol_of_lookupIn hfound
      simp [hsymbol]

/-- A name is found in the table where the environment has it. -/
theorem Shows.kind_lookup (hshows : table.Shows env) (hsound : table.Sound) (name : String) :
    ((table.lookup name).bind fun id => (table.get? id).map Symbol.kind) = env.find? name := by
  have hscopes : table.ShowsIn (table.current :: table.enclosing) env := hshows
  unfold ShowsIn at hscopes
  unfold lookup Environment.find?
  clear hshows
  generalize table.current :: table.enclosing = scopes at hscopes
  induction hscopes with
  | nil => rfl
  | @cons scope frame scopes frames hframe hrest ih =>
      rw [List.findSome?_cons, List.findSome?_cons, ← hframe name]
      cases hfound : table.lookupIn name scope with
      | none =>
          rw [hsound.kindIn_eq_none_iff.mpr hfound]
          exact ih
      | some id =>
          obtain ⟨symbol, hsymbol, -⟩ := hsound.symbol_of_lookupIn hfound
          simp [kindIn, hfound, hsymbol]

/-- What a table shows depends on what the names have in the scopes alone. -/
theorem ShowsIn.mono {later : SymbolTable} (hshows : table.ShowsIn scopes env)
    (hkinds : ∀ scope ∈ scopes, ∀ name, later.kindIn name scope = table.kindIn name scope) :
    later.ShowsIn scopes env := by
  refine List.Forall₂.imp ?_ ((List.forall₂_and_left _ _).mpr ⟨hkinds, hshows⟩)
  intro scope frame hscope name
  rw [hscope.1 name, hscope.2 name]

/-! ### The empty table -/

theorem sound_empty : empty.Sound where
  listed scope entries hentries entry hentry := by
    unfold empty scope? at hentries
    rw [List.getElem?_singleton] at hentries
    split at hentries <;> cases hentries
    cases hentry
  opened_lt scope hscope := by
    rw [List.mem_singleton.mp hscope]
    exact Nat.one_pos
  opened_nodup := List.nodup_singleton _

theorem shows_empty : empty.Shows [[]] :=
  .cons (fun _ => rfl) .nil

/-! ### Opening and closing a scope -/

theorem lookupIn_enter (hlt : scope < table.scopes.length) (kind : ScopeKind) (name : String) :
    (table.enter kind).lookupIn name scope = table.lookupIn name scope := by
  simp [lookupIn, scope?, enter, List.getElem?_append_left hlt]

theorem lookupIn_enter_new (table : SymbolTable) (kind : ScopeKind) (name : String) :
    (table.enter kind).lookupIn name table.scopes.length = none := by
  simp [lookupIn, scope?, enter, Table.find?, Table.empty]

theorem Sound.enter (hsound : table.Sound) (kind : ScopeKind) : (table.enter kind).Sound where
  listed scope entries hentries entry hentry := by
    by_cases hlt : scope < table.scopes.length
    · refine hsound.listed scope entries ?_ entry hentry
      simpa [scope?, SymbolTable.enter, List.getElem?_append_left hlt] using hentries
    · simp only [scope?, SymbolTable.enter] at hentries
      rw [List.getElem?_append_right (Nat.le_of_not_lt hlt), List.getElem?_singleton] at hentries
      split at hentries <;> cases hentries
      cases hentry
  opened_lt scope hscope := by
    simp only [SymbolTable.enter, List.length_append, List.length_singleton]
    rcases List.mem_cons.mp hscope with rfl | hscope
    · exact Nat.lt_succ_self _
    · exact Nat.lt_succ_of_lt (hsound.opened_lt scope hscope)
  opened_nodup := by
    refine List.nodup_cons.mpr ⟨?_, hsound.opened_nodup⟩
    intro hmem
    exact Nat.lt_irrefl _ (hsound.opened_lt _ hmem)

theorem Shows.enter (hshows : table.Shows env) (hsound : table.Sound) (kind : ScopeKind) :
    (table.enter kind).Shows ([] :: env) := by
  refine .cons (fun name => ?_) (hshows.mono ?_)
  · show (table.enter kind).kindIn name table.scopes.length = none
    rw [(hsound.enter kind).kindIn_eq_none_iff, lookupIn_enter_new]
  · intro scope hscope name
    unfold kindIn
    rw [lookupIn_enter (hsound.opened_lt scope hscope)]
    rfl

theorem Sound.exit (hsound : table.Sound) : table.exit.Sound := by
  unfold SymbolTable.exit
  split
  · exact hsound
  · rename_i outer rest henclosing
    have hopened : table.opened = table.current :: outer :: rest := by rw [opened, henclosing]
    refine ⟨hsound.listed, ?_, ?_⟩
    · intro scope hscope
      exact hsound.opened_lt scope (hopened ▸ List.mem_cons_of_mem _ hscope)
    · have hnodup := hsound.opened_nodup
      rw [hopened] at hnodup
      exact hnodup.of_cons

theorem Shows.exit (hshows : table.Shows (frame :: outer :: env)) :
    table.exit.Shows (outer :: env) := by
  have hrest : table.ShowsIn table.enclosing (outer :: env) := (List.forall₂_cons.mp hshows).2
  unfold SymbolTable.exit
  cases henclosing : table.enclosing with
  | nil =>
      rw [henclosing] at hrest
      cases hrest
  | cons scope rest =>
      rw [henclosing] at hrest
      exact hrest

/-! ### Defining a symbol -/

theorem scope?_add_other (hscope : scope ≠ table.current) :
    (table.add name kind range).scope? scope = table.scope? scope :=
  List.getElem?_modify_ne _ _ (Ne.symm hscope)

theorem scope?_add_current : (table.add name kind range).scope? table.current =
    (table.scope? table.current).map fun scope =>
      { scope with symbols := scope.symbols.add name table.symbols.length } :=
  List.getElem?_modify_eq _ _ _

theorem get?_add_new (table : SymbolTable) (name : String) (kind : SymbolKind)
    (range : SourceRange) : (table.add name kind range).get? table.symbols.length =
      some ⟨name, kind, range, table.current⟩ := by
  simp [get?, add]

theorem Sound.add (hsound : table.Sound) : (table.add name kind range).Sound where
  listed scope entries hentries entry hentry := by
    have hkeep : ∀ symbol, table.get? entry.2 = some symbol →
        (table.add name kind range).get? entry.2 = some symbol :=
      fun symbol => get?_mono (List.prefix_append _ _)
    by_cases hscope : scope = table.current
    · subst hscope
      rw [scope?_add_current] at hentries
      obtain ⟨old, hold, rfl⟩ := Option.map_eq_some_iff.mp hentries
      rcases List.mem_append.mp hentry with hentry | hentry
      · obtain ⟨symbol, hsymbol, hsame⟩ := hsound.listed _ old hold entry hentry
        exact ⟨symbol, hkeep symbol hsymbol, hsame⟩
      · rw [List.mem_singleton.mp hentry]
        exact ⟨_, get?_add_new table name kind range, rfl, rfl⟩
    · rw [scope?_add_other hscope] at hentries
      obtain ⟨symbol, hsymbol, hsame⟩ := hsound.listed scope entries hentries entry hentry
      exact ⟨symbol, hkeep symbol hsymbol, hsame⟩
  opened_lt scope hscope := by
    have hlt := hsound.opened_lt scope hscope
    simpa [SymbolTable.add] using hlt
  opened_nodup := hsound.opened_nodup

theorem Sound.ensure (hsound : table.Sound) : (table.ensure name kind range).Sound := by
  unfold SymbolTable.ensure
  split
  · exact hsound
  · exact hsound.add

theorem Sound.follow (hsound : table.Sound) (event : NameEvent) : (table.follow event).Sound := by
  cases event with
  | use purpose origin name => exact hsound
  | textType origin => exact hsound
  | declare kind name => exact hsound.ensure
  | enter kind => exact hsound.enter kind
  | leave => exact hsound.exit

theorem Sound.foldl (hsound : table.Sound) (events : List NameEvent) :
    (events.foldl SymbolTable.follow table).Sound := by
  induction events generalizing table with
  | nil => exact hsound
  | cons event events ih => exact ih (hsound.follow event)

theorem lookupIn_add_other (hscope : scope ≠ table.current) (other : String) :
    (table.add name kind range).lookupIn other scope = table.lookupIn other scope := by
  unfold lookupIn
  rw [scope?_add_other hscope]

theorem lookupIn_add_current (hsound : table.Sound) (other : String) :
    (table.add name kind range).lookupIn other table.current =
      (table.lookupIn other table.current).or
        (if other = name then some table.symbols.length else none) := by
  have hlt := hsound.opened_lt table.current List.mem_cons_self
  obtain ⟨entries, hentries⟩ : ∃ entries, table.scope? table.current = some entries :=
    ⟨_, List.getElem?_eq_getElem hlt⟩
  unfold lookupIn
  rw [scope?_add_current, hentries]
  exact Table.find?_add _ _ _ _

/-- In the current scope a new symbol has its name; all other names keep their symbols. -/
theorem kindIn_add (hsound : table.Sound) (hnew : table.lookupLocal name = none) (other : String)
    (scope : Nat) : (table.add name kind range).kindIn other scope =
      if scope = table.current ∧ other = name then some kind else table.kindIn other scope := by
  have hkeep : ∀ id, table.lookupIn other scope = some id →
      ((table.add name kind range).get? id).map Symbol.kind = table.kindIn other scope := by
    intro id hid
    obtain ⟨symbol, hsymbol, -⟩ := hsound.symbol_of_lookupIn hid
    rw [get?_mono (List.prefix_append _ _) hsymbol, kindIn, hid, Option.bind_some, hsymbol]
  by_cases hscope : scope = table.current
  · subst hscope
    unfold kindIn at hkeep ⊢
    rw [lookupIn_add_current hsound]
    by_cases hother : other = name
    · subst hother
      rw [show table.lookupIn other table.current = none from hnew]
      simp [get?_add_new]
    · cases hid : table.lookupIn other table.current with
      | none => simp [hother]
      | some id =>
          rw [hid] at hkeep
          simpa [hother] using hkeep id rfl
  · unfold kindIn at hkeep ⊢
    rw [lookupIn_add_other hscope, if_neg fun h => hscope h.1]
    cases hid : table.lookupIn other scope with
    | none => rfl
    | some id =>
        rw [hid] at hkeep
        exact hkeep id rfl

/-- A declaration is shown behind those that its scope has had. -/
theorem Shows.ensure (hshows : table.Shows (frame :: env)) (hsound : table.Sound) (name : String)
    (kind : SymbolKind) (range : SourceRange) :
    (table.ensure name kind range).Shows ((frame ++ [(name, kind)]) :: env) := by
  obtain ⟨hframe, hrest⟩ := List.forall₂_cons.mp hshows
  unfold SymbolTable.ensure
  cases hlocal : table.lookupLocal name with
  | some earlier =>
      -- the name is taken, so its first declaration goes on counting
      obtain ⟨first, hfirst⟩ : ∃ first, table.kindIn name table.current = some first := by
        rw [← Option.ne_none_iff_exists', Ne, hsound.kindIn_eq_none_iff,
          show table.lookupIn name table.current = some earlier from hlocal]
        exact Option.some_ne_none earlier
      refine .cons (fun other => ?_) hrest
      show table.kindIn other table.current = _
      rw [Frame.lookup_concat, ← hframe other]
      by_cases hother : other = name
      · subst hother
        rw [hfirst, Option.some_or]
      · rw [if_neg hother, Option.or_none]
  | none =>
      have hfree : table.kindIn name table.current = none := hsound.kindIn_eq_none_iff.mpr hlocal
      have hshown : table.ShowsIn table.enclosing env := hrest
      refine .cons (fun other => ?_) (hshown.mono ?_)
      · show (table.add name kind range).kindIn other table.current = _
        rw [kindIn_add hsound hlocal, Frame.lookup_concat, ← hframe other]
        by_cases hother : other = name
        · subst hother
          simp [hfree]
        · simp [hother]
      · intro scope hscope other
        have hne : scope ≠ table.current := by
          rintro rfl
          exact (List.nodup_cons.mp hsound.opened_nodup).1 hscope
        show (table.add name kind range).kindIn other scope = _
        rw [kindIn_add hsound hlocal, if_neg fun h => hne h.1]

end SymbolTable

end BehaviorTree
