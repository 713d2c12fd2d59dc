import BehaviorTree.Proofs.Names.Environment

/-!
# Scopes of a program

The scopes that a program opens, told from the tree alone: one for each tree and one for each node
with children, each inside the scope that it stands in. Following the events of the program opens
exactly these and closes them again.
-/

namespace BehaviorTree

/-- Scopes in the order of opening, each with its kind and the number of the scope around it. -/
abbrev Outline := List (Option Nat × ScopeKind)

mutual

/-- The scopes of a statement in the scope `parent`, if the next one to be opened is `next`. -/
def Stmt.scopes (parent next : Nat) : Stmt → Outline
  | .varDecl .. | .constDecl .. | .assignment .. | .leaf .. => []
  | .compound _ _ _ children => (some parent, .block) :: Stmt.scopesAll next (next + 1) children

def Stmt.scopesAll (parent next : Nat) : List Stmt → Outline
  | [] => []
  | stmt :: rest =>
    let own := stmt.scopes parent next
    own ++ Stmt.scopesAll parent (next + own.length) rest

end

/-- The scopes of a declaration if the next one to be opened is `next`. -/
def Decl.scopes (next : Nat) : Decl → Outline
  | .tree _ _ _ body => (some SymbolTable.moduleScope, .tree) :: Stmt.scopesAll next (next + 1) body
  | .importFile .. | .node .. | .opaqueType .. | .typeAlias .. | .varDecl .. | .constDecl .. => []

def Decl.scopesAll (next : Nat) : List Decl → Outline
  | [] => []
  | decl :: rest =>
    let own := decl.scopes next
    own ++ Decl.scopesAll (next + own.length) rest

/-- The scope of the module and those of its trees. -/
def Program.scopes (program : Program) : Outline :=
  (none, .module) :: Decl.scopesAll 1 program.decls

namespace SymbolTable

def outline (table : SymbolTable) : Outline :=
  table.scopes.map fun scope => (scope.parent, scope.kind)

/-- The events open just these scopes and close all of them. -/
structure Opens (table : SymbolTable) (events : List NameEvent) (added : Outline) : Prop where
  opened : (events.foldl follow table).opened = table.opened
  outline : (events.foldl follow table).outline = table.outline ++ added

variable {table : SymbolTable} {events later inner : List NameEvent} {added more : Outline}

theorem length_outline (table : SymbolTable) : table.outline.length = table.scopes.length :=
  List.length_map _

theorem outline_ensure (name : String) (kind : SymbolKind) (range : SourceRange) :
    (table.ensure name kind range).outline = table.outline := by
  unfold ensure
  split
  · rfl
  · apply List.ext_getElem?
    intro i
    simp only [outline, add, List.getElem?_map, List.getElem?_modify]
    cases table.scopes[i]? with
    | none => rfl
    | some scope => split <;> rfl

namespace Opens

theorem nothing (huses : OnlyUses events) : table.Opens events [] := by
  constructor
  · rw [foldl_onlyUses huses]
  · rw [foldl_onlyUses huses, List.append_nil]

theorem append (hfirst : table.Opens events added)
    (hsecond : (events.foldl follow table).Opens later more) :
    table.Opens (events ++ later) (added ++ more) := by
  constructor
  · rw [List.foldl_append, hsecond.opened, hfirst.opened]
  · rw [List.foldl_append, hsecond.outline, hfirst.outline, List.append_assoc]

/-- Uses before other events. -/
theorem behind (huses : OnlyUses events) (hopens : table.Opens later added) :
    table.Opens (events ++ later) added := by
  have hlater : (events.foldl follow table).Opens later added := by rwa [foldl_onlyUses huses]
  exact (nothing huses).append hlater

theorem declare (kind : SymbolKind) (name : Name) : table.Opens [.declare kind name] [] := by
  constructor
  · exact opened_ensure
  · rw [List.append_nil]
    exact outline_ensure name.text kind name.range

theorem block (kind : ScopeKind) (hinner : (table.enter kind).Opens inner added) :
    table.Opens (.enter kind :: (inner ++ [.leave])) ((some table.current, kind) :: added) := by
  have hfold : (NameEvent.enter kind :: (inner ++ [.leave])).foldl follow table =
      (inner.foldl follow (table.enter kind)).exit := by
    rw [List.foldl_cons, List.foldl_append]
    rfl
  have henclosing : (inner.foldl follow (table.enter kind)).enclosing = table.opened :=
    (List.cons.inj hinner.opened).2
  constructor
  · rw [hfold]
    unfold exit
    rw [henclosing]
    rfl
  · have houtline : (inner.foldl follow (table.enter kind)).exit.outline =
        (inner.foldl follow (table.enter kind)).outline := by
      unfold exit
      split <;> rfl
    rw [hfold, houtline, hinner.outline]
    simp [SymbolTable.outline, enter]

end Opens

end SymbolTable

open SymbolTable

/-- The number of scopes behind some events. -/
theorem SymbolTable.Opens.length_scopes {table : SymbolTable} {events : List NameEvent}
    {added : Outline} (hopens : table.Opens events added) :
    (events.foldl follow table).scopes.length = table.scopes.length + added.length := by
  rw [← length_outline, hopens.outline, List.length_append, length_outline]

theorem SymbolTable.Opens.current {table : SymbolTable} {events : List NameEvent}
    {added : Outline} (hopens : table.Opens events added) :
    (events.foldl follow table).current = table.current :=
  (List.cons.inj hopens.opened).1

mutual

theorem Stmt.opens (table : SymbolTable) : (stmt : Stmt) →
    table.Opens stmt.nameEvents (stmt.scopes table.current table.scopes.length)
  | .varDecl head name type init => by
      refine .behind ?_ (.declare _ name)
      simp only [onlyUses_append]
      exact ⟨⟨head.onlyUses, onlyUses_nameEventsOfType type⟩, onlyUses_nameEventsOfExpr init⟩
  | .constDecl head name type value => by
      refine .behind ?_ (.declare _ name)
      simp only [onlyUses_append]
      exact ⟨⟨head.onlyUses, onlyUses_nameEventsOfType type⟩, value.onlyUses⟩
  | .assignment head target indices op value =>
      .nothing (Stmt.onlyUses_assignment head target indices op value)
  | .leaf head callee arguments => .nothing (Stmt.onlyUses_leaf head callee arguments)
  | .compound head callee arguments children => by
      obtain ⟨before, huses, hevents⟩ := Stmt.nameEvents_compound head callee arguments children
      have hchildren := Stmt.opensAll (table.enter .block) children
      have hlength : (table.enter .block).scopes.length = table.scopes.length + 1 :=
        List.length_append
      rw [hlength] at hchildren
      rw [hevents]
      exact .behind huses (.block .block hchildren)

theorem Stmt.opensAll (table : SymbolTable) : (stmts : List Stmt) →
    table.Opens (Stmt.nameEventsAll stmts)
      (Stmt.scopesAll table.current table.scopes.length stmts)
  | [] => .nothing onlyUses_nil
  | stmt :: rest => by
      have hstmt := stmt.opens table
      have hrest := Stmt.opensAll (stmt.nameEvents.foldl follow table) rest
      rw [hstmt.current, hstmt.length_scopes] at hrest
      exact hstmt.append hrest

end

theorem opens_nameEventsOfParams (table : SymbolTable) (tree : Origin) (params : List Param) :
    table.Opens (nameEventsOfParams tree params) [] := by
  unfold nameEventsOfParams
  generalize params.zipIdx = entries
  induction entries generalizing table with
  | nil => exact .nothing onlyUses_nil
  | cons entry rest ih =>
      rw [List.flatMap_cons]
      exact (SymbolTable.Opens.behind entry.1.onlyUses (.declare _ entry.1.name)).append (ih _)

theorem Decl.opens {table : SymbolTable} (hcurrent : table.current = moduleScope) (decl : Decl) :
    table.Opens decl.nameEvents (decl.scopes table.scopes.length) := by
  cases decl with
  | importFile | node | opaqueType | typeAlias | varDecl | constDecl =>
      exact .nothing (Decl.onlyUses rfl)
  | tree head name params body =>
      have hparams := opens_nameEventsOfParams (table.enter .tree) head.origin params
      have hbody := Stmt.opensAll
        ((nameEventsOfParams head.origin params).foldl follow (table.enter .tree)) body
      have hlength : (table.enter .tree).scopes.length = table.scopes.length + 1 :=
        List.length_append
      rw [hparams.current, hparams.length_scopes, hlength] at hbody
      have hblock := SymbolTable.Opens.block .tree (hparams.append hbody)
      rw [hcurrent] at hblock
      exact hblock

theorem Decl.opensAll {table : SymbolTable} (hcurrent : table.current = moduleScope)
    (decls : List Decl) :
    table.Opens (decls.flatMap Decl.nameEvents) (Decl.scopesAll table.scopes.length decls) := by
  induction decls generalizing table with
  | nil => exact .nothing onlyUses_nil
  | cons decl rest ih =>
      have hdecl := decl.opens hcurrent
      have hrest := ih (hdecl.current.trans hcurrent)
      rw [hdecl.length_scopes] at hrest
      exact hdecl.append hrest

/-- **Scopes follow the tree.** From a table with nothing but the scope of the module, the events of
a program lead to one with the scopes of the program, in which that scope is the current one. -/
theorem Program.opens (program : Program) {table : SymbolTable}
    (hopened : table.opened = [moduleScope]) (houtline : table.outline = [(none, .module)]) :
    (program.nameEvents.foldl follow table).opened = [moduleScope] ∧
      (program.nameEvents.foldl follow table).outline = program.scopes := by
  have hcurrent : table.current = moduleScope := (List.cons.inj hopened).1
  have hopens := Decl.opensAll hcurrent program.decls
  have hlength : table.scopes.length = 1 := by
    rw [← length_outline, houtline]
    rfl
  rw [hlength] at hopens
  refine ⟨hopens.opened.trans hopened, hopens.outline.trans ?_⟩
  rw [houtline]
  rfl

end BehaviorTree
