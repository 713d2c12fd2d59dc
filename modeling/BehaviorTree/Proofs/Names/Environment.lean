import BehaviorTree.Proofs.Names.Occurrences
import BehaviorTree.Proofs.Names.Scopes

/-!
# Environments of a program

The reference for lexical scoping: for each node of a program the environment that it is looked at
in, told from the tree alone, and the scopes that the program opens. The symbol table that follows
the events of the program shows each node its environment and opens just these scopes.
-/

namespace BehaviorTree

/-! ### Declarations -/

/-- What a statement declares in the scope that it stands in. -/
def Stmt.declared : Stmt → Frame
  | .varDecl head name .. => [(name.text, .localVar head.origin)]
  | .constDecl head name .. => [(name.text, .localConst head.origin)]
  | .assignment .. | .leaf .. | .compound .. => []

def declaredParams (tree : Origin) (params : List Param) : Frame :=
  params.zipIdx.map fun (param, index) => (param.name.text, .param tree index param.direction)

/-- What a declaration declares in the scope of the module. -/
def Decl.declared : Decl → Frame
  | .varDecl head name .. => [(name.text, .globalVar head.origin)]
  | .constDecl head name .. => [(name.text, .globalConst head.origin)]
  | .importFile .. | .node .. | .opaqueType .. | .typeAlias .. | .tree .. => []

def Program.globals (program : Program) : Frame := program.decls.flatMap Decl.declared

/-! ### Environments -/

/-- The node is looked at in the environment. A parameter does not see itself and the parameters
behind it, a statement sees the statements of its block before it, and the preconditions and
arguments of a node with children stand outside the block of the children. -/
inductive Program.Sees (program : Program) : Environment → SyntaxNode → Prop
  | top {decl : Decl} {part : SyntaxNode} : decl ∈ program.decls → decl.isTree = false →
    part ∈ decl.parts → Sees program [program.globals] part
  | param {head : DeclHead} {name : Name} {before after : List Param} {param : Param}
      {body : List Stmt} {part : SyntaxNode} :
    .tree head name (before ++ param :: after) body ∈ program.decls → part ∈ param.parts →
    Sees program [declaredParams head.origin before, program.globals] part
  | body {head : DeclHead} {name : Name} {params : List Param} {before after : List Stmt}
      {stmt : Stmt} :
    .tree head name params (before ++ stmt :: after) ∈ program.decls →
    Sees program
      [declaredParams head.origin params ++ before.flatMap Stmt.declared, program.globals]
      (.stmt stmt)
  | child {env : Environment} {head : StmtHead} {callee : Name} {arguments : Option (List Argument)}
      {before after : List Stmt} {stmt : Stmt} :
    Sees program env (.stmt (.compound head callee arguments (before ++ stmt :: after))) →
    Sees program (before.flatMap Stmt.declared :: env) (.stmt stmt)
  | part {env : Environment} {node part : SyntaxNode} : Sees program env node →
    part ∈ node.outerParts → Sees program env part

variable {program : Program} {env : Environment} {node : SyntaxNode} {table : SymbolTable}
  {frame : Frame} {events : List NameEvent}

/-- Declarations are not part of anything. -/
theorem SyntaxNode.decl_not_mem_parts (decl : Decl) (node : SyntaxNode) :
    .decl decl ∉ node.parts := by
  cases node with
  | expr e => cases e <;> simp [parts, Expr.parts]
  | type t => cases t <;> simp [parts, TypeExpr.parts]
  | stmt s =>
      cases s <;> simp [parts, Stmt.parts, StmtHead.parts, Argument.part]
  | decl d => cases d <;> simp [parts, Decl.parts, Param.parts]

/-- What stands in a tree or in another declaration sees an environment. -/
theorem Program.sees_of_mem_parts {decl : Decl} (hdecl : decl ∈ program.decls)
    (hpart : node ∈ decl.parts) : ∃ env, program.Sees env node := by
  cases decl with
  | tree head name params body =>
      rcases List.mem_append.mp hpart with hparam | hstmt
      · obtain ⟨param, hmem, hin⟩ := List.mem_flatMap.mp hparam
        obtain ⟨before, after, rfl⟩ := List.append_of_mem hmem
        exact ⟨_, .param hdecl hin⟩
      · obtain ⟨stmt, hmem, rfl⟩ := List.mem_map.mp hstmt
        obtain ⟨before, after, rfl⟩ := List.append_of_mem hmem
        exact ⟨_, .body hdecl⟩
  | importFile | node | opaqueType | typeAlias | varDecl | constDecl =>
      exact ⟨_, .top hdecl rfl hpart⟩

/-- A part of what sees an environment sees that one or, in a block, one with a frame more. -/
theorem Program.Sees.of_mem_parts {part : SyntaxNode} (hsees : program.Sees env node)
    (hdecl : ∀ decl, node ≠ .decl decl) (hpart : part ∈ node.parts) :
    ∃ env, program.Sees env part := by
  cases node with
  | expr e => exact ⟨env, .part hsees hpart⟩
  | type t => exact ⟨env, .part hsees hpart⟩
  | decl d => exact absurd rfl (hdecl d)
  | stmt s =>
      cases s with
      | varDecl | constDecl | assignment | leaf => exact ⟨env, .part hsees hpart⟩
      | compound head callee arguments children =>
          rcases List.mem_append.mp hpart with houter | hchild
          · exact ⟨env, .part hsees houter⟩
          · obtain ⟨stmt, hstmt, rfl⟩ := List.mem_map.mp hchild
            obtain ⟨before, after, rfl⟩ := List.append_of_mem hstmt
            exact ⟨_, .child hsees⟩

/-- Every node but the declarations themselves sees an environment. -/
theorem Program.Reaches.sees (hreaches : program.Reaches node) :
    (∃ decl ∈ program.decls, node = .decl decl) ∨ ∃ env, program.Sees env node := by
  induction hreaches with
  | decl hdecl => exact .inl ⟨_, hdecl, rfl⟩
  | @part node part hreaches hpart ih =>
      refine .inr ?_
      rcases ih with ⟨decl, hdecl, rfl⟩ | ⟨env, hsees⟩
      · exact sees_of_mem_parts hdecl hpart
      · by_cases hdecl : ∃ decl, node = .decl decl
        · obtain ⟨decl, rfl⟩ := hdecl
          cases hreaches with
          | decl hmem => exact sees_of_mem_parts hmem hpart
          | part _ hmem => exact absurd hmem (SyntaxNode.decl_not_mem_parts decl _)
        · exact hsees.of_mem_parts (fun decl heq => hdecl ⟨decl, heq⟩) hpart

/-! ### The table shows the environment -/

namespace SymbolTable

theorem foldl_onlyUses (huses : OnlyUses events) : events.foldl follow table = table := by
  induction events with
  | nil => rfl
  | cons event events ih =>
      obtain ⟨huse, hrest⟩ := onlyUses_cons.mp huses
      have hsame : table.follow event = table := by
        cases event with
        | use | textType => rfl
        | declare | enter | leave => exact huse.elim
      rw [List.foldl_cons, hsame, ih hrest]

theorem foldl_block {before inner : List NameEvent} (kind : ScopeKind) (huses : OnlyUses before) :
    (before ++ NameEvent.enter kind :: (inner ++ [.leave])).foldl follow table =
      (inner.foldl follow (table.enter kind)).exit := by
  rw [List.foldl_append, foldl_onlyUses huses, List.foldl_cons, List.foldl_append]
  rfl

theorem foldl_declare {before : List NameEvent} (kind : SymbolKind) (name : Name)
    (huses : OnlyUses before) :
    (before ++ [NameEvent.declare kind name]).foldl follow table = table.ensure name.text kind name.range := by
  rw [List.foldl_append, foldl_onlyUses huses]
  rfl

end SymbolTable

open SymbolTable

/-- The events of a node with children: what is outside its block, then the block. -/
theorem Stmt.nameEvents_compound (head : StmtHead) (callee : Name)
    (arguments : Option (List Argument)) (children : List Stmt) :
    ∃ before, OnlyUses before ∧ (Stmt.compound head callee arguments children).nameEvents =
      before ++ .enter .block :: (Stmt.nameEventsAll children ++ [.leave]) := by
  refine ⟨head.nameEvents ++ .use .node head.origin callee ::
    nameEventsOfArguments (arguments.getD []), ?_, ?_⟩
  · have huses := onlyUses_nameEventsOfArguments (arguments.getD [])
    exact onlyUses_append.mpr ⟨head.onlyUses, onlyUses_cons.mpr ⟨trivial, huses⟩⟩
  · rw [Stmt.nameEvents, List.append_assoc, List.cons_append]

theorem Stmt.onlyUses_assignment (head : StmtHead) (target : Name) (indices : List Expr)
    (op : AssignOp) (value : Expr) :
    OnlyUses (Stmt.assignment head target indices op value).nameEvents :=
  onlyUses_append.mpr ⟨head.onlyUses, onlyUses_cons.mpr
    ⟨trivial, onlyUses_append.mpr ⟨Expr.onlyUsesAll indices, value.onlyUses⟩⟩⟩

theorem Stmt.onlyUses_leaf (head : StmtHead) (callee : Name) (arguments : List Argument) :
    OnlyUses (Stmt.leaf head callee arguments).nameEvents :=
  onlyUses_append.mpr ⟨head.onlyUses, onlyUses_cons.mpr
    ⟨trivial, onlyUses_nameEventsOfArguments arguments⟩⟩

mutual

theorem Stmt.shows {table : SymbolTable} {frame : Frame} {env : Environment} :
    (stmt : Stmt) → table.Sound → table.Shows (frame :: env) →
    (stmt.nameEvents.foldl follow table).Shows ((frame ++ stmt.declared) :: env)
  | .varDecl head name type init, hsound, hshows => by
      have huses : OnlyUses (head.nameEvents ++ nameEventsOfType type ++ nameEventsOfExpr init) := by
        simp only [onlyUses_append]
        exact ⟨⟨head.onlyUses, onlyUses_nameEventsOfType type⟩, onlyUses_nameEventsOfExpr init⟩
      rw [Stmt.nameEvents, foldl_declare _ _ huses]
      exact hshows.ensure hsound _ _ _
  | .constDecl head name type value, hsound, hshows => by
      have huses : OnlyUses (head.nameEvents ++ nameEventsOfType type ++ value.nameEvents) := by
        simp only [onlyUses_append]
        exact ⟨⟨head.onlyUses, onlyUses_nameEventsOfType type⟩, value.onlyUses⟩
      rw [Stmt.nameEvents, foldl_declare _ _ huses]
      exact hshows.ensure hsound _ _ _
  | .assignment head target indices op value, _, hshows => by
      rw [foldl_onlyUses (Stmt.onlyUses_assignment head target indices op value), Stmt.declared,
        List.append_nil]
      exact hshows
  | .leaf head callee arguments, _, hshows => by
      rw [foldl_onlyUses (Stmt.onlyUses_leaf head callee arguments), Stmt.declared, List.append_nil]
      exact hshows
  | .compound head callee arguments children, hsound, hshows => by
      obtain ⟨before, huses, hevents⟩ := Stmt.nameEvents_compound head callee arguments children
      rw [hevents, foldl_block _ huses, Stmt.declared, List.append_nil]
      exact (Stmt.showsAll children (hsound.enter .block) (hshows.enter hsound .block)).exit

theorem Stmt.showsAll {table : SymbolTable} {frame : Frame} {env : Environment} :
    (stmts : List Stmt) → table.Sound → table.Shows (frame :: env) →
    ((Stmt.nameEventsAll stmts).foldl follow table).Shows
      ((frame ++ stmts.flatMap Stmt.declared) :: env)
  | [], _, hshows => by
      rw [List.flatMap_nil, List.append_nil]
      exact hshows
  | stmt :: rest, hsound, hshows => by
      have hstmt := stmt.shows hsound hshows
      rw [Stmt.nameEventsAll, List.foldl_append, List.flatMap_cons, ← List.append_assoc]
      exact Stmt.showsAll rest (hsound.foldl _) hstmt

end

/-- The events of the parameters whose numbers start at `first`. -/
theorem shows_params {tree : Origin} {params : List Param} {first : Nat} (hsound : table.Sound)
    (hshows : table.Shows (frame :: env)) :
    (((params.zipIdx first).flatMap fun (param, index) =>
        param.nameEvents ++ [.declare (.param tree index param.direction) param.name]).foldl
      follow table).Shows
      ((frame ++ (params.zipIdx first).map fun (param, index) =>
        (param.name.text, .param tree index param.direction)) :: env) := by
  induction params generalizing table frame first with
  | nil =>
      rw [List.zipIdx_nil, List.map_nil, List.append_nil]
      exact hshows
  | cons param rest ih =>
      have hensured := hshows.ensure hsound param.name.text (.param tree first param.direction)
        param.name.range
      rw [List.zipIdx_cons, List.flatMap_cons, List.foldl_append, foldl_declare _ _ param.onlyUses,
        List.map_cons, List.append_cons]
      exact ih hsound.ensure hensured

theorem shows_nameEventsOfParams (tree : Origin) (params : List Param) (hsound : table.Sound)
    (hshows : table.Shows (frame :: env)) :
    ((nameEventsOfParams tree params).foldl follow table).Shows
      ((frame ++ declaredParams tree params) :: env) :=
  shows_params hsound hshows

theorem Decl.onlyUses {decl : Decl} (htree : decl.isTree = false) : OnlyUses decl.nameEvents := by
  cases decl with
  | importFile | opaqueType => exact onlyUses_nil
  | node head category name ports behavior => exact onlyUses_flatMap fun port _ => port.onlyUses
  | typeAlias head name type => exact type.onlyUses
  | varDecl head name type init =>
      exact onlyUses_append.mpr ⟨onlyUses_nameEventsOfType type, onlyUses_nameEventsOfExpr init⟩
  | constDecl head name type value =>
      exact onlyUses_append.mpr ⟨onlyUses_nameEventsOfType type, value.onlyUses⟩
  | tree => cases htree

theorem foldl_tree (head : DeclHead) (name : Name) (params : List Param) (body : List Stmt) :
    (Decl.tree head name params body).nameEvents.foldl follow table =
      ((Stmt.nameEventsAll body).foldl follow
        ((nameEventsOfParams head.origin params).foldl follow (table.enter .tree))).exit := by
  rw [Decl.nameEvents, List.foldl_cons, List.foldl_append, List.foldl_append]
  rfl

/-- The tree's scope shows its parameters. -/
theorem shows_enter_tree (head : DeclHead) (params : List Param) (hsound : table.Sound)
    (hshows : table.Shows env) :
    ((nameEventsOfParams head.origin params).foldl follow (table.enter .tree)).Shows
      (declaredParams head.origin params :: env) :=
  shows_nameEventsOfParams head.origin params (hsound.enter .tree) (hshows.enter hsound .tree)

/-- Behind a declaration the scope of the module shows what it did before. -/
theorem Decl.shows (decl : Decl) (hsound : table.Sound) (hshows : table.Shows [frame]) :
    (decl.nameEvents.foldl follow table).Shows [frame] := by
  cases decl with
  | importFile | node | opaqueType | typeAlias | varDecl | constDecl =>
      rw [foldl_onlyUses (Decl.onlyUses rfl)]
      exact hshows
  | tree head name params body =>
      have hparams := shows_enter_tree head params hsound hshows
      rw [foldl_tree]
      exact (Stmt.showsAll body ((hsound.enter .tree).foldl _) hparams).exit

theorem shows_flatMap_decls (decls : List Decl) (hsound : table.Sound)
    (hshows : table.Shows [frame]) :
    ((decls.flatMap Decl.nameEvents).foldl follow table).Shows [frame] := by
  induction decls generalizing table with
  | nil => exact hshows
  | cons decl rest ih =>
      rw [List.flatMap_cons, List.foldl_append]
      exact ih (hsound.foldl _) (decl.shows hsound hshows)

/-- The events of the node stand in the list where the table shows the environment. -/
def SymbolTable.Reads (table : SymbolTable) (events : List NameEvent) (env : Environment)
    (node : SyntaxNode) : Prop :=
  ∃ before after, events = before ++ node.nameEvents ++ after ∧ (before.foldl follow table).Shows env

namespace SymbolTable.Reads

variable {before after : List NameEvent}

theorem left (hreads : table.Reads events env node) (after : List NameEvent) :
    table.Reads (events ++ after) env node := by
  obtain ⟨front, back, rfl, hshows⟩ := hreads
  exact ⟨front, back ++ after, by simp, hshows⟩

theorem right (hreads : (before.foldl follow table).Reads events env node) :
    table.Reads (before ++ events) env node := by
  obtain ⟨front, back, rfl, hshows⟩ := hreads
  exact ⟨before ++ front, back, by simp, by rwa [List.foldl_append]⟩

/-- In a scope that is opened first. -/
theorem enter {kind : ScopeKind} (hreads : (table.enter kind).Reads events env node) :
    table.Reads (.enter kind :: events) env node := by
  obtain ⟨front, back, rfl, hshows⟩ := hreads
  exact ⟨.enter kind :: front, back, by simp, hshows⟩

theorem of_occurs (hshows : table.Shows env) (hoccurs : node.Occurs events) :
    table.Reads events env node := by
  obtain ⟨front, back, rfl, huses⟩ := hoccurs
  exact ⟨front, back, rfl, by rwa [foldl_onlyUses huses]⟩

/-- A statement of a block or a body. -/
theorem stmt (before after : List Stmt) (stmt : Stmt) (hsound : table.Sound)
    (hshows : table.Shows (frame :: env)) :
    table.Reads (Stmt.nameEventsAll (before ++ stmt :: after))
      ((frame ++ before.flatMap Stmt.declared) :: env) (.stmt stmt) := by
  have hbefore := Stmt.showsAll before hsound hshows
  have hself : SyntaxNode.Occurs (.stmt stmt) (Stmt.nameEventsAll (stmt :: after)) :=
    (SyntaxNode.Occurs.self (.stmt stmt)).left _
  have hreads := (of_occurs hbefore hself).right
  rwa [Stmt.nameEventsAll_eq_flatMap, Stmt.nameEventsAll_eq_flatMap, ← List.flatMap_append,
    ← Stmt.nameEventsAll_eq_flatMap] at hreads

end SymbolTable.Reads

/-- The events of a parameter stand behind those of the parameters before it. -/
theorem nameEventsOfParams_append_cons (tree : Origin) (before after : List Param) (param : Param) :
    ∃ rest, nameEventsOfParams tree (before ++ param :: after) =
      nameEventsOfParams tree before ++ (param.nameEvents ++ rest) := by
  unfold nameEventsOfParams
  rw [List.zipIdx_append, List.flatMap_append, List.zipIdx_cons, List.flatMap_cons]
  exact ⟨_, congrArg _ (List.append_assoc _ _ _)⟩

theorem reads_param {head : DeclHead} {name : Name} {before after : List Param} {param : Param}
    {body : List Stmt} (hpart : node ∈ param.parts) (hsound : table.Sound)
    (hshows : table.Shows env) :
    table.Reads (Decl.tree head name (before ++ param :: after) body).nameEvents
      (declaredParams head.origin before :: env) node := by
  obtain ⟨rest, hparams⟩ := nameEventsOfParams_append_cons head.origin before after param
  have hbefore := shows_enter_tree head before hsound hshows
  have hreads := (SymbolTable.Reads.of_occurs hbefore ((Param.occurs hpart).left rest)).right
  rw [← hparams] at hreads
  have hinner := (hreads.left (Stmt.nameEventsAll body)).left [.leave]
  exact hinner.enter

theorem reads_body {head : DeclHead} {name : Name} {params : List Param} {before after : List Stmt}
    {stmt : Stmt} (hsound : table.Sound) (hshows : table.Shows env) :
    table.Reads (Decl.tree head name params (before ++ stmt :: after)).nameEvents
      ((declaredParams head.origin params ++ before.flatMap Stmt.declared) :: env) (.stmt stmt) := by
  have hparams := shows_enter_tree head params hsound hshows
  have hreads := SymbolTable.Reads.stmt before after stmt ((hsound.enter .tree).foldl _) hparams
  exact (hreads.right.left [.leave]).enter

theorem reads_child {head : StmtHead} {callee : Name} {arguments : Option (List Argument)}
    {before after : List Stmt} {stmt : Stmt} (hsound : table.Sound) (hshows : table.Shows env) :
    table.Reads (Stmt.compound head callee arguments (before ++ stmt :: after)).nameEvents
      (before.flatMap Stmt.declared :: env) (.stmt stmt) := by
  obtain ⟨outside, huses, hevents⟩ :=
    Stmt.nameEvents_compound head callee arguments (before ++ stmt :: after)
  have hreads := SymbolTable.Reads.stmt before after stmt (hsound.enter .block)
    (hshows.enter hsound .block)
  have hblock := (hreads.left [.leave]).enter
  rw [hevents]
  refine SymbolTable.Reads.right ?_
  rwa [foldl_onlyUses huses]

/-- What is found in one declaration of a program is found in the program. -/
theorem Program.reads_decl {decl : Decl} (hdecl : decl ∈ program.decls) (hsound : table.Sound)
    (hshows : table.Shows [frame])
    (hreads : ∀ later : SymbolTable, later.Sound → later.Shows [frame] →
      later.Reads decl.nameEvents env node) : table.Reads program.nameEvents env node := by
  obtain ⟨before, after, hdecls⟩ := List.append_of_mem hdecl
  unfold nameEvents
  rw [hdecls, List.flatMap_append, List.flatMap_cons]
  have hfront := shows_flatMap_decls before hsound hshows
  exact ((hreads _ (hsound.foldl _) hfront).left _).right

/-- **The table follows the environment.** What sees an environment is looked at when the table
shows that environment. -/
theorem Program.Sees.reads (hsees : program.Sees env node) (hsound : table.Sound)
    (hshows : table.Shows [program.globals]) : table.Reads program.nameEvents env node := by
  induction hsees with
  | top hdecl htree hpart =>
      refine reads_decl hdecl hsound hshows fun later _ hlater => ?_
      exact .of_occurs hlater (Decl.occurs htree hpart)
  | param hdecl hpart =>
      exact reads_decl hdecl hsound hshows fun later hsound hlater => reads_param hpart hsound hlater
  | body hdecl =>
      exact reads_decl hdecl hsound hshows fun later hsound hlater => reads_body hsound hlater
  | child _ ih =>
      obtain ⟨front, back, hevents, hfront⟩ := ih
      rw [hevents, List.append_assoc]
      exact ((reads_child (hsound.foldl _) hfront).left _).right
  | part _ hpart ih =>
      obtain ⟨front, back, hevents, hfront⟩ := ih
      rw [hevents, List.append_assoc]
      exact ((SymbolTable.Reads.of_occurs hfront (SyntaxNode.occurs hpart)).left _).right

end BehaviorTree
