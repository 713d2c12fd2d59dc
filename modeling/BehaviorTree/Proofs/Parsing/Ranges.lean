import BehaviorTree.Proofs.Syntax.Marks
import BehaviorTree.Proofs.Lexical.Faults
import BehaviorTree.Proofs.Parsing.ProgramsRespect

/-!
# Ranges that a parser hands out

All ranges come from the tokens: they are merged, they reach from the start of one token to the end
of another, or they are empty where a token starts or ends. None of this leaves the source or cuts a
character in two, so what the tokens of a text have all nodes and reports have too.
-/

namespace BehaviorTree

/-! ## Places in a node

The ranges and names that a node itself has, listed, apart from those of its parts. All marks in a
tree are good just if those of each of its nodes are.
-/

section Places

def StmtHead.ownRanges (head : StmtHead) : List SourceRange :=
  head.origin.range :: head.preconditions.map Precondition.range

def Stmt.ownRanges : Stmt → List SourceRange
  | .varDecl head .. | .constDecl head .. | .assignment head .. => head.ownRanges
  | .leaf head _ arguments => head.ownRanges ++ arguments.map Argument.range
  | .compound head _ arguments _ => head.ownRanges ++ (arguments.getD []).map Argument.range

def Decl.ownRanges : Decl → List SourceRange
  | .importFile head _ pathRange => [head.origin.range, pathRange]
  | .node head _ _ ports behavior =>
    head.origin.range :: (ports.map Param.range ++ behavior.toList.map Behavior.range)
  | .tree head _ params _ => head.origin.range :: params.map Param.range
  | .opaqueType head _ | .typeAlias head .. | .varDecl head .. | .constDecl head .. =>
    [head.origin.range]

def Expr.ownNames : Expr → List Name
  | .ref _ name => [name]
  | _ => []

def TypeExpr.ownNames : TypeExpr → List Name
  | .named _ name => [name]
  | _ => []

def Stmt.ownNames : Stmt → List Name
  | .varDecl _ name .. | .constDecl _ name .. | .assignment _ name .. => [name]
  | .leaf _ callee arguments => callee :: arguments.filterMap Argument.name
  | .compound _ callee arguments _ => callee :: (arguments.getD []).filterMap Argument.name

def Decl.ownNames : Decl → List Name
  | .importFile .. => []
  | .node _ _ name ports _ => name :: ports.map Param.name
  | .tree _ name params _ => name :: params.map Param.name
  | .opaqueType _ name | .typeAlias _ name _ | .varDecl _ name .. | .constDecl _ name .. => [name]

namespace SyntaxNode

def ownRanges : SyntaxNode → List SourceRange
  | .expr e => [e.range]
  | .type t => [t.range]
  | .stmt s => s.ownRanges
  | .decl d => d.ownRanges

def ownNames : SyntaxNode → List Name
  | .expr e => e.ownNames
  | .type t => t.ownNames
  | .stmt s => s.ownNames
  | .decl d => d.ownNames

end SyntaxNode

/-! ### All marks and the marks of each node -/

variable {α β : Type} [Marked α] [Marked β] {good : Mark → Prop}

theorem Meets.cons {value : α} {values : List α} (h : Meets good value) (hrest : Meets good values) :
    Meets good (value :: values) := List.forall_mem_cons.mpr ⟨h, hrest⟩

theorem Meets.mapList {values : List α} {f : α → β} (h : Meets good values)
    (hf : ∀ value, Meets good value → Meets good (f value)) : Meets good (values.map f) := by
  rintro _ hmem
  obtain ⟨value, hvalue, rfl⟩ := List.mem_map.mp hmem
  exact hf value (h value hvalue)

theorem Meets.flatMapList {values : List α} {f : α → List β} (h : Meets good values)
    (hf : ∀ value, Meets good value → Meets good (f value)) : Meets good (values.flatMap f) := by
  intro inner hmem
  obtain ⟨value, hvalue, hinner⟩ := List.mem_flatMap.mp hmem
  exact hf value (h value hvalue) inner hinner

theorem Meets.filterMapList {values : List α} {f : α → Option β} (h : Meets good values)
    (hf : ∀ value, Meets good value → Meets good (f value)) : Meets good (values.filterMap f) := by
  intro inner hmem
  obtain ⟨value, hvalue, hinner⟩ := List.mem_filterMap.mp hmem
  exact hf value (h value hvalue) inner hinner

theorem Meets.getD {values : Option (List α)} (h : Meets good values) :
    Meets good (values.getD []) := by
  cases values with
  | none => exact .nil
  | some values => exact h.of_some

/-- All marks of a node itself, and all marks in its parts, are good. -/
structure SyntaxNode.MeetsOwn (good : Mark → Prop) (node : SyntaxNode) : Prop where
  ranges : Meets good node.ownRanges
  names : Meets good node.ownNames
  parts : Meets good node.parts

theorem Expr.meetsOwn {expr : Expr} (h : BehaviorTree.Meets good expr) :
    SyntaxNode.MeetsOwn good (.expr expr) := by
  refine ⟨.singleton (Expr.meets_range h), ?_, ?_⟩
  · cases expr with
    | ref origin name => exact .singleton h.2
    | _ => exact .nil
  · cases expr with
    | binary origin op left right => exact .cons h.2.1 (.singleton h.2.2)
    | index origin base position => exact .cons h.2.1 (.singleton h.2.2)
    | repeated origin value count => exact .cons h.2.1 (.singleton h.2.2)
    | cast origin operand type => exact .cons h.2.1 (.singleton h.2.2)
    | unary origin op operand => exact .singleton h.2
    | vec origin inner => exact .singleton h.2
    | array origin elements => exact (Expr.allMeet_iff.mp h.2).mapList fun _ helement => helement
    | _ => exact .nil

theorem TypeExpr.meetsOwn {type : TypeExpr} (h : BehaviorTree.Meets good type) :
    SyntaxNode.MeetsOwn good (.type type) := by
  constructor
  · cases type with
    | infer | string | missing => exact .singleton h
    | _ => exact .singleton h.1
  · cases type with
    | named origin name => exact .singleton h.2
    | _ => exact .nil
  · cases type with
    | staticArray origin element length => exact .cons h.2.1 (.singleton h.2.2)
    | boundedArray origin element bound => exact .cons h.2.1 (.singleton h.2.2)
    | vec origin element => exact .singleton h.2
    | nullable origin inner => exact .singleton h.2
    | _ => exact .nil

theorem StmtHead.meets_ownRanges {head : StmtHead} (h : Meets good head) :
    Meets good head.ownRanges := .cons h.1 (h.2.mapList fun _ hprecondition => hprecondition.2)

theorem StmtHead.meets_parts {head : StmtHead} (h : Meets good head) : Meets good head.parts :=
  h.2.mapList fun _ hprecondition => hprecondition.1

theorem Meets.typePart {type : Option TypeExpr} (h : Meets good type) :
    Meets good (type.toList.map SyntaxNode.type) := h.toList.mapList fun _ htype => htype

theorem Meets.exprPart {expr : Option Expr} (h : Meets good expr) :
    Meets good (expr.toList.map SyntaxNode.expr) := h.toList.mapList fun _ hexpr => hexpr

theorem Stmt.meetsOwn {stmt : Stmt} (h : BehaviorTree.Meets good stmt) :
    SyntaxNode.MeetsOwn good (.stmt stmt) := by
  cases stmt with
  | varDecl head name type init =>
      obtain ⟨hhead, hname, htype, hinit⟩ := h
      exact ⟨head.meets_ownRanges hhead, .singleton hname,
        .append (.append (head.meets_parts hhead) htype.typePart) hinit.exprPart⟩
  | constDecl head name type value =>
      obtain ⟨hhead, hname, htype, hvalue⟩ := h
      exact ⟨head.meets_ownRanges hhead, .singleton hname,
        .append (.append (head.meets_parts hhead) htype.typePart) (.singleton hvalue)⟩
  | assignment head target indices op value =>
      obtain ⟨hhead, htarget, hindices, hvalue⟩ := h
      exact ⟨head.meets_ownRanges hhead, .singleton htarget,
        .append (.append (head.meets_parts hhead) (hindices.mapList fun _ hindex => hindex))
          (.singleton hvalue)⟩
  | leaf head callee arguments =>
      obtain ⟨hhead, hcallee, harguments⟩ := h
      exact ⟨.append (head.meets_ownRanges hhead) (harguments.mapList fun _ hargument => hargument.2.2),
        .cons hcallee (harguments.filterMapList fun _ hargument => hargument.1),
        .append (head.meets_parts hhead) (harguments.mapList fun _ hargument => hargument.2.1)⟩
  | compound head callee arguments children =>
      obtain ⟨hhead, hcallee, harguments, hchildren⟩ := h
      have hlist := harguments.getD
      exact ⟨.append (head.meets_ownRanges hhead) (hlist.mapList fun _ hargument => hargument.2.2),
        .cons hcallee (hlist.filterMapList fun _ hargument => hargument.1),
        .append (.append (head.meets_parts hhead) (hlist.mapList fun _ hargument => hargument.2.1))
          ((Stmt.allMeet_iff.mp hchildren).mapList fun _ hchild => hchild)⟩

theorem Param.meets_parts {param : Param} (h : Meets good param) : Meets good param.parts :=
  .cons h.2.1 h.2.2.1.exprPart

theorem Decl.meetsOwn {decl : Decl} (h : BehaviorTree.Meets good decl) :
    SyntaxNode.MeetsOwn good (.decl decl) := by
  cases decl with
  | importFile head path pathRange => exact ⟨.cons h.1 (.singleton h.2), .nil, .nil⟩
  | node head category name ports behavior =>
      obtain ⟨hhead, hname, hports, hbehavior⟩ := h
      exact ⟨.cons hhead (.append (hports.mapList fun _ hport => hport.2.2.2)
          (hbehavior.toList.mapList fun _ hrange => hrange)),
        .cons hname (hports.mapList fun _ hport => hport.1),
        hports.flatMapList fun _ hport => Param.meets_parts hport⟩
  | opaqueType head name => exact ⟨.singleton h.1, .singleton h.2, .nil⟩
  | typeAlias head name type => exact ⟨.singleton h.1, .singleton h.2.1, .singleton h.2.2⟩
  | varDecl head name type init =>
      obtain ⟨hhead, hname, htype, hinit⟩ := h
      exact ⟨.singleton hhead, .singleton hname, .append htype.typePart hinit.exprPart⟩
  | constDecl head name type value =>
      obtain ⟨hhead, hname, htype, hvalue⟩ := h
      exact ⟨.singleton hhead, .singleton hname, .append htype.typePart (.singleton hvalue)⟩
  | tree head name params body =>
      obtain ⟨hhead, hname, hparams, hbody⟩ := h
      exact ⟨.cons hhead (hparams.mapList fun _ hparam => hparam.2.2.2),
        .cons hname (hparams.mapList fun _ hparam => hparam.1),
        .append (hparams.flatMapList fun _ hparam => Param.meets_parts hparam)
          (hbody.mapList fun _ hstmt => hstmt)⟩

theorem SyntaxNode.meetsOwn {node : SyntaxNode} (h : Meets good node) : node.MeetsOwn good := by
  cases node with
  | expr expr => exact Expr.meetsOwn h
  | type type => exact TypeExpr.meetsOwn h
  | stmt stmt => exact Stmt.meetsOwn h
  | decl decl => exact Decl.meetsOwn h

/-- What a node meets each node in it meets. -/
theorem SyntaxNode.meets_of_mem_nodes {node : SyntaxNode} (h : Meets good node) :
    ∀ inner ∈ node.nodes, Meets good inner := by
  induction node using partsInduction with
  | step node ih =>
      intro inner hmem
      rw [nodes_eq] at hmem
      rcases List.mem_cons.mp hmem with rfl | hdeeper
      · exact h
      · obtain ⟨part, hpart, hinner⟩ := List.mem_flatMap.mp hdeeper
        exact ih part hpart ((meetsOwn h).parts part hpart) inner hinner

/-- What a program meets each node that it reaches meets. -/
theorem Program.Reaches.meets {program : Program} {node : SyntaxNode} (hnode : program.Reaches node)
    (h : Meets good program) : Meets good node := by
  induction hnode with
  | @decl decl hdecl => exact h.2 decl hdecl
  | part _ hpart ih => exact (SyntaxNode.meetsOwn ih).parts _ hpart

end Places

/-! ## Ranges of nodes and reports -/

variable {source : SourceFile} {file : FileId}

namespace SourceRange

theorem Usable.atStart {range : SourceRange} (h : range.Usable source file) :
    (SourceRange.emptyAt file range.start).Usable source file := .emptyAt h.startsCharacter

theorem Usable.atStop {range : SourceRange} (h : range.Usable source file) :
    (SourceRange.emptyAt file range.stop).Usable source file := .emptyAt h.stopsCharacter

/-- From the start of one range to the end of the two that is further behind. -/
theorem Usable.reach {first last : SourceRange} (hfirst : first.Usable source file)
    (hlast : last.Usable source file) :
    (⟨file, first.start, max last.stop first.stop⟩ : SourceRange).Usable source file where
  file_eq := rfl
  ordered := Nat.le_trans hfirst.ordered (Nat.le_max_right _ _)
  bounded := Nat.max_le.mpr ⟨hlast.bounded, hfirst.bounded⟩
  startsCharacter := hfirst.startsCharacter
  stopsCharacter := by
    show source.floor (max _ _) = max _ _
    rcases Nat.le_total last.stop first.stop with hle | hle
    · rw [Nat.max_eq_right hle, hfirst.stopsCharacter]
    · rw [Nat.max_eq_left hle, hlast.stopsCharacter]

/-- From the start of the file to the end of a range. -/
theorem Usable.fromStart {range : SourceRange} (h : range.Usable source file) :
    (⟨file, 0, range.stop⟩ : SourceRange).Usable source file :=
  ⟨rfl, Nat.zero_le _, h.bounded, source.floor_zero, h.stopsCharacter⟩

end SourceRange

/-! ### Nodes -/

/-- All ranges that the node itself has are usable, and its names are those of the source. -/
structure SyntaxNode.Placed (source : SourceFile) (file : FileId) (node : SyntaxNode) : Prop where
  ranges : ∀ range ∈ node.ownRanges, range.Usable source file
  names : ∀ name ∈ node.ownNames, name.range.Usable source file ∧
    source.slice? name.range.start name.range.stop = some name.text

theorem SyntaxNode.Placed.of_meets {node : SyntaxNode} (h : Meets (Mark.Sound source file) node) :
    node.Placed source file :=
  ⟨(SyntaxNode.meetsOwn h).ranges, (SyntaxNode.meetsOwn h).names⟩

/-! ### States -/

namespace ParserState

/-- The tokens of the state are slices of the source, and what has been built since an arena and all
that was reported has usable ranges and the names of the source. -/
structure Sound (source : SourceFile) (file : FileId) (base : Arena) (s : ParserState) : Prop where
  file_eq : s.file = file
  rest : Meets (Mark.Sound source file) s.rest
  final : Meets (Mark.Sound source file) s.final
  lastRange : Meets (Mark.Sound source file) s.lastRange
  arena : base.Adopts (Mark.Sound source file) s.arena
  diagnostics : Meets (Mark.Sound source file) s.diagnostics

variable {base : Arena} {s : ParserState}

theorem Sound.token (h : s.Sound source file base) (count : Nat) :
    Meets (Mark.Sound source file) (s.tokenAt count) := by
  unfold tokenAt
  cases hfound : s.rest[count]? with
  | none => exact h.final
  | some token => exact h.rest token (List.mem_of_getElem? hfound)

theorem Sound.skip (h : s.Sound source file base) (count : Nat) :
    (s.skip count).Sound source file base where
  file_eq := h.file_eq
  rest token htoken := h.rest token (List.mem_of_mem_drop htoken)
  final := h.final
  lastRange := by
    unfold ParserState.skip
    dsimp only
    cases hlast : (s.rest.take count).getLast? with
    | none => exact h.lastRange
    | some token =>
        have htoken : token ∈ s.rest := List.mem_of_mem_take (List.mem_of_getLast? hlast)
        exact (h.rest token htoken).1
  arena := h.arena
  diagnostics := h.diagnostics

theorem Sound.report (h : s.Sound source file base) {diagnostic : Diagnostic}
    (hdiagnostic : Meets (Mark.Sound source file) diagnostic) :
    (s.report diagnostic).Sound source file base :=
  ⟨h.file_eq, h.rest, h.final, h.lastRange, h.arena, Meets.append h.diagnostics (.singleton hdiagnostic)⟩

theorem Sound.reportOnce (h : s.Sound source file base) {diagnostic : Diagnostic}
    (hdiagnostic : Meets (Mark.Sound source file) diagnostic) :
    (s.reportOnce diagnostic).Sound source file base := by
  unfold ParserState.reportOnce
  split
  · exact h
  · obtain ⟨hfile, hrest, hfinal, hlast, harena, hdiagnostics⟩ := h.report hdiagnostic
    exact ⟨hfile, hrest, hfinal, hlast, harena, hdiagnostics⟩

end ParserState

/-- Soundness is an invariant of parsers. -/
def Parser.Invariant.sound (source : SourceFile) (file : FileId) (base : Arena) : Invariant where
  state := ParserState.Sound source file base
  good := Mark.Sound source file
  token h count := h.token count
  merge := SourceRange.Usable.merge
  since := by
    intro s start h hstart
    rw [ParserState.rangeSince, h.file_eq]
    exact SourceRange.Usable.reach hstart h.lastRange
  here := by
    intro s h
    rw [h.file_eq]
    exact SourceRange.Usable.atStart (h.token 0).1
  behind := by
    intro s h
    rw [h.file_eq]
    exact SourceRange.Usable.atStop h.lastRange
  whole := by
    intro s h
    rw [h.file_eq]
    exact SourceRange.Usable.fromStart (h.token 0).1
  skip h _ := h.skip _
  report h _ hdiagnostic := h.report hdiagnostic
  reportOnce h _ hdiagnostic := h.reportOnce hdiagnostic
  withArena h hlater :=
    ⟨h.file_eq, h.rest, h.final, h.lastRange, h.arena.trans hlater, h.diagnostics⟩

namespace Parsed

open BehaviorTree.Parser

/-- The token that closes a stream stands where the last one of it ends. -/
theorem meets_closing {tokens : List Token} (htokens : Meets (Mark.Sound source file) tokens) :
    Meets (Mark.Sound source file) (closing file tokens) := by
  have hfloor : source.floor ((tokens.getLast?.map fun token => token.range.stop).getD 0) =
      (tokens.getLast?.map fun token => token.range.stop).getD 0 := by
    cases hlast : tokens.getLast? with
    | none => exact source.floor_zero
    | some last => exact (htokens last (List.mem_of_getLast? hlast)).1.stopsCharacter
  exact ⟨.emptyAt hfloor, SourceFile.slice?_empty hfloor⟩

theorem sound_initial {tokens : List Token} (htokens : Meets (Mark.Sound source file) tokens)
    (arena : Arena) : (initial file tokens arena).Sound source file arena where
  file_eq := rfl
  rest := by
    unfold initial
    dsimp only
    split
    · exact htokens
    · exact Meets.append htokens (.singleton (meets_closing htokens))
  final := by
    unfold initial
    dsimp only
    split
    · cases hlast : tokens.getLast? with
      | none => exact meets_closing htokens
      | some last => exact htokens last (List.mem_of_getLast? hlast)
    · exact meets_closing htokens
  lastRange := .emptyAt source.floor_zero
  arena := .refl arena
  diagnostics := .nil

/-- A program of tokens that are slices of a source. -/
theorem meets_ofTokens {tokens : List Token} (htokens : Meets (Mark.Sound source file) tokens)
    (arena : Arena) : Meets (Mark.Sound source file) (ofTokens file tokens arena).program ∧
      arena.Adopts (Mark.Sound source file) (ofTokens file tokens arena).arena ∧
      Meets (Mark.Sound source file) (ofTokens file tokens arena).diagnostics := by
  have hprogram : Respects (.sound source file arena) Parser.program := .program
  obtain ⟨hmeets, hsound⟩ := hprogram _ (sound_initial htokens arena)
  exact ⟨hmeets, hsound.arena, hsound.diagnostics⟩

/-- **Every range is usable.** Whatever the text, all ranges of its program, of each node in it, of
each node that the arena did not have before, and of the labels and edits of each report lie in the
text, start in front of where they end and cut no character in two. The text of each name is what the
source has at its range. -/
theorem ofText_usable (file : FileId) (path : Path) (text : String) (arena : Arena) :
    let source : SourceFile := ⟨path, text.toList⟩
    let parsed := ofText file text arena
    parsed.program.range.Usable source file ∧
      (∀ node, parsed.program.Reaches node → node.Placed source file) ∧
      (∀ kind id node, parsed.arena.node? kind id = some node →
        arena.node? kind id = some node ∨ ∀ inner ∈ node.nodes, inner.Placed source file) ∧
      ∀ diagnostic ∈ parsed.diagnostics, ∀ range ∈ diagnostic.ranges, range.Usable source file := by
  intro source parsed
  obtain ⟨htokens, hfaults⟩ := TokenStream.meets_ofText file path text
  obtain ⟨hprogram, harena, hreports⟩ := meets_ofTokens htokens arena
  have hdiagnostics : Meets (Mark.Sound source file) parsed.diagnostics := Meets.append hfaults hreports
  refine ⟨hprogram.1, fun node hnode => .of_meets (hnode.meets hprogram), ?_, hdiagnostics⟩
  intro kind id node hnode
  refine (harena kind id node hnode).imp_right fun hgood inner hinner => ?_
  exact .of_meets (SyntaxNode.meets_of_mem_nodes hgood inner hinner)

end Parsed

end BehaviorTree
