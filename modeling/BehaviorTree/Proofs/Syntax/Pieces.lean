import BehaviorTree.Proofs.Syntax.Nodes
import BehaviorTree.Token

/-!
# Pieces of a program

The parts of a program that have a range of their own: its nodes, and between them ports,
parameters, arguments and preconditions. `Laid` says how a piece lies over the tokens that it was
read from. Tokens between its parts, and in front of the first and behind the last of them, belong
to the piece alone.
-/

namespace BehaviorTree

inductive Piece
  | expr (expr : Expr)
  | type (type : TypeExpr)
  | stmt (stmt : Stmt)
  | decl (decl : Decl)
  /-- A port or a parameter. -/
  | param (param : Param)
  | argument (argument : Argument)
  | precondition (precondition : Precondition)

namespace Piece

def range : Piece → SourceRange
  | expr e => e.range
  | type t => t.range
  | stmt s => s.range
  | decl d => d.range
  | param p => p.range
  | argument a => a.range
  | precondition p => p.range

end Piece

/-! ### Parts, in the order of the source -/

def Expr.pieces : Expr → List Piece
  | .int .. | .float .. | .string .. | .bool .. | .null _ | .ref .. | .missing _ => []
  | .binary _ _ left right => [.expr left, .expr right]
  | .unary _ _ operand => [.expr operand]
  | .index _ base position => [.expr base, .expr position]
  | .cast _ operand type => [.expr operand, .type type]
  | .array _ elements => elements.map .expr
  | .repeated _ value count => [.expr value, .expr count]
  | .vec _ inner => [.expr inner]

def TypeExpr.pieces : TypeExpr → List Piece
  | .named .. | .infer _ | .string .. | .missing _ => []
  | .staticArray _ element length => [.type element, .expr length]
  | .boundedArray _ element bound => [.type element, .expr bound]
  | .vec _ element => [.type element]
  | .nullable _ inner => [.type inner]

/-- A type that may be left out and a value that may be. -/
def typedPieces (type : Option TypeExpr) (value : Option Expr) : List Piece :=
  type.toList.map .type ++ value.toList.map .expr

def StmtHead.pieces (head : StmtHead) : List Piece := head.preconditions.map .precondition

def Stmt.pieces : Stmt → List Piece
  | .varDecl head _ type init => head.pieces ++ typedPieces type init
  | .constDecl head _ type value => head.pieces ++ typedPieces type (some value)
  | .assignment head _ indices _ value => head.pieces ++ (indices.map .expr ++ [.expr value])
  | .leaf head _ arguments => head.pieces ++ arguments.map .argument
  | .compound head _ arguments children =>
    head.pieces ++ ((arguments.getD []).map .argument ++ children.map .stmt)

def Decl.pieces : Decl → List Piece
  | .importFile .. | .opaqueType .. => []
  | .node _ _ _ ports _ => ports.map .param
  | .typeAlias _ _ type => [.type type]
  | .varDecl _ _ type init => typedPieces type init
  | .constDecl _ _ type value => typedPieces type (some value)
  | .tree _ _ params body => params.map .param ++ body.map .stmt

namespace Piece

def parts : Piece → List Piece
  | expr e => e.pieces
  | type t => t.pieces
  | stmt s => s.pieces
  | decl d => d.pieces
  | param p => typedPieces (some p.type) p.default
  | argument a => [.expr a.value]
  | precondition p => [.expr p.condition]

end Piece

/-- The pieces of a program. -/
inductive Program.Contains (program : Program) : Piece → Prop
  | decl {decl : Decl} : decl ∈ program.decls → Contains program (.decl decl)
  | part {piece part : Piece} :
    Contains program piece → part ∈ piece.parts → Contains program part

/-! ### Nodes are pieces -/

def SyntaxNode.piece : SyntaxNode → Piece
  | .expr e => .expr e
  | .type t => .type t
  | .stmt s => .stmt s
  | .decl d => .decl d

/-- The nodes that a piece is or carries. -/
def Piece.nodes : Piece → List SyntaxNode
  | expr e => [.expr e]
  | type t => [.type t]
  | stmt s => [.stmt s]
  | decl d => [.decl d]
  | param p => p.parts
  | argument a => [a.part]
  | precondition p => [.expr p.condition]

theorem typedPieces_nodes (type : Option TypeExpr) (value : Option Expr) :
    (typedPieces type value).flatMap Piece.nodes =
      type.toList.map SyntaxNode.type ++ value.toList.map SyntaxNode.expr := by
  cases type <;> cases value <;> rfl

theorem SyntaxNode.parts_eq_flatMap (node : SyntaxNode) :
    node.parts = node.piece.parts.flatMap Piece.nodes := by
  cases node with
  | expr e =>
      show e.parts = e.pieces.flatMap Piece.nodes
      cases e with
      | array _ elements => simp [Expr.parts, Expr.pieces, List.map_eq_flatMap, List.flatMap_assoc, Piece.nodes]
      | _ => rfl
  | type t => cases t <;> rfl
  | stmt s =>
      show s.parts = s.pieces.flatMap Piece.nodes
      cases s <;> simp [Stmt.parts, Stmt.pieces, StmtHead.parts, StmtHead.pieces,
        List.map_eq_flatMap, List.flatMap_assoc, Piece.nodes, typedPieces_nodes]
  | decl d =>
      show d.parts = d.pieces.flatMap Piece.nodes
      cases d <;> simp [Decl.parts, Decl.pieces, List.map_eq_flatMap, List.flatMap_assoc,
        Piece.nodes, typedPieces_nodes]

/-- A piece carries a node in itself or in one of its parts. -/
theorem Piece.eq_or_mem_of_mem_nodes {carrier : Piece} {node : SyntaxNode} (h : node ∈ carrier.nodes) :
    node.piece = carrier ∨ node.piece ∈ carrier.parts := by
  cases carrier with
  | param p =>
    right
    rcases List.mem_cons.mp h with rfl | hdefault
    · exact List.mem_cons_self
    · obtain ⟨value, hvalue, rfl⟩ := List.mem_map.mp hdefault
      exact List.mem_cons_of_mem _ (List.mem_map_of_mem hvalue)
  | argument a =>
    cases List.mem_singleton.mp h
    exact .inr List.mem_cons_self
  | precondition p =>
    cases List.mem_singleton.mp h
    exact .inr List.mem_cons_self
  | _ =>
    cases List.mem_singleton.mp h
    exact .inl rfl

theorem Program.Reaches.contains {program : Program} {node : SyntaxNode}
    (hnode : program.Reaches node) : program.Contains node.piece := by
  induction hnode with
  | decl hmem => exact .decl hmem
  | @part node part _ hpart ih =>
      rw [SyntaxNode.parts_eq_flatMap] at hpart
      obtain ⟨carrier, hcarrier, hnode⟩ := List.mem_flatMap.mp hpart
      have hcontains := ih.part hcarrier
      rcases Piece.eq_or_mem_of_mem_nodes hnode with heq | hmem
      · exact heq ▸ hcontains
      · exact hcontains.part hmem

theorem Expr.pieces_withRange (expr : Expr) (range : SourceRange) :
    (expr.withRange range).pieces = expr.pieces := by
  cases expr <;> rfl

/-! ### Ranges over tokens -/

/-- Tokens of a registered file, one behind the other, each with bytes of its own and a meaning. -/
structure Regular (file : FileId) (tokens : List Token) : Prop where
  located : file.isDetached = false
  file : ∀ token ∈ tokens, token.range.file = file
  sized : ∀ token ∈ tokens, token.range.start < token.range.stop
  known : ∀ token ∈ tokens, token.kind ≠ .unknown
  apart : tokens.Pairwise fun token later => token.range.stop ≤ later.range.start

namespace Regular

variable {file : FileId} {ts us : List Token}

theorem sublist (h : Regular file us) (hsub : ts.Sublist us) : Regular file ts where
  located := h.located
  file token hmem := h.file token (hsub.subset hmem)
  sized token hmem := h.sized token (hsub.subset hmem)
  known token hmem := h.known token (hsub.subset hmem)
  apart := h.apart.sublist hsub

theorem left (h : Regular file (ts ++ us)) : Regular file ts :=
  h.sublist (List.sublist_append_left ts us)

theorem right (h : Regular file (ts ++ us)) : Regular file us :=
  h.sublist (List.sublist_append_right ts us)

/-- No token ends behind a later one. -/
theorem stop_le_getLast (h : Regular file ts) {token last : Token} (hmem : token ∈ ts)
    (hlast : ts.getLast? = some last) : token.range.stop ≤ last.range.stop := by
  obtain ⟨before, rfl⟩ := List.getLast?_eq_some_iff.mp hlast
  rcases List.mem_append.mp hmem with hbefore | hsame
  · have hapart := (List.pairwise_append.mp h.apart).2.2 token hbefore last (by simp)
    have hsized := h.sized last (by simp)
    omega
  · exact Nat.le_of_eq (congrArg (·.range.stop) (List.mem_singleton.mp hsame))

/-- No token starts in front of an earlier one. -/
theorem head_le_start (h : Regular file ts) {first token : Token} (hfirst : ts.head? = some first)
    (hmem : token ∈ ts) : first.range.start ≤ token.range.start := by
  obtain ⟨rest, rfl⟩ := List.head?_eq_some_iff.mp hfirst
  rcases List.mem_cons.mp hmem with rfl | hrest
  · exact Nat.le_refl _
  · have hapart := (List.pairwise_cons.mp h.apart).1 token hrest
    have hsized := h.sized first (by simp)
    omega

end Regular

/-- The range reaches from the first token to the last. -/
def SourceRange.Spans (range : SourceRange) (tokens : List Token) : Prop :=
  ∃ first last, tokens.head? = some first ∧ tokens.getLast? = some last ∧
    range = ⟨first.range.file, first.range.start, last.range.stop⟩

namespace SourceRange.Spans

variable {file : FileId} {ts us : List Token} {range left right : SourceRange}

theorem token (token : Token) : token.range.Spans [token] := ⟨token, token, rfl, rfl, rfl⟩

theorem isSome (h : range.Spans ts) : ts ≠ [] := by
  obtain ⟨first, -, hfirst, -⟩ := h
  rintro rfl
  cases hfirst

theorem nonempty (h : range.Spans ts) (hregular : Regular file ts) : range.start < range.stop := by
  obtain ⟨first, last, hfirst, hlast, rfl⟩ := h
  have hmem := List.mem_of_mem_head? hfirst
  have hsized := hregular.sized first hmem
  have hstop := hregular.stop_le_getLast hmem hlast
  dsimp only
  omega

theorem file_eq (h : range.Spans ts) (hregular : Regular file ts) : range.file = file := by
  obtain ⟨first, last, hfirst, -, rfl⟩ := h
  exact hregular.file first (List.mem_of_mem_head? hfirst)

/-- A range over some of the tokens lies inside a range over all of them. -/
theorem covers (h : range.Spans ts) (hinner : left.Spans us) (hregular : Regular file ts)
    (hsub : us.Sublist ts) : range.start ≤ left.start ∧ left.stop ≤ range.stop := by
  obtain ⟨first, last, hfirst, hlast, rfl⟩ := h
  obtain ⟨first', last', hfirst', hlast', rfl⟩ := hinner
  exact ⟨hregular.head_le_start hfirst (hsub.subset (List.mem_of_mem_head? hfirst')),
    hregular.stop_le_getLast (hsub.subset (List.mem_of_mem_getLast? hlast')) hlast⟩

/-- Ranges over tokens that stand one behind the other do so too. -/
theorem apart (hleft : left.Spans ts) (hright : right.Spans us) (hregular : Regular file (ts ++ us)) :
    left.stop ≤ right.start := by
  obtain ⟨first, last, -, hlast, rfl⟩ := hleft
  obtain ⟨first', last', hfirst', -, rfl⟩ := hright
  exact (List.pairwise_append.mp hregular.apart).2.2 last (List.mem_of_mem_getLast? hlast) first'
    (List.mem_of_mem_head? hfirst')

/-- A range over the first tokens, extended to the end of the last one. -/
theorem extend (h : range.Spans ts) (hregular : Regular file (ts ++ us)) {last : Token}
    (hlast : (ts ++ us).getLast? = some last) :
    (⟨file, range.start, max last.range.stop range.stop⟩ : SourceRange).Spans (ts ++ us) := by
  obtain ⟨first, last', hfirst, hlast', rfl⟩ := h
  have hfile := hregular.file first (List.mem_append_left us (List.mem_of_mem_head? hfirst))
  have hstop := hregular.stop_le_getLast
    (List.mem_append_left us (List.mem_of_mem_getLast? hlast')) hlast
  refine ⟨first, last, ?_, hlast, ?_⟩
  · rw [List.head?_append, hfirst, Option.some_or]
  · dsimp only
    rw [hfile, Nat.max_eq_left hstop]

/-- Two ranges merge over what lies between them. -/
theorem merge (gap : List Token) (hleft : left.Spans ts) (hright : right.Spans us)
    (hregular : Regular file (ts ++ (gap ++ us))) :
    (left.merge right).Spans (ts ++ (gap ++ us)) := by
  have hleftFile := hleft.file_eq hregular.left
  have hrightFile := hright.file_eq hregular.right.right
  have hleftLocated : left.isLocated = true := by
    rw [isLocated, hleftFile, hregular.located]
    rfl
  have hrightLocated : right.isLocated = true := by
    rw [isLocated, hrightFile, hregular.located]
    rfl
  have happart : left.stop ≤ right.start :=
    hleft.apart hright (hregular.sublist ((List.sublist_append_right gap us).append_left ts))
  have hleftSized := hleft.nonempty hregular.left
  have hrightSized := hright.nonempty hregular.right.right
  obtain ⟨first, last, hfirst, hlast, rfl⟩ := hleft
  obtain ⟨first', last', hfirst', hlast', rfl⟩ := hright
  refine ⟨first, last', ?_, ?_, ?_⟩
  · rw [List.head?_append, hfirst, Option.some_or]
  · rw [List.getLast?_append, List.getLast?_append, hlast', Option.some_or, Option.some_or]
  · unfold SourceRange.merge
    rw [hleftLocated, hrightLocated]
    dsimp only at happart hleftSized hrightSized ⊢
    simp only [Bool.not_true, Bool.false_eq_true, if_false, SourceRange.mk.injEq, true_and]
    omega

end SourceRange.Spans

/-! ### Pieces over tokens -/

mutual

/-- The piece lies over all of the tokens, its parts over some of them. -/
inductive Laid (file : FileId) : Piece → List Token → Prop
  | mk {piece : Piece} {ts : List Token} : (Regular file ts → piece.range.Spans ts) →
    LaidAlong file piece.parts ts → Laid file piece ts

/-- The pieces lie over the tokens one behind the other, with other tokens around them. -/
inductive LaidAlong (file : FileId) : List Piece → List Token → Prop
  | nil (gap : List Token) : LaidAlong file [] gap
  | cons {piece : Piece} {rest : List Piece} {us vs : List Token} (gap : List Token) :
    Laid file piece us → LaidAlong file rest vs → LaidAlong file (piece :: rest) (gap ++ (us ++ vs))

end

variable {file : FileId} {piece : Piece} {pieces more : List Piece} {ts us : List Token}

theorem Laid.spans (h : Laid file piece ts) (hregular : Regular file ts) : piece.range.Spans ts := by
  cases h with
  | mk hspans _ => exact hspans hregular

theorem Laid.along (h : Laid file piece ts) : LaidAlong file piece.parts ts := by
  cases h with
  | mk _ halong => exact halong

namespace LaidAlong

theorem single (h : Laid file piece ts) : LaidAlong file [piece] ts := by
  simpa using LaidAlong.cons [] h (.nil [])

theorem behind (h : LaidAlong file pieces ts) (gap : List Token) :
    LaidAlong file pieces (gap ++ ts) := by
  cases h with
  | nil => exact .nil _
  | cons gap' hpiece hrest =>
      rw [← List.append_assoc]
      exact .cons _ hpiece hrest

theorem append (h : LaidAlong file pieces ts) (hmore : LaidAlong file more us) :
    LaidAlong file (pieces ++ more) (ts ++ us) := by
  induction pieces generalizing ts with
  | nil => exact hmore.behind ts
  | cons piece rest ih =>
      cases h with
      | cons gap hpiece hrest =>
          rw [List.append_assoc, List.append_assoc, List.cons_append]
          exact .cons gap hpiece (ih hrest)

theorem before (h : LaidAlong file pieces ts) (gap : List Token) :
    LaidAlong file pieces (ts ++ gap) := by
  simpa using h.append (.nil gap)

end LaidAlong

/-- The same parts under another range of their own. -/
theorem Laid.widen {expr : Expr} {range : SourceRange} (h : Laid file (.expr expr) us)
    (hspans : Regular file ts → range.Spans ts) {before after : List Token}
    (hts : ts = before ++ (us ++ after)) : Laid file (.expr (expr.withRange range)) ts := by
  subst hts
  refine .mk (by simpa [Piece.range] using hspans) ?_
  show LaidAlong file (expr.withRange range).pieces _
  rw [Expr.pieces_withRange]
  exact (h.along.before after).behind before

/-! ### What regular tokens make of it -/

/-- What holds of the range of a piece and of the ranges of its parts: it is not empty, it covers
them, and they stand one behind the other. -/
structure Piece.Nests (file : FileId) (piece : Piece) : Prop where
  file : piece.range.file = file
  sized : piece.range.start < piece.range.stop
  inside : ∀ part ∈ piece.parts,
    piece.range.start ≤ part.range.start ∧ part.range.stop ≤ piece.range.stop
  ordered : piece.parts.Pairwise fun part later => part.range.stop ≤ later.range.start

/-- Each piece lies over some of the tokens. -/
theorem LaidAlong.exists_laid (h : LaidAlong file pieces ts) (hmem : piece ∈ pieces) :
    ∃ us, Laid file piece us ∧ us.Sublist ts := by
  induction pieces generalizing ts with
  | nil => cases hmem
  | cons first rest ih =>
      cases h with
      | @cons _ _ vs ws gap hfirst hrest =>
          rcases List.mem_cons.mp hmem with rfl | hlater
          · exact ⟨vs, hfirst,
              (List.sublist_append_left vs ws).trans (List.sublist_append_right gap _)⟩
          · obtain ⟨us, hlaid, hsub⟩ := ih hrest hlater
            exact ⟨us, hlaid, hsub.trans
              ((List.sublist_append_right vs ws).trans (List.sublist_append_right gap _))⟩

/-- Pieces laid along regular tokens stand one behind the other. -/
theorem LaidAlong.ordered (h : LaidAlong file pieces ts) (hregular : Regular file ts) :
    pieces.Pairwise fun part later => part.range.stop ≤ later.range.start := by
  induction pieces generalizing ts with
  | nil => exact .nil
  | cons first rest ih =>
      cases h with
      | @cons _ _ vs ws gap hfirst hrest =>
          refine List.pairwise_cons.mpr ⟨fun later hlater => ?_, ih hrest hregular.right.right⟩
          obtain ⟨us, hlaid, hsub⟩ := hrest.exists_laid hlater
          have hboth : Regular file (vs ++ us) := hregular.right.sublist (hsub.append_left vs)
          exact (hfirst.spans hboth.left).apart (hlaid.spans hboth.right) hboth

theorem Laid.nests (h : Laid file piece ts) (hregular : Regular file ts) : piece.Nests file where
  file := (h.spans hregular).file_eq hregular
  sized := (h.spans hregular).nonempty hregular
  inside part hpart := by
    obtain ⟨us, hlaid, hsub⟩ := h.along.exists_laid hpart
    exact (h.spans hregular).covers (hlaid.spans (hregular.sublist hsub)) hregular hsub
  ordered := h.along.ordered hregular

/-- Where the declarations of a program are laid along tokens, so is whatever it contains. -/
theorem Program.Contains.exists_laid {program : Program} (hcontains : program.Contains piece)
    (h : LaidAlong file (program.decls.map .decl) ts) : ∃ us, Laid file piece us ∧ us.Sublist ts := by
  induction hcontains with
  | decl hmem => exact h.exists_laid (List.mem_map_of_mem hmem)
  | part _ hpart ih =>
      obtain ⟨us, hlaid, hsub⟩ := ih
      obtain ⟨vs, hinner, hsub'⟩ := hlaid.along.exists_laid hpart
      exact ⟨vs, hinner, hsub'.trans hsub⟩

end BehaviorTree
