import BehaviorTree.Proofs.Lexical.Stream
import BehaviorTree.Proofs.Parsing.ProgramsRead
import BehaviorTree.Proofs.Syntax.Nodes

/-!
# Soundness of the parser

Nothing outside the grammar is accepted in silence: where neither the characters nor the tokens of
a text are reported on, the tokens are a sentence, the program is the tree of a derivation of it,
and no part of that tree is missing.
-/

namespace BehaviorTree

/-! ### Trees of derivations are whole -/

mutual

theorem Expr.whole_shape : ∀ expr : Expr, expr.shape.whole = expr.whole
  | .int .. | .float .. | .string .. | .bool .. | .null _ | .ref .. | .missing _ => rfl
  | .binary _ _ left right => by simp [Expr.whole_shape left, Expr.whole_shape right]
  | .unary _ _ operand => by simp [Expr.whole_shape operand]
  | .index _ base position => by simp [Expr.whole_shape base, Expr.whole_shape position]
  | .cast _ operand type => by simp [Expr.whole_shape operand, TypeExpr.whole_shape type]
  | .array _ elements => by simp [Expr.allWhole_shapes elements]
  | .repeated _ value count => by simp [Expr.whole_shape value, Expr.whole_shape count]
  | .vec _ inner => by simp [Expr.whole_shape inner]

theorem Expr.allWhole_shapes : ∀ exprs : List Expr,
    Expr.allWhole (Expr.shapes exprs) = Expr.allWhole exprs
  | [] => rfl
  | expr :: rest => by simp [Expr.whole_shape expr, Expr.allWhole_shapes rest]

theorem TypeExpr.whole_shape : ∀ type : TypeExpr, type.shape.whole = type.whole
  | .named .. | .infer _ | .string .. | .missing _ => rfl
  | .staticArray _ element length => by
    simp [TypeExpr.whole_shape element, Expr.whole_shape length]
  | .boundedArray _ element bound => by
    simp [TypeExpr.whole_shape element, Expr.whole_shape bound]
  | .vec _ element => by simp [TypeExpr.whole_shape element]
  | .nullable _ inner => by simp [TypeExpr.whole_shape inner]

end

theorem TypeExpr.all_whole_map_shape (type : Option TypeExpr) :
    (type.map TypeExpr.shape).all TypeExpr.whole = type.all TypeExpr.whole := by
  cases type <;> simp [TypeExpr.whole_shape]

theorem Expr.all_whole_map_shape (expr : Option Expr) :
    (expr.map Expr.shape).all Expr.whole = expr.all Expr.whole := by
  cases expr <;> simp [Expr.whole_shape]

theorem Param.whole_shape (param : Param) : param.shape.whole = param.whole := by
  simp [Param.shape, Param.whole, TypeExpr.whole_shape, Expr.all_whole_map_shape]

theorem StmtHead.whole_shape (head : StmtHead) : head.shape.whole = head.whole := by
  simp [StmtHead.shape, StmtHead.whole, Precondition.shape, Expr.whole_shape, Function.comp_def]

theorem Argument.whole_shape (argument : Argument) : argument.shape.whole = argument.whole := by
  simp [Argument.shape, Argument.whole, Expr.whole_shape]

mutual

theorem Stmt.whole_shape : ∀ stmt : Stmt, stmt.shape.whole = stmt.whole
  | .varDecl head name type init => by
    simp [StmtHead.whole_shape, TypeExpr.all_whole_map_shape, Expr.all_whole_map_shape]
  | .constDecl head name type value => by
    simp [StmtHead.whole_shape, TypeExpr.all_whole_map_shape, Expr.whole_shape]
  | .assignment head target indices op value => by
    simp [StmtHead.whole_shape, Expr.whole_shape, Function.comp_def]
  | .leaf head callee arguments => by
    simp [StmtHead.whole_shape, Argument.whole_shape, Function.comp_def]
  | .compound head callee arguments children => by
    cases arguments <;>
      simp [StmtHead.whole_shape, Argument.whole_shape, Function.comp_def,
        Stmt.allWhole_shapes children]

theorem Stmt.allWhole_shapes : ∀ stmts : List Stmt,
    Stmt.allWhole (Stmt.shapes stmts) = Stmt.allWhole stmts
  | [] => rfl
  | stmt :: rest => by simp [Stmt.whole_shape stmt, Stmt.allWhole_shapes rest]

end

theorem Decl.whole_shape (decl : Decl) : decl.shape.whole = decl.whole := by
  cases decl with
  | importFile | opaqueType => rfl
  | node head category name ports behavior =>
      simp [Decl.shape, Decl.whole, Param.whole_shape, Function.comp_def]
  | typeAlias head name type => simp [Decl.shape, Decl.whole, TypeExpr.whole_shape]
  | varDecl head name type init =>
      simp [Decl.shape, Decl.whole, TypeExpr.all_whole_map_shape, Expr.all_whole_map_shape]
  | constDecl head name type value =>
      simp [Decl.shape, Decl.whole, TypeExpr.all_whole_map_shape, Expr.whole_shape]
  | tree head name params body =>
      simp [Decl.shape, Decl.whole, Param.whole_shape, Stmt.whole_shape, Function.comp_def]

theorem Program.whole_shape (program : Program) : program.shape.whole = program.whole := by
  simp [Program.shape, Program.whole, Decl.whole_shape, Function.comp_def]

/-- No part of what a phrase stands for is missing. -/
@[simp]
def Phrase.Whole : Phrase → Prop
  | .layered _ e | .unary e | .suffixed e | .primary e | .array e => e.whole = true
  | .elements es => Expr.allWhole es = true
  | .type t | .plainType t => t.whole = true

theorem Derives.whole {phrase : Phrase} {ts : List Terminal} (h : Derives phrase ts) :
    phrase.Whole := by
  induction h <;> simp_all

theorem TypePart.whole {type : Option TypeExpr} {ts : List Terminal} (h : TypePart type ts) :
    type.all TypeExpr.whole = true := by
  cases h with
  | absent => rfl
  | present htype => exact htype.whole

theorem ValuePart.whole {expr : Option Expr} {ts : List Terminal} (h : ValuePart expr ts) :
    expr.all Expr.whole = true := by
  cases h with
  | absent => rfl
  | present hexpr => exact hexpr.whole

theorem Sequence.all {α : Type} {form : α → List Terminal → Prop} {test : α → Bool}
    {items : List α} {ts : List Terminal} (h : Sequence form items ts)
    (htest : ∀ item ts, form item ts → test item = true) : items.all test = true := by
  induction h with
  | nil => rfl
  | cons hitem _ ih => rw [List.all_cons, htest _ _ hitem, ih, Bool.true_and]

theorem Closed.all {α : Type} {form : α → List Terminal → Prop} {test : α → Bool}
    {items : List α} {ts : List Terminal} (h : Closed form items ts)
    (htest : ∀ item ts, form item ts → test item = true) : items.all test = true := by
  induction h with
  | nil => rfl
  | last hitem => simp [htest _ _ hitem]
  | more hitem _ ih => rw [List.all_cons, htest _ _ hitem, ih, Bool.true_and]

theorem HeadForm.whole {head : StmtHead} {ts : List Terminal} (h : HeadForm head ts) :
    head.whole = true := by
  cases h with
  | mk docs hpreconditions =>
      exact hpreconditions.all fun _ _ hform => by
        cases hform with
        | mk kind hcondition => exact hcondition.whole

theorem ArgumentForm.whole {argument : Argument} {ts : List Terminal}
    (h : ArgumentForm argument ts) : argument.whole = true := by
  cases h with
  | mk name direction hvalue => exact hvalue.whole

theorem IndexForm.whole {index : Expr} {ts : List Terminal} (h : IndexForm index ts) :
    index.whole = true := by
  cases h with
  | mk hindex => exact hindex.whole

/-- No part of what a phrase of a statement stands for is missing, given that none is in front. -/
def StmtPhrase.Whole : StmtPhrase → Prop
  | .stmt s => s.whole = true
  | .bare s => s.head.whole = true → s.whole = true
  | .stmts ss => Stmt.allWhole ss = true

theorem StmtForm.whole {phrase : StmtPhrase} {ts : List Terminal} (h : StmtForm phrase ts) :
    phrase.Whole := by
  induction h with
  | headed hhead _ ih => exact ih hhead.whole
  | varDecl head name htype hinit =>
      intro hhead
      have hparts := And.intro htype.whole hinit.whole
      simp_all [Stmt.head]
  | constDecl head name htype hvalue =>
      intro hhead
      have hparts := And.intro htype.whole hvalue.whole
      simp_all [Stmt.head]
  | assignment head target op hindices hvalue =>
      intro hhead
      have hparts := And.intro (hindices.all fun _ _ h => h.whole) hvalue.whole
      simp_all [Stmt.head]
  | leaf head callee harguments =>
      intro hhead
      have hparts := harguments.all fun _ _ h => h.whole
      simp_all [Stmt.head]
  | compound head callee harguments _ ih =>
      intro hhead
      cases harguments with
      | absent => simp_all [Stmt.head, StmtPhrase.Whole]
      | present harguments =>
          have hparts := harguments.all fun _ _ h => h.whole
          simp_all [Stmt.head, StmtPhrase.Whole]
  | nil => rfl
  | cons _ _ ihstmt ihrest => simp_all [StmtPhrase.Whole]

theorem ParamForm.whole {param : Param} {ts : List Terminal} (h : ParamForm param ts) :
    param.whole = true := by
  cases h with
  | mk docs direction name htype hdefault =>
      exact Bool.and_eq_true_iff.mpr ⟨htype.whole, hdefault.whole⟩

theorem BareDeclForm.whole {decl : Decl} {ts : List Terminal} (h : BareDeclForm decl ts) :
    decl.whole = true := by
  cases h with
  | importFile | opaqueType => rfl
  | node head category name _ hports => exact hports.all fun _ _ h => h.whole
  | typeAlias head name htype => exact htype.whole
  | varDecl head name htype hinit =>
      exact Bool.and_eq_true_iff.mpr ⟨htype.whole, hinit.whole⟩
  | constDecl head name htype hvalue =>
      exact Bool.and_eq_true_iff.mpr ⟨htype.whole, hvalue.whole⟩
  | tree head name hparams hbody =>
      have hstmts := hbody.whole
      simp only [StmtPhrase.Whole, Stmt.allWhole_eq_all] at hstmts
      exact Bool.and_eq_true_iff.mpr ⟨hparams.all fun _ _ h => h.whole, hstmts⟩

theorem ProgramForm.whole {program : Program} {ts : List Terminal} (h : ProgramForm program ts) :
    program.whole = true := by
  cases h with
  | mk docs hdecls =>
      exact hdecls.all fun _ _ hform => by
        cases hform with
        | mk docs _ hbare => exact hbare.whole

/-! ### Silent parses -/

namespace Parsed

theorem ready_initial {file : FileId} {tokens : List Token} (arena : Arena) {offset : Nat}
    (hplaced : Placed file offset tokens) (hknown : ∀ token ∈ tokens, token.kind ≠ .unknown) :
    (initial file tokens arena).Ready ∧ (initial file tokens arena).rest = tokens := by
  obtain ⟨before, last, rfl, hlast, -⟩ := hplaced.ended
  have hrest : (initial file (before ++ [last]) arena).rest = before ++ [last] := by
    simp [initial, hlast]
  have hfinal : (initial file (before ++ [last]) arena).final = last := by
    simp [initial, hlast]
  refine ⟨⟨?_, ⟨before, ?_⟩, ?_, fun _ => rfl⟩, hrest⟩
  · rw [hfinal]
    exact hlast
  · rw [hrest, hfinal]
  · rw [hrest]
    exact hknown

/-- A list with the end of the file at its end alone is cut in front of it where what remains
starts with the end of the file. -/
theorem eq_of_append_eq {before consumed rest : List Token} {last : Token}
    (hbefore : ∀ token ∈ before, token.isEndOfFile = false)
    (heq : before ++ [last] = consumed ++ rest)
    (hrest : (rest.map Token.terminal).head?.map Terminal.kind = some .endOfFile) :
    before = consumed := by
  cases rest with
  | nil => cases hrest
  | cons token rest =>
      have htoken : token.isEndOfFile = true := by
        simpa [Token.isEndOfFile, Token.terminal] using hrest
      obtain ⟨more, rfl, hmore⟩ | ⟨more, rfl, hmore⟩ := List.append_eq_append_iff.mp heq
      · cases more with
        | nil => rw [List.append_nil]
        | cons other more => simp at hmore
      · cases more with
        | nil => rw [List.append_nil]
        | cons other more =>
            obtain ⟨rfl, -⟩ := List.cons_eq_cons.mp hmore
            have hother := hbefore token (by simp)
            rw [htoken] at hother
            cases hother

/-- **Soundness.** Where nothing at all is reported on a text, its tokens in front of the end of the
file are a sentence of the grammar, the program is the tree of a derivation of exactly these tokens,
and nothing that can be reached in it is missing. -/
theorem ofText_sound {file : FileId} {text : String} {arena : Arena}
    (hsilent : (ofText file text arena).diagnostics = []) :
    ∃ sentence last, (TokenStream.ofText file text).tokens = sentence ++ [last] ∧
      last.isEndOfFile = true ∧
      ProgramForm (ofText file text arena).program.shape (sentence.map Token.terminal) ∧
      ∀ node, (ofText file text arena).program.Reaches node → ¬node.IsMissing := by
  obtain ⟨hlexical, hsyntactic⟩ := List.append_eq_nil_iff.mp hsilent
  have hplaced := TokenStream.placed_scanFrom file 0 text.toList
  have hknown := TokenStream.known_scanFrom file 0 text.toList hlexical
  obtain ⟨hready, hrest⟩ := ready_initial arena hplaced hknown
  obtain ⟨-, consumed, hconsumed, -, hform⟩ := Parser.Reads.program hready
  obtain ⟨-, hprogram, hend⟩ := hform hsyntactic
  obtain ⟨sentence, last, htokens, hlast, hsentence⟩ := hplaced.ended
  have hcut := htokens.symm.trans (hrest.symm.trans hconsumed)
  have heq : sentence = consumed := eq_of_append_eq hsentence hcut hend
  refine ⟨sentence, last, htokens, hlast, heq ▸ hprogram, fun node hnode => ?_⟩
  refine Program.not_isMissing_of_reaches ?_ hnode
  rw [← Program.whole_shape]
  exact hprogram.whole

/-- A text with an import, a constant and a tree is read in silence. -/
theorem ofText_sound_of_tree :
    let text := "import \"./a.bt\"; const N = 2 * 3; " ++
      "tree Main(in n: int32 = N,) \x7b @guard(n < 3) Go(a: n, [1, 2,]); \x7d"
    (ofText .detached text .empty).diagnostics = [] ∧
      ∃ sentence last, (TokenStream.ofText .detached text).tokens = sentence ++ [last] ∧
        last.isEndOfFile = true ∧
        ProgramForm (ofText .detached text .empty).program.shape (sentence.map Token.terminal) ∧
        ∀ node, (ofText .detached text .empty).program.Reaches node → ¬node.IsMissing := by
  intro text
  have hsilent : (ofText .detached text .empty).diagnostics = [] := by decide +kernel
  exact ⟨hsilent, ofText_sound hsilent⟩

end Parsed

end BehaviorTree
