import BehaviorTree.Parsing.Statement
import BehaviorTree.Proofs.Syntax.Grammar

/-!
# Plain statements

Two things that the grammar derives are not read as it derives them. A statement whose first word
opens a construct in other languages is taken for such a construct, and the scan that tells an
assignment from a node by its operator gives up at a `;`, which an index can hold inside the length
of an array. A statement is plain if it has neither.
-/

namespace BehaviorTree

/-! ### Semicolons inside expressions -/

mutual

/-- Whether a `;` occurs among the terminals of an expression. -/
def Expr.hasSemi : Expr → Bool
  | .binary _ _ left right => left.hasSemi || right.hasSemi
  | .unary _ _ operand => operand.hasSemi
  | .index _ base position => base.hasSemi || position.hasSemi
  | .cast _ operand type => operand.hasSemi || type.hasSemi
  | .array _ elements => Expr.anyHasSemi elements
  | .repeated _ _ _ => true
  | .vec _ inner => inner.hasSemi
  | .int _ _ | .float _ _ | .string _ _ | .bool _ _ | .null _ | .ref _ _ | .missing _ => false

def Expr.anyHasSemi : List Expr → Bool
  | [] => false
  | expr :: rest => expr.hasSemi || Expr.anyHasSemi rest

def TypeExpr.hasSemi : TypeExpr → Bool
  | .staticArray _ _ _ | .boundedArray _ _ _ => true
  | .vec _ element => element.hasSemi
  | .nullable _ inner => inner.hasSemi
  | .named _ _ | .infer _ | .string _ _ | .missing _ => false

end

def Phrase.hasSemi : Phrase → Bool
  | .layered _ expr | .unary expr | .suffixed expr | .primary expr | .array expr => expr.hasSemi
  | .elements exprs => Expr.anyHasSemi exprs
  | .type inner | .plainType inner => inner.hasSemi

theorem Derives.semi_mem_iff {phrase : Phrase} {ts : List Terminal} (h : Derives phrase ts) :
    .mark .semi ∈ ts ↔ phrase.hasSemi = true := by
  induction h <;>
    simp_all [Phrase.hasSemi, Expr.hasSemi, Expr.anyHasSemi, TypeExpr.hasSemi, Terminal.mark,
      Terminal.op, Terminal.word, Terminal.name, Terminal.of]

/-! ### Statements -/

mutual

/-- A statement is read as it is written. -/
def Stmt.Plain : Stmt → Prop
  | .varDecl .. | .constDecl .. => True
  | .assignment _ target indices _ _ =>
    ForeignWord.ofSpelling? target.text = none ∧ ∀ position ∈ indices, position.hasSemi = false
  | .leaf _ callee _ => ForeignWord.ofSpelling? callee.text = none
  | .compound _ callee _ children =>
    ForeignWord.ofSpelling? callee.text = none ∧ Stmt.AllPlain children

def Stmt.AllPlain : List Stmt → Prop
  | [] => True
  | stmt :: rest => stmt.Plain ∧ Stmt.AllPlain rest

end

def StmtPhrase.Plain : StmtPhrase → Prop
  | .stmt whole | .bare whole => whole.Plain
  | .stmts list => Stmt.AllPlain list

/-- The trees of a program are made of plain statements. -/
def Decl.Plain : Decl → Prop
  | .tree _ _ _ body => Stmt.AllPlain body
  | _ => True

def Program.Plain (program : Program) : Prop := ∀ decl ∈ program.decls, decl.Plain

/-! ### First terminals -/

/-- The kinds that the first terminal of a statement can have. -/
def TokenKind.startsStmt : TokenKind → Bool
  | .docComment _ | .identifier => true
  | .punctuation mark => mark == .at
  | .keyword word => word == .varWord || word == .constWord
  | _ => false

theorem StmtForm.starts_bare {stmt : Stmt} {ts : List Terminal} (h : StmtForm (.bare stmt) ts) :
    ∃ t rest, ts = t :: rest ∧ t.kind.startsStmt = true ∧ (∀ line, t.kind ≠ .docComment line) ∧
      t.kind ≠ .punctuation .at := by
  cases h <;> exact ⟨_, _, rfl, rfl, by simp [Terminal.word, Terminal.name, Terminal.of]⟩

theorem StmtForm.starts {stmt : Stmt} {ts : List Terminal} (h : StmtForm (.stmt stmt) ts) :
    ∃ t rest, ts = t :: rest ∧ t.kind.startsStmt = true := by
  cases h with
  | headed hhead hbare =>
      obtain ⟨t, rest, rfl, hstarts, -⟩ := hbare.starts_bare
      generalize stmt.head = head at hhead
      cases hhead with
      | mk docs hpreconditions =>
          cases docs with
          | cons line docs => exact ⟨_, _, rfl, rfl⟩
          | nil =>
              cases hpreconditions with
              | nil => exact ⟨t, rest, rfl, hstarts⟩
              | cons hfirst _ =>
                  cases hfirst with
                  | mk kind _ => exact ⟨_, _, rfl, rfl⟩

end BehaviorTree
