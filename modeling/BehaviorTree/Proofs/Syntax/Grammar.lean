import BehaviorTree.Parsing.State
import BehaviorTree.Proofs.Syntax.Shape

/-!
# The grammar

A sentence of the language is a list of terminals: tokens without their places. `Derives` says which
terminals an expression or a type is written with, `StmtForm`, `DeclForm` and `ProgramForm` say the
same for statements, declarations and whole programs. All of them relate terminals to shapes.

Binary operators are layered, loosest layer first. A layer whose operators group to the left is
left-recursive; a layer whose operators do not group takes one operator at most. One rule settles
the only ambiguity: a `<` directly behind the word `string` opens its bound, so `<` is no comparison
there.
-/

namespace BehaviorTree

/-- What the grammar sees of a token: its kind and, of an identifier, its text. -/
structure Terminal where
  kind : TokenKind
  text : String
  deriving DecidableEq

namespace Terminal

/-- The terminal of a kind whose text carries no meaning. -/
def of (kind : TokenKind) : Terminal := ⟨kind, ""⟩

def name (text : String) : Terminal := ⟨.identifier, text⟩

def mark (mark : Punctuation) : Terminal := of (.punctuation mark)

def op (op : Operator) : Terminal := of (.operator op)

def word (word : Keyword) : Terminal := of (.keyword word)

end Terminal

def Token.terminal (token : Token) : Terminal :=
  ⟨token.kind, if token.kind = .identifier then token.text else ""⟩

/-- What a list of terminals can be read as. -/
inductive Phrase
  /-- An expression whose operators outside brackets lie on the given layers. -/
  | layered (layers : List Nat) (expr : Expr)
  | unary (expr : Expr)
  | suffixed (expr : Expr)
  | primary (expr : Expr)
  | array (expr : Expr)
  /-- One expression or more, with commas between them and perhaps one behind the last. -/
  | elements (exprs : List Expr)
  | type (type : TypeExpr)
  /-- A type that has no `?` at its end. -/
  | plainType (type : TypeExpr)

/-- An expression of any layer. -/
abbrev Phrase.expr (expr : Expr) : Phrase := .layered Operator.layers expr

/-- The last terminal is the word `string`, standing without a bound. -/
def EndsInString (ts : List Terminal) : Prop := ts.getLast? = some (.word .stringWord)

namespace EndsInString

variable {ts us : List Terminal} {t : Terminal}

theorem iff_append_singleton : EndsInString (ts ++ [t]) ↔ t = .word .stringWord := by
  simp [EndsInString]

theorem of_append_cons (ht : t ≠ .word .stringWord) (h : EndsInString (ts ++ t :: us)) :
    EndsInString us := by
  cases us with
  | nil => exact absurd (iff_append_singleton.mp h) ht
  | cons u us => simpa [EndsInString] using h

theorem of_cons (ht : t ≠ .word .stringWord) (h : EndsInString (t :: us)) : EndsInString us :=
  of_append_cons ht (show EndsInString ([] ++ t :: us) from h)

/-- Nothing that ends in another terminal ends in the word. -/
theorem not_append_singleton (ts : List Terminal) (ht : t ≠ .word .stringWord) : ¬EndsInString (ts ++ [t]) :=
  fun h => ht (iff_append_singleton.mp h)

theorem not_cons_append_singleton (first : Terminal) (ts : List Terminal)
    (ht : t ≠ .word .stringWord) :
    ¬EndsInString (first :: (ts ++ [t])) :=
  not_append_singleton (first :: ts) ht

end EndsInString

/-- How expressions and types are written. -/
inductive Derives : Phrase → List Terminal → Prop
  | operand {expr ts} : Derives (.unary expr) ts → Derives (.layered [] expr) ts
  | tighter {layer layers expr ts} :
    Derives (.layered layers expr) ts → Derives (.layered (layer :: layers) expr) ts
  | grouped {layer layers left right ls rs} (op : BinaryOp) :
    op.operator.precedence = layer → op.operator.associativity = .left →
    Derives (.layered (layer :: layers) left) ls → Derives (.layered layers right) rs →
    Derives (.layered (layer :: layers) (.binary .blank op left right))
      (ls ++ .op op.operator :: rs)
  | single {layer layers left right ls rs} (op : BinaryOp) :
    op.operator.precedence = layer → op.operator.associativity = .none →
    (op = .less → ¬EndsInString ls) →
    Derives (.layered layers left) ls → Derives (.layered layers right) rs →
    Derives (.layered (layer :: layers) (.binary .blank op left right))
      (ls ++ .op op.operator :: rs)
  | prefixed {operand ts} (op : UnaryOp) :
    Derives (.unary operand) ts →
    Derives (.unary (.unary .blank op operand)) (.op op.operator :: ts)
  | unprefixed {expr ts} : Derives (.suffixed expr) ts → Derives (.unary expr) ts
  | index {base position bs ps} :
    Derives (.suffixed base) bs → Derives (.expr position) ps →
    Derives (.suffixed (.index .blank base position))
      (bs ++ .mark .lBracket :: (ps ++ [.mark .rBracket]))
  | cast {operand type os ts} :
    Derives (.suffixed operand) os → Derives (.type type) ts →
    Derives (.suffixed (.cast .blank operand type)) (os ++ .word .asWord :: ts)
  | unsuffixed {expr ts} : Derives (.primary expr) ts → Derives (.suffixed expr) ts
  | int (value : Nat) : Derives (.primary (.int .blank value)) [.of (.int value)]
  | float (value : Binary64) : Derives (.primary (.float .blank value)) [.of (.float value)]
  | text (value : String) : Derives (.primary (.string .blank value)) [.of (.string value)]
  | trueWord : Derives (.primary (.bool .blank true)) [.word .trueWord]
  | falseWord : Derives (.primary (.bool .blank false)) [.word .falseWord]
  | nullWord : Derives (.primary (.null .blank)) [.word .nullWord]
  | ref (name : String) : Derives (.primary (.ref .blank ⟨name, .none⟩)) [.name name]
  | parens {expr ts} :
    Derives (.expr expr) ts →
    Derives (.primary expr) (.mark .lParen :: (ts ++ [.mark .rParen]))
  | array {expr ts} : Derives (.array expr) ts → Derives (.primary expr) ts
  | vec {expr ts} :
    Derives (.array expr) ts →
    Derives (.primary (.vec .blank expr)) (.word .vecWord :: .op .bang :: ts)
  | empty : Derives (.array (.array .blank [])) [.mark .lBracket, .mark .rBracket]
  | listed {elements ts} :
    Derives (.elements elements) ts →
    Derives (.array (.array .blank elements)) (.mark .lBracket :: (ts ++ [.mark .rBracket]))
  | repeated {value count vs cs} :
    Derives (.expr value) vs → Derives (.expr count) cs →
    Derives (.array (.repeated .blank value count))
      (.mark .lBracket :: (vs ++ .mark .semi :: (cs ++ [.mark .rBracket])))
  | last {expr ts} : Derives (.expr expr) ts → Derives (.elements [expr]) ts
  | lastComma {expr ts} :
    Derives (.expr expr) ts → Derives (.elements [expr]) (ts ++ [.mark .comma])
  | more {expr rest ts us} :
    Derives (.expr expr) ts → Derives (.elements rest) us →
    Derives (.elements (expr :: rest)) (ts ++ .mark .comma :: us)
  | nullable {type ts} :
    Derives (.plainType type) ts →
    Derives (.type (.nullable .blank type)) (ts ++ [.mark .question])
  | plain {type ts} : Derives (.plainType type) ts → Derives (.type type) ts
  | infer : Derives (.plainType (.infer .blank)) [.of .infer]
  | named (name : String) : Derives (.plainType (.named .blank ⟨name, .none⟩)) [.name name]
  | string : Derives (.plainType (.string .blank Option.none)) [.word .stringWord]
  | boundedString (bound : Nat) :
    Derives (.plainType (.string .blank (some bound)))
      [.word .stringWord, .op .lt, .of (.int bound), .op .gt]
  | vecType {element ts} :
    Derives (.type element) ts →
    Derives (.plainType (.vec .blank element))
      (.word .vecWord :: .op .lt :: (ts ++ [.op .gt]))
  | staticArray {element length ts ls} :
    Derives (.type element) ts → Derives (.expr length) ls →
    Derives (.plainType (.staticArray .blank element length))
      (.mark .lBracket :: (ts ++ .mark .semi :: (ls ++ [.mark .rBracket])))
  | boundedArray {element bound ts bs} :
    Derives (.type element) ts → Derives (.expr bound) bs →
    Derives (.plainType (.boundedArray .blank element bound))
      (.mark .lBracket :: (ts ++ .mark .semi :: .op .ltEq :: (bs ++ [.mark .rBracket])))

theorem Derives.not_endsInString_array {expr : Expr} {ts : List Terminal}
    (h : Derives (.array expr) ts) : ¬EndsInString ts := by
  cases h with
  | empty => exact EndsInString.not_append_singleton [_] (by decide)
  | listed _ => exact EndsInString.not_cons_append_singleton _ _ (by decide)
  | repeated _ _ =>
      intro hends
      exact EndsInString.not_append_singleton _ (by decide)
        ((hends.of_cons (by decide)).of_append_cons (by decide))

/-- What an operator applies to cannot end in the word `string`, unless it ends in a type. -/
theorem Derives.not_endsInString_primary {expr : Expr} {ts : List Terminal}
    (h : Derives (.primary expr) ts) : ¬EndsInString ts := by
  cases h with
  | int | float | text | trueWord | falseWord | nullWord | ref =>
      exact EndsInString.not_append_singleton [] (by simp [Terminal.of, Terminal.word, Terminal.name])
  | parens _ => exact EndsInString.not_cons_append_singleton _ _ (by decide)
  | array harray => exact harray.not_endsInString_array
  | vec harray =>
      intro hends
      exact harray.not_endsInString_array ((hends.of_cons (by decide)).of_cons (by decide))

theorem Derives.not_endsInString_plainType {type : TypeExpr} {ts : List Terminal}
    (h : Derives (.plainType type) ts) (hstring : type ≠ .string .blank Option.none) :
    ¬EndsInString ts := by
  cases h with
  | infer => exact EndsInString.not_append_singleton [] (by decide)
  | named _ => exact EndsInString.not_append_singleton [] (by simp [Terminal.name, Terminal.word, Terminal.of])
  | string => exact absurd rfl hstring
  | boundedString _ => exact EndsInString.not_append_singleton [_, _, _] (by decide)
  | vecType _ => exact EndsInString.not_cons_append_singleton _ (_ :: _) (by decide)
  | staticArray _ _ =>
      intro hends
      exact EndsInString.not_append_singleton _ (by decide)
        ((hends.of_cons (by decide)).of_append_cons (by decide))
  | boundedArray _ _ =>
      intro hends
      exact EndsInString.not_cons_append_singleton _ _ (by decide)
        ((hends.of_cons (by decide)).of_append_cons (by decide))

/-! ### Lists and optional parts -/

/-- Items one directly behind the other. -/
inductive Sequence {α : Type} (form : α → List Terminal → Prop) : List α → List Terminal → Prop
  | nil : Sequence form [] []
  | cons {item rest ts us} :
    form item ts → Sequence form rest us → Sequence form (item :: rest) (ts ++ us)

theorem Sequence.map {α β : Type} {form : β → List Terminal → Prop} {f : α → β} {items : List α}
    {ts : List Terminal} (h : Sequence (fun item => form (f item)) items ts) :
    Sequence form (items.map f) ts := by
  induction h with
  | nil => exact .nil
  | cons hitem _ ih => exact .cons hitem ih

theorem Sequence.and {α : Type} {form : α → List Terminal → Prop} {q : α → Prop} {items : List α}
    {ts : List Terminal} (h : Sequence form items ts) (hq : ∀ item ∈ items, q item) :
    Sequence (fun item ts => form item ts ∧ q item) items ts := by
  induction h with
  | nil => exact .nil
  | cons hitem _ ih =>
      obtain ⟨hfirst, hrest⟩ := List.forall_mem_cons.mp hq
      exact .cons ⟨hitem, hfirst⟩ (ih hrest)

/-- Items that are written in one way only. -/
theorem Sequence.eq_flatMap {α : Type} {terminals : α → List Terminal} {items : List α}
    {ts : List Terminal} (h : Sequence (fun item ts => ts = terminals item) items ts) :
    ts = items.flatMap terminals := by
  induction h with
  | nil => rfl
  | cons hitem _ ih => rw [hitem, ih, List.flatMap_cons]

/-- Items with commas between them and perhaps one behind the last, up to the closing parenthesis. -/
inductive Closed {α : Type} (form : α → List Terminal → Prop) : List α → List Terminal → Prop
  | nil : Closed form [] [.mark .rParen]
  | last {item ts} : form item ts → Closed form [item] (ts ++ [.mark .rParen])
  | more {item rest ts us} :
    form item ts → Closed form rest us → Closed form (item :: rest) (ts ++ .mark .comma :: us)

theorem Closed.map {α β : Type} {form : β → List Terminal → Prop} {f : α → β} {items : List α}
    {ts : List Terminal} (h : Closed (fun item => form (f item)) items ts) :
    Closed form (items.map f) ts := by
  induction h with
  | nil => exact .nil
  | last hitem => exact .last hitem
  | more hitem _ ih => exact .more hitem ih

/-- An optional part with a terminal in front of it. -/
inductive Optional {α : Type} (front : Terminal) (form : α → List Terminal → Prop) :
    Option α → List Terminal → Prop
  | absent : Optional front form none []
  | present {item ts} : form item ts → Optional front form (some item) (front :: ts)

def docTerminals (docs : List String) : List Terminal := docs.map fun line => .of (.docComment line)

def directionTerminals (direction : Option Direction) : List Terminal :=
  direction.toList.map fun direction => .word direction.keyword

/-- `: type`, or nothing. -/
def TypePart : Option TypeExpr → List Terminal → Prop :=
  Optional (.mark .colon) fun type => Derives (.type type)

/-- `= value`, or nothing. -/
def ValuePart : Option Expr → List Terminal → Prop :=
  Optional (.op .eq) fun expr => Derives (.expr expr)

/-! ### Statements -/

inductive PreconditionForm : Precondition → List Terminal → Prop
  | mk {condition ts} (kind : PreconditionKind) :
    Derives (.expr condition) ts →
    PreconditionForm ⟨kind, condition, .none⟩
      (.mark .at :: .name kind.spelling :: .mark .lParen :: (ts ++ [.mark .rParen]))

/-- The name and the colon of an argument, or nothing. -/
def argumentNameTerminals (name : Option Name) : List Terminal :=
  name.toList.flatMap fun name => [.name name.text, .mark .colon]

inductive ArgumentForm : Argument → List Terminal → Prop
  | mk {value ts} (name : Option String) (direction : Option Direction) :
    Derives (.expr value) ts →
    ArgumentForm ⟨name.map (⟨·, .none⟩), direction, value, .none⟩
      (argumentNameTerminals (name.map (⟨·, .none⟩)) ++ directionTerminals direction ++ ts)

inductive HeadForm : StmtHead → List Terminal → Prop
  | mk {preconditions ps} (docs : List String) :
    Sequence PreconditionForm preconditions ps →
    HeadForm ⟨.blank, docs, preconditions⟩ (docTerminals docs ++ ps)

/-- An index of an assignment target, in its brackets. -/
inductive IndexForm : Expr → List Terminal → Prop
  | mk {position ts} :
    Derives (.expr position) ts →
    IndexForm position (.mark .lBracket :: (ts ++ [.mark .rBracket]))

inductive StmtPhrase
  | stmt (stmt : Stmt)
  /-- A statement without what stands in front of it. -/
  | bare (stmt : Stmt)
  | stmts (stmts : List Stmt)

/-- How statements are written. -/
inductive StmtForm : StmtPhrase → List Terminal → Prop
  | headed {stmt hs ts} :
    HeadForm stmt.head hs → StmtForm (.bare stmt) ts → StmtForm (.stmt stmt) (hs ++ ts)
  | varDecl {type init ts is} (head : StmtHead) (name : String) :
    TypePart type ts → ValuePart init is →
    StmtForm (.bare (.varDecl head ⟨name, .none⟩ type init))
      (.word .varWord :: .name name :: (ts ++ is ++ [.mark .semi]))
  | constDecl {type value ts vs} (head : StmtHead) (name : String) :
    TypePart type ts → Derives (.expr value) vs →
    StmtForm (.bare (.constDecl head ⟨name, .none⟩ type value))
      (.word .constWord :: .name name :: (ts ++ .op .eq :: (vs ++ [.mark .semi])))
  | assignment {indices value is vs} (head : StmtHead) (target : String) (op : AssignOp) :
    Sequence IndexForm indices is → Derives (.expr value) vs →
    StmtForm (.bare (.assignment head ⟨target, .none⟩ indices op value))
      (.name target :: (is ++ .op op.operator :: (vs ++ [.mark .semi])))
  | leaf {arguments as} (head : StmtHead) (callee : String) :
    Closed ArgumentForm arguments as →
    StmtForm (.bare (.leaf head ⟨callee, .none⟩ arguments))
      (.name callee :: .mark .lParen :: (as ++ [.mark .semi]))
  | compound {arguments children as cs} (head : StmtHead) (callee : String) :
    Optional (.mark .lParen) (Closed ArgumentForm) arguments as →
    StmtForm (.stmts children) cs →
    StmtForm (.bare (.compound head ⟨callee, .none⟩ arguments children))
      (.name callee :: (as ++ .mark .lBrace :: (cs ++ [.mark .rBrace])))
  | nil : StmtForm (.stmts []) []
  | cons {stmt rest ts us} :
    StmtForm (.stmt stmt) ts → StmtForm (.stmts rest) us →
    StmtForm (.stmts (stmt :: rest)) (ts ++ us)

theorem StmtForm.ne_nil {stmt : Stmt} {ts : List Terminal} (h : StmtForm (.stmt stmt) ts) :
    ts ≠ [] := by
  cases h with
  | headed _ hbare => cases hbare <;> simp

theorem StmtForm.of_sequence {stmts : List Stmt} {ts : List Terminal}
    (h : Sequence (fun stmt => StmtForm (.stmt stmt.shape)) stmts ts) :
    StmtForm (.stmts (Stmt.shapes stmts)) ts := by
  induction h with
  | nil => exact .nil
  | cons hstmt _ ih => exact .cons hstmt ih

/-! ### Declarations and programs -/

/-- A port or a parameter. -/
inductive ParamForm : Param → List Terminal → Prop
  | mk {type default ts ds} (docs : List String) (direction : Option Direction) (name : String) :
    Derives (.type type) ts → ValuePart default ds →
    ParamForm ⟨docs, direction, ⟨name, .none⟩, type, default, .none⟩
      (docTerminals docs ++ directionTerminals direction ++
        .name name :: .mark .colon :: (ts ++ ds))

/-- `#[behavior(data, flow)]`. The flow policy may be left out where it is the usual one. -/
inductive BehaviorForm : Behavior → List Terminal → Prop
  | full (data : DataPolicy) (flow : FlowPolicy) :
    BehaviorForm ⟨data, flow, .none⟩
      [.mark .hash, .mark .lBracket, .name behaviorAttribute, .mark .lParen, .name data.spelling,
        .mark .comma, .name flow.spelling, .mark .rParen, .mark .rBracket]
  | short (data : DataPolicy) :
    BehaviorForm ⟨data, defaultFlowPolicy, .none⟩
      [.mark .hash, .mark .lBracket, .name behaviorAttribute, .mark .lParen, .name data.spelling,
        .mark .rParen, .mark .rBracket]

inductive AttributeForm : Option Behavior → List Terminal → Prop
  | absent : AttributeForm none []
  | present {behavior ts} : BehaviorForm behavior ts → AttributeForm (some behavior) ts

/-- How declarations are written, without their documentation. -/
inductive BareDeclForm : Decl → List Terminal → Prop
  | importFile (head : DeclHead) (path : String) :
    BareDeclForm (.importFile head path .none)
      [.word .importWord, .of (.string path), .mark .semi]
  | node {ports behavior bs ps} (head : DeclHead) (category : NodeCategory) (name : String) :
    AttributeForm behavior bs → Closed ParamForm ports ps →
    BareDeclForm (.node head category ⟨name, .none⟩ ports behavior)
      (bs ++ .word .externWord :: .word category.keyword :: .name name :: .mark .lParen ::
        (ps ++ [.mark .semi]))
  | opaqueType (head : DeclHead) (name : String) :
    BareDeclForm (.opaqueType head ⟨name, .none⟩)
      [.word .externWord, .word .typeWord, .name name, .mark .semi]
  | typeAlias {type ts} (head : DeclHead) (name : String) :
    Derives (.type type) ts →
    BareDeclForm (.typeAlias head ⟨name, .none⟩ type)
      (.word .typeWord :: .name name :: .op .eq :: (ts ++ [.mark .semi]))
  | varDecl {type init ts is} (head : DeclHead) (name : String) :
    TypePart type ts → ValuePart init is →
    BareDeclForm (.varDecl head ⟨name, .none⟩ type init)
      (.word .varWord :: .name name :: (ts ++ is ++ [.mark .semi]))
  | constDecl {type value ts vs} (head : DeclHead) (name : String) :
    TypePart type ts → Derives (.expr value) vs →
    BareDeclForm (.constDecl head ⟨name, .none⟩ type value)
      (.word .constWord :: .name name :: (ts ++ .op .eq :: (vs ++ [.mark .semi])))
  | tree {params body ps bs} (head : DeclHead) (name : String) :
    Closed ParamForm params ps → StmtForm (.stmts body) bs →
    BareDeclForm (.tree head ⟨name, .none⟩ params body)
      (.word .treeWord :: .name name :: .mark .lParen ::
        (ps ++ .mark .lBrace :: (bs ++ [.mark .rBrace])))

inductive DeclForm : Decl → List Terminal → Prop
  | mk {decl ts} (docs : List String) :
    decl.head = ⟨.blank, docs⟩ → BareDeclForm decl ts → DeclForm decl (docTerminals docs ++ ts)

theorem DeclForm.ne_nil {decl : Decl} {ts : List Terminal} (h : DeclForm decl ts) : ts ≠ [] := by
  cases h with
  | mk docs _ hbare => cases hbare <;> simp

inductive ProgramForm : Program → List Terminal → Prop
  | mk {decls ts} (docs : List String) :
    Sequence DeclForm decls ts →
    ProgramForm ⟨.detached, docs, decls, .none⟩
      (docs.map (fun line => .of (.moduleDoc line)) ++ ts)

end BehaviorTree

/-!
## Terminals of expressions and types

Which terminals can occur in an expression or a type at all, and which can be its first. The words
and marks of statements and declarations are not among them.
-/

namespace BehaviorTree

/-- Kinds of terminals that expressions and types are made of. -/
def TokenKind.inTerm : TokenKind → Bool
  | .keyword word => [.trueWord, .falseWord, .nullWord, .vecWord, .stringWord, .asWord].contains word
  | .operator op => !op.isAssignment
  | .punctuation mark =>
    [.lParen, .rParen, .lBracket, .rBracket, .comma, .semi, .question].contains mark
  | .identifier | .infer | .int _ | .float _ | .string _ => true
  | .docComment _ | .moduleDoc _ | .unknown | .endOfFile => false

def TokenKind.startsPrimary : TokenKind → Bool
  | .keyword word => [.trueWord, .falseWord, .nullWord, .vecWord].contains word
  | .punctuation mark => mark == .lParen || mark == .lBracket
  | .identifier | .int _ | .float _ | .string _ => true
  | _ => false

def TokenKind.startsExpr : TokenKind → Bool
  | .operator op => (UnaryOp.ofOperator? op).isSome
  | kind => kind.startsPrimary

theorem TokenKind.startsExpr_of_startsPrimary {kind : TokenKind} (h : kind.startsPrimary = true) :
    kind.startsExpr = true := by
  cases kind with
  | operator op => cases h
  | _ => exact h

theorem Derives.all_inTerm {phrase : Phrase} {ts : List Terminal} (h : Derives phrase ts) :
    ts.all (·.kind.inTerm) = true := by
  have hbinary : ∀ op : BinaryOp, op.operator.isAssignment = false := by
    intro op
    cases op <;> rfl
  have hunary : ∀ op : UnaryOp, op.operator.isAssignment = false := by
    intro op
    cases op <;> rfl
  have hmarks : Operator.bang.isAssignment = false ∧ Operator.lt.isAssignment = false ∧
      Operator.gt.isAssignment = false ∧ Operator.ltEq.isAssignment = false := by decide
  induction h <;>
    simp_all [Terminal.op, Terminal.mark, Terminal.word, Terminal.name, Terminal.of,
      TokenKind.inTerm]

theorem Derives.inTerm {phrase : Phrase} {ts : List Terminal} (h : Derives phrase ts) {t : Terminal}
    (ht : t ∈ ts) : t.kind.inTerm = true :=
  List.all_eq_true.mp h.all_inTerm t ht

/-- The kinds that the first terminal of a phrase can have. -/
def Phrase.StartsWith : Phrase → TokenKind → Prop
  | .layered .. | .unary _ | .elements _ => fun kind => kind.startsExpr = true
  | .suffixed _ | .primary _ | .array _ => fun kind => kind.startsPrimary = true
  | .type _ | .plainType _ => fun _ => True

theorem Derives.starts {phrase : Phrase} {ts : List Terminal} (h : Derives phrase ts) :
    ∃ t rest, ts = t :: rest ∧ phrase.StartsWith t.kind := by
  induction h with
  | operand _ ih | tighter _ ih | plain _ ih | array _ ih | last _ ih | lastComma _ ih
  | more _ _ ih _ | index _ _ ih _ | cast _ _ ih _ | grouped _ _ _ _ _ ih _
  | single _ _ _ _ _ _ ih _ =>
      obtain ⟨t, rest, rfl, hstarts⟩ := ih
      exact ⟨t, _, rfl, hstarts⟩
  | unprefixed _ ih =>
      obtain ⟨t, rest, rfl, hstarts⟩ := ih
      exact ⟨t, rest, rfl, TokenKind.startsExpr_of_startsPrimary hstarts⟩
  | unsuffixed _ ih =>
      obtain ⟨t, rest, rfl, hstarts⟩ := ih
      exact ⟨t, rest, rfl, hstarts⟩
  | nullable _ ih =>
      obtain ⟨t, rest, rfl, hstarts⟩ := ih
      exact ⟨t, _, rfl, trivial⟩
  | prefixed op _ _ => exact ⟨_, _, rfl, by cases op <;> rfl⟩
  | _ => exact ⟨_, _, rfl, by first | rfl | trivial⟩

end BehaviorTree
