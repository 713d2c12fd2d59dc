import BehaviorTree.Parsing.Recovery
import BehaviorTree.Proofs.Syntax.Shape

/-!
# Runs that agree

Two runs of a parser agree if they start from the same tokens, wherever these stand, whatever was
parsed before and whatever was reported. They end in front of the same tokens again and return the
same up to places and numbers. Ranges only ever go into trees and reports, never into a decision.
-/

namespace BehaviorTree

/-- A token without its place. -/
def Token.blank (token : Token) : Token := { token with range := .none }

namespace Token

variable (token : Token)

@[simp] theorem isEndOfFile_blank : token.blank.isEndOfFile = token.isEndOfFile := rfl
@[simp] theorem isPunctuation_blank (mark : Punctuation) :
    token.blank.isPunctuation mark = token.isPunctuation mark := rfl
@[simp] theorem isAssignment_blank : token.blank.isAssignment = token.isAssignment := rfl
@[simp] theorem closer?_blank : token.blank.closer? = token.closer? := rfl
@[simp] theorem stopsAt_blank (set : RecoverySet) : set.stopsAt token.blank = set.stopsAt token := rfl
@[simp] theorem endsHeader_blank : Skip.endsHeader token.blank = Skip.endsHeader token := rfl

@[simp] theorem pendingBehind?_blank (pending : List Punctuation) :
    Skip.pendingBehind? pending token.blank = Skip.pendingBehind? pending token := by
  cases pending <;> rfl

end Token

namespace Skip

variable {pending : List Punctuation} {depth : Nat} {tokens : List Token}

theorem groupRest_blank : groupRest pending (tokens.map Token.blank) = groupRest pending tokens := by
  induction tokens generalizing pending with
  | nil => rfl
  | cons token rest ih => simp only [List.map_cons, groupRest, Token.isEndOfFile_blank,
      Token.pendingBehind?_blank, ih]

theorem group_blank : group (tokens.map Token.blank) = group tokens := by
  cases tokens with
  | nil => rfl
  | cons token rest => simp only [List.map_cons, group, Token.closer?_blank, groupRest_blank]

/-- Scans that see no places count the same. -/
theorem Counts.blank {stops : Token → Bool} {countIn : List Punctuation → List Token → Nat}
    (h : Counts stops countIn) (hstops : ∀ token, stops token.blank = stops token) :
    countIn pending (tokens.map Token.blank) = countIn pending tokens := by
  induction tokens generalizing pending with
  | nil => rw [List.map_nil]
  | cons token rest ih => simp only [List.map_cons, h.cons, Token.isEndOfFile_blank,
      Token.pendingBehind?_blank, hstops, Token.closer?_blank, ih]

theorem blockRest_blank : blockRest depth (tokens.map Token.blank) = blockRest depth tokens := by
  induction tokens generalizing depth with
  | nil => rfl
  | cons token rest ih =>
      rw [List.map_cons, blockRest.eq_def, blockRest.eq_def]
      simp only [Token.isEndOfFile_blank, Token.isPunctuation_blank, ih]

theorem assignmentFollows_blank :
    assignmentFollows depth (tokens.map Token.blank) = assignmentFollows depth tokens := by
  induction tokens generalizing depth with
  | nil => cases depth <;> rfl
  | cons token rest ih =>
      cases depth with
      | zero => simp only [List.map_cons, assignmentFollows, Token.isPunctuation_blank,
          Token.isAssignment_blank, ih]
      | succ depth => simp only [List.map_cons, assignmentFollows, Token.isEndOfFile_blank,
          Token.isPunctuation_blank, Token.isAssignment_blank, ih]

end Skip

/-- How grave each report is. -/
def Diagnostics.severities (diagnostics : List Diagnostic) : List Severity :=
  diagnostics.map Diagnostic.severity

theorem Diagnostics.severities_append (diagnostics later : List Diagnostic) :
    severities (diagnostics ++ later) = severities diagnostics ++ severities later :=
  List.map_append

theorem Diagnostics.hasErrors_eq (diagnostics : List Diagnostic) :
    hasErrors diagnostics = (severities diagnostics).any (· == .error) := by
  unfold hasErrors severities Diagnostic.isError
  rw [List.any_map]
  rfl

theorem SyntaxReport.severity_chainedComparison (second first : SourceRange) :
    (chainedComparison second first).severity = .error :=
  Diagnostic.severity_withSecondary _ _ _

theorem SyntaxReport.severity_unclosedBlock (found : Token) (opening : SourceRange) :
    (unclosedBlock found opening).severity = .error :=
  Diagnostic.severity_withSecondary _ _ _

/-- What two runs have to do with each other in their positions and in what they have reported. Each
step of a parser moves both on by as many tokens, or reports on both sides. -/
structure Books where
  related : ParserState → ParserState → Prop
  /-- By how many tokens the first run is ahead. -/
  lead : Nat
  position : ∀ {s t}, related s t → s.position = t.position + lead
  /-- Where a token starts a line it matters whether another one was consumed in front of it. -/
  begun : ∀ {s t}, related s t → s.current.newlineBefore = true → (0 < s.position ↔ 0 < t.position)
  skip : ∀ {s t}, related s t → ∀ count, related (s.skip count) (t.skip count)
  report : ∀ {s t} {diagnostic diagnostic' : Diagnostic}, related s t →
    diagnostic.severity = diagnostic'.severity → related (s.report diagnostic) (t.report diagnostic')
  reportOnce : ∀ {s t} {diagnostic diagnostic' : Diagnostic}, related s t →
    diagnostic.severity = diagnostic'.severity →
      related (s.reportOnce diagnostic) (t.reportOnce diagnostic')
  withArena : ∀ {s t}, related s t → ∀ arena arena' : Arena,
    related { s with arena := arena } { t with arena := arena' }

/-- The gate for reports stands at the same token, and as many reports were made, each as grave as
the other. -/
structure ParserState.SameReports (s t : ParserState) : Prop where
  position : s.position = t.position
  reportedAt : s.reportedAt = t.reportedAt
  severities : Diagnostics.severities s.diagnostics = Diagnostics.severities t.diagnostics

namespace ParserState.SameReports

variable {s t : ParserState} {diagnostic diagnostic' : Diagnostic}

theorem report (hsame : SameReports s t) (hseverity : diagnostic.severity = diagnostic'.severity) :
    SameReports (s.report diagnostic) (t.report diagnostic') where
  position := hsame.position
  reportedAt := hsame.reportedAt
  severities := by
    have hseverities := hsame.severities
    unfold Diagnostics.severities at hseverities ⊢
    simp only [ParserState.report, List.map_append, List.map_cons, List.map_nil, hseverities,
      hseverity]

theorem reportOnce (hsame : SameReports s t)
    (hseverity : diagnostic.severity = diagnostic'.severity) :
    SameReports (s.reportOnce diagnostic) (t.reportOnce diagnostic') := by
  have hreported := hsame.report hseverity
  unfold ParserState.reportOnce
  rw [hsame.position, hsame.reportedAt]
  split
  · exact hsame
  · exact ⟨hreported.position, rfl, hreported.severities⟩

end ParserState.SameReports

/-- Two runs on the same text. -/
def Books.same : Books where
  related := ParserState.SameReports
  lead := 0
  position hsame := hsame.position
  begun hsame _ := by rw [hsame.position]
  skip hsame count := ⟨congrArg (· + count) hsame.position, hsame.reportedAt, hsame.severities⟩
  report hsame hseverity := hsame.report hseverity
  reportOnce hsame hseverity := hsame.reportOnce hseverity
  withArena hsame _ _ := ⟨hsame.position, hsame.reportedAt, hsame.severities⟩

/-- The same tokens are to come, and the books say how the runs got there. -/
structure ParserState.Twins (books : Books) (s t : ParserState) : Prop where
  rest : s.rest.map Token.blank = t.rest.map Token.blank
  final : s.final.blank = t.final.blank
  related : books.related s t

namespace ParserState.Twins

variable {books : Books} {s t : ParserState}

theorem tokenAt (htwins : Twins books s t) (count : Nat) :
    (s.tokenAt count).blank = (t.tokenAt count).blank := by
  have hrest := congrArg (fun tokens : List Token => tokens[count]?) htwins.rest
  simp only [List.getElem?_map] at hrest
  unfold ParserState.tokenAt
  cases hs : s.rest[count]? <;> cases ht : t.rest[count]? <;> rw [hs, ht] at hrest
  · exact htwins.final
  · cases hrest
  · cases hrest
  · exact Option.some.inj hrest

theorem skip (htwins : Twins books s t) (count : Nat) :
    Twins books (s.skip count) (t.skip count) where
  rest := by
    unfold ParserState.skip
    rw [List.map_drop, List.map_drop, htwins.rest]
  final := htwins.final
  related := books.skip htwins.related count

theorem withArena (htwins : Twins books s t) (arena arena' : Arena) :
    Twins books { s with arena := arena } { t with arena := arena' } :=
  ⟨htwins.rest, htwins.final, books.withArena htwins.related arena arena'⟩

theorem report {diagnostic diagnostic' : Diagnostic} (htwins : Twins books s t)
    (hseverity : diagnostic.severity = diagnostic'.severity) :
    Twins books (s.report diagnostic) (t.report diagnostic') :=
  ⟨htwins.rest, htwins.final, books.report htwins.related hseverity⟩

theorem reportOnce {diagnostic diagnostic' : Diagnostic} (htwins : Twins books s t)
    (hseverity : diagnostic.severity = diagnostic'.severity) :
    Twins books (s.reportOnce diagnostic) (t.reportOnce diagnostic') where
  rest := by rw [rest_reportOnce, rest_reportOnce, htwins.rest]
  final := by rw [final_reportOnce, final_reportOnce, htwins.final]
  related := books.reportOnce htwins.related hseverity

theorem length_eq (htwins : Twins books s t) : s.rest.length = t.rest.length := by
  rw [← List.length_map Token.blank, htwins.rest, List.length_map]

/-- Whether the tokens behind the current one are those of an assignment. -/
theorem assignmentFollows (htwins : Twins books s t) :
    Skip.assignmentFollows 0 (s.rest.drop 1) = Skip.assignmentFollows 0 (t.rest.drop 1) := by
  rw [← Skip.assignmentFollows_blank, List.map_drop, htwins.rest, ← List.map_drop,
    Skip.assignmentFollows_blank]

theorem startsConstruct (htwins : Twins books s t) (inBody : Bool) :
    s.startsConstruct inBody = t.startsConstruct inBody := by
  have hcurrent : s.current.blank = t.current.blank := htwins.tokenAt 0
  have hsecond : (s.tokenAt 1).blank = (t.tokenAt 1).blank := htwins.tokenAt 1
  have hmark : ∀ mark, (s.tokenAt 1).isPunctuation mark = (t.tokenAt 1).isPunctuation mark := by
    intro mark
    rw [← Token.isPunctuation_blank, hsecond, Token.isPunctuation_blank]
  have hline : s.current.newlineBefore = t.current.newlineBefore :=
    show s.current.blank.newlineBefore = t.current.blank.newlineBefore by rw [hcurrent]
  have hkind : s.current.kind = t.current.kind :=
    show s.current.blank.kind = t.current.blank.kind by rw [hcurrent]
  unfold ParserState.startsConstruct
  simp only [hline, hkind, hmark, htwins.assignmentFollows]

end ParserState.Twins

namespace Parser

open ParserState

variable {α β σ : Type} {p q : Parser α} {f g : α → Parser β} {rel rel' : α → α → Prop}
  {goal : β → β → Prop}

/-- From twin states the parsers return related values and end in twin states. -/
def Agrees (p q : Parser α) (rel : α → α → Prop) : Prop :=
  ∀ (books : Books) (s t : ParserState), Twins books s t →
    rel (p s).1 (q t).1 ∧ Twins books (p s).2 (q t).2

/-- Both parsers return the same. -/
abbrev Same (p q : Parser α) : Prop := Agrees p q Eq

/-- The values have the same shape. -/
def Alike (shape : α → σ) (a a' : α) : Prop := shape a = shape a'

theorem Agrees.pure {a a' : α} (ha : rel a a') : Agrees (pure a) (pure a') rel :=
  fun _ _ _ htwins => ⟨ha, htwins⟩

theorem Same.pure (a : α) : Same (Pure.pure a) (Pure.pure a) := Agrees.pure rfl

theorem Agrees.bind (hp : Agrees p q rel) (hf : ∀ a a', rel a a' → Agrees (f a) (g a') goal) :
    Agrees (p >>= f) (q >>= g) goal := by
  intro books s t htwins
  obtain ⟨ha, hstates⟩ := hp books s t htwins
  exact hf _ _ ha _ _ _ hstates

/-- What is made of the parts of an item, if there are any, is alike on both sides. -/
theorem Agrees.build {γ : Type} {p q : Parser (Option α)} {shape : α → σ} {make make' : α → γ}
    {goal : Option γ → Option γ → Prop} (hp : Agrees p q (Alike (Option.map shape)))
    (hnone : goal none none)
    (hsome : ∀ parts parts', shape parts = shape parts' →
      goal (some (make parts)) (some (make' parts'))) :
    Agrees (do return (← p).map make) (do return (← q).map make') goal := by
  apply Agrees.bind hp
  rintro (_ | parts) (_ | parts') hparts
  · exact Agrees.pure hnone
  · cases hparts
  · cases hparts
  · exact Agrees.pure (hsome parts parts' (Option.some.inj hparts))

/-- Behind parsers that return the same. -/
theorem Agrees.next (hp : Same p q) (hf : ∀ a, Agrees (f a) (g a) goal) :
    Agrees (p >>= f) (q >>= g) goal := by
  apply Agrees.bind hp
  rintro a _ rfl
  exact hf a

theorem Agrees.map {h : α → β} (hp : Agrees p q rel) (hh : ∀ a a', rel a a' → goal (h a) (h a')) :
    Agrees (h <$> p) (h <$> q) goal :=
  Agrees.bind hp fun a a' ha => Agrees.pure (hh a a' ha)

theorem Agrees.ite {c c' : Prop} [Decidable c] [Decidable c'] {p' q' : Parser α} (hc : c ↔ c')
    (hthen : c → Agrees p q rel) (helse : ¬c → Agrees p' q' rel) :
    Agrees (if c then p else p') (if c' then q else q') rel := by
  by_cases h : c
  · rw [if_pos h, if_pos (hc.mp h)]
    exact hthen h
  · rw [if_neg h, if_neg (mt hc.mpr h)]
    exact helse h

/-! ### Steps -/

theorem Agrees.peek {f g : Token → Parser β}
    (hf : ∀ kind text range range' line,
      Agrees (f ⟨kind, text, range, line⟩) (g ⟨kind, text, range', line⟩) goal) :
    Agrees (Parser.peek >>= f) (Parser.peek >>= g) goal := by
  intro books s t htwins
  show goal (f s.current s).1 (g t.current t).1 ∧ Twins books (f s.current s).2 (g t.current t).2
  have hcurrent : s.current.blank = t.current.blank := htwins.tokenAt 0
  cases hs : s.current with
  | mk kind text range line =>
      cases ht : t.current with
      | mk kind' text' range' line' =>
          rw [hs, ht] at hcurrent
          cases hcurrent
          exact hf kind text range range' line books s t htwins

theorem Agrees.peekSecond {f g : Token → Parser β}
    (hf : ∀ kind text range range' line,
      Agrees (f ⟨kind, text, range, line⟩) (g ⟨kind, text, range', line⟩) goal) :
    Agrees (Parser.peekSecond >>= f) (Parser.peekSecond >>= g) goal := by
  intro books s t htwins
  show goal (f (s.tokenAt 1) s).1 (g (t.tokenAt 1) t).1 ∧
    Twins books (f (s.tokenAt 1) s).2 (g (t.tokenAt 1) t).2
  have hsecond : (s.tokenAt 1).blank = (t.tokenAt 1).blank := htwins.tokenAt 1
  cases hs : s.tokenAt 1 with
  | mk kind text range line =>
      cases ht : t.tokenAt 1 with
      | mk kind' text' range' line' =>
          rw [hs, ht] at hsecond
          cases hsecond
          exact hf kind text range range' line books s t htwins

/-- Tests on kind and text of the current token. -/
theorem Same.test (test : Token → α) (htest : ∀ token : Token, test token.blank = test token) :
    Same (fun state => (test state.current, state)) (fun state => (test state.current, state)) := by
  intro books s t htwins
  have hcurrent : s.current.blank = t.current.blank := htwins.tokenAt 0
  refine ⟨?_, htwins⟩
  show test s.current = test t.current
  rw [← htest, hcurrent, htest]

theorem Same.atPunctuation (mark : Punctuation) :
    Same (atPunctuation mark) (atPunctuation mark) :=
  Same.test (·.isPunctuation mark) fun _ => rfl

theorem Same.atEnd : Same atEnd atEnd := Same.test (·.isEndOfFile) fun _ => rfl

theorem Agrees.rangeSince {f g : SourceRange → Parser β} {start start' : SourceRange}
    (hf : ∀ range range', Agrees (f range) (g range') goal) :
    Agrees (Parser.rangeSince start >>= f) (Parser.rangeSince start' >>= g) goal :=
  fun books s t htwins => hf _ _ books s t htwins

theorem Same.intern (text text' : String) : Same (intern text) (intern text') :=
  fun _ _ _ htwins => ⟨rfl, htwins.withArena _ _⟩

theorem Agrees.name {kind kind' : TokenKind} {text : String} {range range' : SourceRange}
    {line line' : Bool} :
    Agrees (Parser.nameOf ⟨kind, text, range, line⟩) (Parser.nameOf ⟨kind', text, range', line'⟩)
      (Alike Name.shape) :=
  Agrees.next (Same.intern text text) fun _ => Agrees.pure rfl

theorem Agrees.nameOf {f g : Name → Parser β} {kind kind' : TokenKind} {text : String}
    {range range' : SourceRange} {line line' : Bool}
    (hf : ∀ name name', name.shape = name'.shape → Agrees (f name) (g name') goal) :
    Agrees (Parser.nameOf ⟨kind, text, range, line⟩ >>= f)
      (Parser.nameOf ⟨kind', text, range', line'⟩ >>= g) goal :=
  Agrees.bind Agrees.name hf

theorem Agrees.newExpr {range range' : SourceRange} {build build' : Origin → Expr}
    (hbuild : ∀ o o', (build o).shape = (build' o').shape) :
    Agrees (newExpr range build) (newExpr range' build') (Alike Expr.shape) :=
  fun _ _ _ htwins => ⟨hbuild _ _, htwins.withArena _ _⟩

theorem Agrees.newType {range range' : SourceRange} {build build' : Origin → TypeExpr}
    (hbuild : ∀ o o', (build o).shape = (build' o').shape) :
    Agrees (newType range build) (newType range' build') (Alike TypeExpr.shape) :=
  fun _ _ _ htwins => ⟨hbuild _ _, htwins.withArena _ _⟩

theorem Agrees.newStmt {range range' : SourceRange} {build build' : Origin → Stmt}
    (hbuild : ∀ o o', (build o).shape = (build' o').shape) :
    Agrees (newStmt range build) (newStmt range' build') (Alike Stmt.shape) :=
  fun _ _ _ htwins => ⟨hbuild _ _, htwins.withArena _ _⟩

theorem Agrees.newDecl {range range' : SourceRange} {build build' : Origin → Decl}
    (hbuild : ∀ o o', (build o).shape = (build' o').shape) :
    Agrees (newDecl range build) (newDecl range' build') (Alike Decl.shape) :=
  fun _ _ _ htwins => ⟨hbuild _ _, htwins.withArena _ _⟩

theorem Agrees.widenExpr {expr expr' : Expr} {range range' : SourceRange}
    (hexpr : expr.shape = expr'.shape) :
    Agrees (widenExpr expr range) (widenExpr expr' range') (Alike Expr.shape) := by
  intro books s t htwins
  refine ⟨?_, htwins.withArena _ _⟩
  show (expr.withRange range).shape = (expr'.withRange range').shape
  rw [Expr.shape_withRange, Expr.shape_withRange, hexpr]

/-- What is made behind an empty range does not depend on where that is. -/
theorem Agrees.emptyHere {f g : SourceRange → Parser β}
    (hf : ∀ range range', Agrees (f range) (g range') goal) :
    Agrees (Parser.emptyHere >>= f) (Parser.emptyHere >>= g) goal :=
  fun books s t htwins => hf _ _ books s t htwins

theorem Agrees.missingExpr : Agrees missingExpr missingExpr (Alike Expr.shape) := by
  apply Agrees.emptyHere
  intro range range'
  exact Agrees.newExpr fun _ _ => rfl

theorem Agrees.missingType : Agrees missingType missingType (Alike TypeExpr.shape) := by
  apply Agrees.emptyHere
  intro range range'
  exact Agrees.newType fun _ _ => rfl

/-! ### Reports -/

theorem Same.report (diagnostic diagnostic' : Diagnostic)
    (hseverity : diagnostic.severity = diagnostic'.severity) :
    Same (report diagnostic) (report diagnostic') :=
  fun _ _ _ htwins => ⟨rfl, htwins.report hseverity⟩

theorem Same.reportOnce (diagnostic diagnostic' : Diagnostic)
    (hseverity : diagnostic.severity = diagnostic'.severity) :
    Same (reportOnce diagnostic) (reportOnce diagnostic') :=
  fun _ _ _ htwins => ⟨rfl, htwins.reportOnce hseverity⟩

theorem Same.expected (what what' : String) : Same (expected what) (expected what') :=
  Agrees.peek fun _ _ _ _ _ => Same.reportOnce _ _ rfl

theorem Same.expectedWithHelp (what help what' help' : String) :
    Same (expectedWithHelp what help) (expectedWithHelp what' help') :=
  Agrees.peek fun _ _ _ _ _ => Same.reportOnce _ _ rfl

theorem Same.missing (what context what' context' : String) (insertion : Option String) :
    Same (missing what context insertion) (missing what' context' insertion) := by
  intro books s t htwins
  have hcurrent : s.current.blank = t.current.blank := htwins.tokenAt 0
  have hline : s.current.blank.newlineBefore = t.current.blank.newlineBefore := by rw [hcurrent]
  change s.current.newlineBefore = t.current.newlineBefore at hline
  have hbegun : (decide (0 < s.position) && s.current.newlineBefore) =
      (decide (0 < t.position) && s.current.newlineBefore) := by
    cases hstarts : s.current.newlineBefore with
    | false => rw [Bool.and_false, Bool.and_false]
    | true => rw [decide_eq_decide.mpr (books.begun htwins.related hstarts)]
  unfold Parser.missing
  dsimp only
  rw [hbegun, hline]
  split
  · exact ⟨rfl, htwins.reportOnce rfl⟩
  · exact ⟨rfl, htwins.reportOnce rfl⟩

/-! ### Consuming tokens -/

theorem Same.skip {count : List Token → Nat}
    (hcount : ∀ tokens, count (tokens.map Token.blank) = count tokens) :
    Same (skip count) (skip count) := by
  intro books s t htwins
  refine ⟨rfl, ?_⟩
  show Twins books (s.skip (count s.rest)) (t.skip (count t.rest))
  rw [← hcount s.rest, htwins.rest, hcount]
  exact htwins.skip _

theorem Same.synchronize (set : RecoverySet) : Same (synchronize set) (synchronize set) :=
  Same.skip fun _ => (Skip.counts_untilStop _).blank fun token => token.stopsAt_blank _

/-- The same token is consumed. -/
theorem Agrees.advance {f g : Token → Parser β}
    (hf : ∀ kind text range range' line,
      Agrees (f ⟨kind, text, range, line⟩) (g ⟨kind, text, range', line⟩) goal) :
    Agrees (Parser.advance >>= f) (Parser.advance >>= g) goal := by
  intro books s t htwins
  have hcurrent : s.current.blank = t.current.blank := htwins.tokenAt 0
  have hend : s.current.isEndOfFile = t.current.isEndOfFile := by
    rw [← Token.isEndOfFile_blank, hcurrent, Token.isEndOfFile_blank]
  have hstates : Twins books (Parser.advance s).2 (Parser.advance t).2 := by
    show Twins books (if s.current.isEndOfFile then s else s.skip 1)
      (if t.current.isEndOfFile then t else t.skip 1)
    rw [hend]
    split
    · exact htwins
    · exact htwins.skip 1
  show goal (f s.current (Parser.advance s).2).1 (g t.current (Parser.advance t).2).1 ∧
    Twins books (f s.current (Parser.advance s).2).2 (g t.current (Parser.advance t).2).2
  cases hs : s.current with
  | mk kind text range line =>
      cases ht : t.current with
      | mk kind' text' range' line' =>
          rw [hs, ht] at hcurrent
          cases hcurrent
          exact hf kind text range range' line _ _ _ hstates

theorem Same.accept {test : Token → Bool} (htest : ∀ token : Token, test token.blank = test token) :
    Same (accept test) (accept test) := by
  apply Agrees.peek
  intro kind text range range' line
  have hsame : test ⟨kind, text, range, line⟩ = test ⟨kind, text, range', line⟩ :=
    (htest ⟨kind, text, range, line⟩).symm.trans (htest ⟨kind, text, range', line⟩)
  rw [hsame]
  split
  · exact Agrees.advance fun _ _ _ _ _ => Same.pure true
  · exact Same.pure false

theorem Same.acceptPunctuation (mark : Punctuation) :
    Same (acceptPunctuation mark) (acceptPunctuation mark) :=
  Same.accept fun _ => rfl

theorem Same.acceptOperator (op : Operator) : Same (acceptOperator op) (acceptOperator op) :=
  Same.accept fun _ => rfl

/-! ### Loops -/

/-- Both turns go on or both end, with related values. -/
def Turn.Agrees (rel : α → α → Prop) : Turn α → Turn α → Prop
  | .again value, .again value' | .done value, .done value' => rel value value'
  | _, _ => False

theorem Agrees.iterateAlong {body body' : α → Parser (Turn α)}
    (hbody : ∀ v v', rel v v' → Agrees (body v) (body' v') (Turn.Agrees rel))
    (turns turns' : List Token) (v v' : α) (hlength : turns.length = turns'.length)
    (hv : rel v v') : Agrees (iterateAlong body turns v) (iterateAlong body' turns' v') rel := by
  induction turns generalizing turns' v v' with
  | nil =>
      cases turns' with
      | cons _ _ => cases hlength
      | nil =>
          apply Agrees.bind (hbody v v' hv)
          rintro (a | a) (a' | a') hturn
          · exact Agrees.pure hturn
          · cases hturn
          · cases hturn
          · exact Agrees.pure hturn
  | cons token turns ih =>
      cases turns' with
      | nil => cases hlength
      | cons token' turns' =>
          apply Agrees.bind (hbody v v' hv)
          rintro (a | a) (a' | a') hturn
          · exact ih turns' a a' (Nat.succ.inj hlength) hturn
          · cases hturn
          · cases hturn
          · exact Agrees.pure hturn

theorem Agrees.iterate {body body' : α → Parser (Turn α)} {v v' : α} (hv : rel v v')
    (hbody : ∀ v v', rel v v' → Agrees (body v) (body' v') (Turn.Agrees rel)) :
    Agrees (iterate body v) (iterate body' v') rel :=
  fun books s t htwins =>
    Agrees.iterateAlong hbody s.rest t.rest v v' htwins.length_eq hv books s t htwins

theorem Agrees.loop {shape : α → σ} {body body' : α → Parser (Turn α)} {v : α}
    (hbody : ∀ v v', Alike shape v v' → Agrees (body v) (body' v') (Turn.Agrees (Alike shape))) :
    Agrees (Parser.iterate body v) (Parser.iterate body' v) (Alike shape) :=
  Agrees.iterate rfl hbody

end Parser

end BehaviorTree
