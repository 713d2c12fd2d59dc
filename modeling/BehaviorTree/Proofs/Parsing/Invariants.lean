import BehaviorTree.Proofs.Parsing.Planted
import BehaviorTree.Proofs.Parsing.Silence
import BehaviorTree.Proofs.Syntax.Marks

/-!
# Invariants of a parser

A parser changes its state in few ways: it moves on over tokens, but never over the end of the file,
it makes a report, gated or not, and it enlarges the arena. An invariant says what holds of all
states of a run and of all marks in what its parsers return, and has to outlast these few changes
only. `Respects` is the judgement that a parser keeps to it, with a rule for each elementary parser.

A gated report is about the token that the parser is at, and an ungated one has a code of its own but
for the precondition in front of nothing.
-/

namespace BehaviorTree

/-! ### Reports, gated and ungated -/

namespace SyntaxReport

/-- The report is one of those that are made at most once for a token, and it is about the current
token of the state: about finding it, or about the line that ends in front of it. -/
inductive Gated (s : ParserState) : Diagnostic → Prop
  | expected (what : String) : Gated s (expected what s.current)
  | expectedWithHelp (what help : String) : Gated s ((SyntaxReport.expected what s.current).withHelp help)
  | missing (what context : String) : Gated s (missing what context s.current)
  | missingAtLineEnd (what context insertion : String) :
      Gated s (missingAtLineEnd what context insertion (.emptyAt s.file s.lastRange.stop))
  | unclosedBlock (opening : SourceRange) : Gated s (unclosedBlock s.current opening)
  | foreignWord (word : ForeignWord) : Gated s (foreignWord word s.current.range)

/-- The report is about no word from elsewhere, and about no token that should be another unless it
is about a precondition in front of nothing. -/
structure Ungated (diagnostic : Diagnostic) : Prop where
  unsupportedWord : diagnostic.code ≠ some Code.unsupportedWord
  expectedToken : diagnostic.code = some Code.expectedToken →
    ∃ range, diagnostic = unattachedPrecondition range

/-- The report is about a word from elsewhere, or about a token that should be another, unless that
is a precondition in front of nothing. -/
def IsGated (diagnostic : Diagnostic) : Prop :=
  diagnostic.code = some Code.unsupportedWord ∨
    (diagnostic.code = some Code.expectedToken ∧ ∀ range, diagnostic ≠ unattachedPrecondition range)

theorem head?_toList_append {text : String} {first : Char} (h : text.toList.head? = some first)
    (rest : String) : (text ++ rest).toList.head? = some first := by
  rw [String.toList_append, List.head?_append, h]
  rfl

theorem Gated.isGated {s : ParserState} {diagnostic : Diagnostic} (h : Gated s diagnostic) :
    IsGated diagnostic := by
  -- What is expected somewhere is told in other words than what stands in front of nothing.
  have hother : diagnostic.message.toList.head? = some 'e' →
      ∀ range, diagnostic ≠ unattachedPrecondition range := by
    rintro hhead range rfl
    have hmessage : (unattachedPrecondition range).message =
        "precondition is not attached to a statement" := rfl
    rw [hmessage] at hhead
    exact absurd hhead (by decide)
  have hwords : "expected ".toList.head? = some 'e' := by decide
  have hbrace : "expected `\x7d` to close the block, found ".toList.head? = some 'e' := by decide
  cases h with
  | foreignWord word => exact .inl rfl
  | expected what =>
      exact .inr ⟨rfl, hother (head?_toList_append (head?_toList_append
        (head?_toList_append hwords _) _) _)⟩
  | expectedWithHelp what help =>
      exact .inr ⟨rfl, hother (head?_toList_append (head?_toList_append
        (head?_toList_append hwords _) _) _)⟩
  | missing what context =>
      exact .inr ⟨rfl, hother (head?_toList_append (head?_toList_append (head?_toList_append
        (head?_toList_append (head?_toList_append hwords _) _) _) _) _)⟩
  | missingAtLineEnd what context insertion =>
      exact .inr ⟨rfl, hother (head?_toList_append (head?_toList_append
        (head?_toList_append hwords _) _) _)⟩
  | unclosedBlock opening =>
      refine .inr ⟨Diagnostic.code_withSecondary _ _ _, hother ?_⟩
      rw [SyntaxReport.unclosedBlock, Diagnostic.message_withSecondary]
      exact head?_toList_append hbrace _

theorem Ungated.not_isGated {diagnostic : Diagnostic} (h : Ungated diagnostic) :
    ¬IsGated diagnostic := by
  rintro (hword | ⟨htoken, hother⟩)
  · exact h.unsupportedWord hword
  · obtain ⟨range, heq⟩ := h.expectedToken htoken
    exact hother range heq

theorem Ungated.of_code {diagnostic : Diagnostic} {code : String} (hcode : diagnostic.code = some code)
    (hword : code ≠ Code.unsupportedWord) (htoken : code ≠ Code.expectedToken) : Ungated diagnostic where
  unsupportedWord := by
    rw [hcode]
    exact fun h => hword (Option.some.inj h)
  expectedToken h := (htoken (Option.some.inj (hcode.symm.trans h))).elim

variable (range second first : SourceRange) (what name choices : String)

theorem Ungated.danglingDocs : Ungated (danglingDocs range) := .of_code rfl (by decide) (by decide)

theorem Ungated.misplacedModuleDoc : Ungated (misplacedModuleDoc range) :=
  .of_code rfl (by decide) (by decide)

theorem Ungated.chainedComparison : Ungated (chainedComparison second first) :=
  .of_code (Diagnostic.code_withSecondary _ _ _) (by decide) (by decide)

theorem Ungated.unattachedPrecondition : Ungated (unattachedPrecondition range) where
  unsupportedWord := by
    show some Code.expectedToken ≠ some Code.unsupportedWord
    decide
  expectedToken _ := ⟨range, rfl⟩

theorem Ungated.unknownPrecondition : Ungated (unknownPrecondition name range) :=
  .of_code rfl (by decide) (by decide)

theorem Ungated.semicolonAfterBlock : Ungated (semicolonAfterBlock range) :=
  .of_code rfl (by decide) (by decide)

theorem Ungated.misplacedAttribute : Ungated (misplacedAttribute range) :=
  .of_code rfl (by decide) (by decide)

theorem Ungated.unknownAttribute : Ungated (unknownAttribute name range) :=
  .of_code rfl (by decide) (by decide)

theorem Ungated.unknownPolicy : Ungated (unknownPolicy what name choices range) :=
  .of_code rfl (by decide) (by decide)

/-! All marks in a report are good if those are that it is made from. -/

section Marks

variable {good : Mark → Prop} {s : ParserState} {diagnostic : Diagnostic}
  {range second first place opening : SourceRange}

theorem meets_labelled (message code label : String) (hrange : Meets good range) :
    Meets good (((Diagnostic.error range message).withCode code).withLabel label) :=
  Diagnostic.meets_withLabel label (Diagnostic.meets_new .error message hrange)

theorem meets_expected (what : String) {found : Token} (hfound : Meets good found) :
    Meets good (expected what found) := meets_labelled _ _ _ hfound.1

theorem meets_missing (what context : String) {found : Token} (hfound : Meets good found) :
    Meets good (missing what context found) := meets_labelled _ _ _ hfound.1

theorem meets_missingAtLineEnd (what context insertion : String) (hplace : Meets good place) :
    Meets good (missingAtLineEnd what context insertion place) :=
  Diagnostic.meets_withFixIt _ (meets_labelled _ _ _ hplace) hplace

theorem meets_foreignWord (word : ForeignWord) (hrange : Meets good range) :
    Meets good (foreignWord word range) := meets_labelled _ _ _ hrange

theorem meets_danglingDocs (hrange : Meets good range) : Meets good (danglingDocs range) :=
  Diagnostic.meets_new .warning "doc comment does not document anything" hrange

theorem meets_misplacedModuleDoc (hrange : Meets good range) :
    Meets good (misplacedModuleDoc range) :=
  Diagnostic.meets_new .warning "module doc comments are only allowed at the start of a file" hrange

theorem meets_chainedComparison (hsecond : Meets good second) (hfirst : Meets good first) :
    Meets good (chainedComparison second first) :=
  Diagnostic.meets_withSecondary _ (meets_labelled _ _ _ hsecond) hfirst

theorem meets_unclosedBlock {found : Token} (hfound : Meets good found)
    (hopening : Meets good opening) : Meets good (unclosedBlock found opening) :=
  Diagnostic.meets_withSecondary _ (meets_labelled _ _ _ hfound.1) hopening

theorem meets_unattachedPrecondition (hrange : Meets good range) :
    Meets good (unattachedPrecondition range) := meets_labelled _ _ _ hrange

theorem meets_unknownPrecondition (name : String) (hrange : Meets good range) :
    Meets good (unknownPrecondition name range) := meets_labelled _ _ _ hrange

theorem meets_semicolonAfterBlock (hrange : Meets good range) :
    Meets good (semicolonAfterBlock range) :=
  Diagnostic.meets_withFixIt _ (meets_labelled _ _ _ hrange) hrange

theorem meets_misplacedAttribute (hrange : Meets good range) :
    Meets good (misplacedAttribute range) := meets_labelled _ _ _ hrange

theorem meets_unknownAttribute (name : String) (hrange : Meets good range) :
    Meets good (unknownAttribute name range) := meets_labelled _ _ _ hrange

theorem meets_unknownPolicy (what name choices : String) (hrange : Meets good range) :
    Meets good (unknownPolicy what name choices range) := meets_labelled _ _ _ hrange

end Marks

end SyntaxReport

/-! ### Arenas -/

namespace Arena

variable {good : Mark → Prop} {arena later last : Arena}

/-- What the later arena has under a number the earlier one had there too, or else all marks in it
are good. -/
def Adopts (good : Mark → Prop) (arena later : Arena) : Prop :=
  ∀ kind id node, later.node? kind id = some node →
    arena.node? kind id = some node ∨ Meets good node

theorem Adopts.refl (arena : Arena) : arena.Adopts good arena := fun _ _ _ => .inl

theorem Adopts.trans (h : arena.Adopts good later) (hlast : later.Adopts good last) :
    arena.Adopts good last := by
  intro kind id node hnode
  rcases hlast kind id node hnode with hold | hgood
  · exact h kind id node hold
  · exact .inr hgood

theorem adopts_intern (arena : Arena) (text : String) : arena.Adopts good (arena.intern text) := by
  unfold intern
  split
  · exact .refl arena
  · exact fun kind _ _ => by cases kind <;> exact .inl

/-- One number at most has something new under it. -/
theorem adopts_of_lookup (node : SyntaxNode) (hnode : Meets good node)
    (hlookup : ∀ kind id, later.node? kind id = arena.node? kind id ∨
      later.node? kind id = some node) : arena.Adopts good later := by
  intro kind id found hfound
  rcases hlookup kind id with hold | hnew
  · exact .inl (hold ▸ hfound)
  · obtain rfl := Option.some.inj (hnew.symm.trans hfound)
    exact .inr hnode

theorem getElem?_push_or {α β : Type} (items : Array α) (item : α) (f : α → β) (i : Nat) :
    (items.push item)[i]?.map f = items[i]?.map f ∨ (items.push item)[i]?.map f = some (f item) := by
  rw [map_getElem?_push]
  split
  · exact .inr rfl
  · exact .inl rfl

theorem getElem?_setIfInBounds_or {α β : Type} (items : Array α) (place : Nat) (item : α) (f : α → β)
    (i : Nat) : (items.setIfInBounds place item)[i]?.map f = items[i]?.map f ∨
      (items.setIfInBounds place item)[i]?.map f = some (f item) := by
  by_cases hsize : place < items.size
  · rw [map_getElem?_setIfInBounds hsize]
    split
    · exact .inr rfl
    · exact .inl rfl
  · rw [Array.setIfInBounds_eq_of_size_le (Nat.not_lt.mp hsize)]
    exact .inl rfl

theorem adopts_addExpr {range : SourceRange} {build : Origin → Expr}
    (hexpr : Meets good (arena.addExpr range build).1) :
    arena.Adopts good (arena.addExpr range build).2 := by
  refine adopts_of_lookup (.expr (arena.addExpr range build).1) hexpr fun kind id => ?_
  cases kind with
  | expr => exact getElem?_push_or arena.exprs _ SyntaxNode.expr id
  | _ => exact .inl rfl

theorem adopts_addType {range : SourceRange} {build : Origin → TypeExpr}
    (htype : Meets good (arena.addType range build).1) :
    arena.Adopts good (arena.addType range build).2 := by
  refine adopts_of_lookup (.type (arena.addType range build).1) htype fun kind id => ?_
  cases kind with
  | type => exact getElem?_push_or arena.types _ SyntaxNode.type id
  | _ => exact .inl rfl

theorem adopts_addStmt {range : SourceRange} {build : Origin → Stmt}
    (hstmt : Meets good (arena.addStmt range build).1) :
    arena.Adopts good (arena.addStmt range build).2 := by
  refine adopts_of_lookup (.stmt (arena.addStmt range build).1) hstmt fun kind id => ?_
  cases kind with
  | stmt => exact getElem?_push_or arena.stmts _ SyntaxNode.stmt id
  | _ => exact .inl rfl

theorem adopts_addDecl {range : SourceRange} {build : Origin → Decl}
    (hdecl : Meets good (arena.addDecl range build).1) :
    arena.Adopts good (arena.addDecl range build).2 := by
  refine adopts_of_lookup (.decl (arena.addDecl range build).1) hdecl fun kind id => ?_
  cases kind with
  | decl => exact getElem?_push_or arena.decls _ SyntaxNode.decl id
  | _ => exact .inl rfl

theorem adopts_widenExpr {expr : Expr} {range : SourceRange}
    (hwider : Meets good (expr.withRange range)) :
    arena.Adopts good (arena.widenExpr expr range).2 := by
  refine adopts_of_lookup (.expr (expr.withRange range)) hwider fun kind id => ?_
  cases kind with
  | expr => exact getElem?_setIfInBounds_or arena.exprs expr.id _ SyntaxNode.expr id
  | _ => exact .inl rfl

end Arena

/-! ### Skipping -/

namespace ParserState

/-- The end of the file is not among the next tokens. -/
def Passes (s : ParserState) (count : Nat) : Prop :=
  ∀ token ∈ s.rest.take count, token.isEndOfFile = false

theorem passes_of_stops {count : List Token → Nat} (hstops : Skip.Stops count) (s : ParserState) :
    s.Passes (count s.rest) := by
  intro token htoken
  obtain ⟨before, after, hsplit⟩ := List.append_of_mem htoken
  have hrest : s.rest = before ++ token :: (after ++ s.rest.drop (count s.rest)) := by
    rw [← List.cons_append, ← List.append_assoc, ← hsplit, List.take_append_drop]
  by_contra hend
  have hle := hstops before (after ++ s.rest.drop (count s.rest)) token (by simpa using hend)
  rw [← hrest] at hle
  have hlength := congrArg List.length hsplit
  rw [List.length_append, List.length_cons, List.length_take] at hlength
  omega

theorem passes_one {s : ParserState} (hcurrent : s.current.isEndOfFile = false) : s.Passes 1 := by
  intro token htoken
  cases hrest : s.rest with
  | nil => simp [hrest] at htoken
  | cons first rest =>
      have hfirst : s.current = first := by simp [current, tokenAt, hrest]
      rw [hrest, List.take_succ_cons, List.take_zero, List.mem_singleton] at htoken
      rw [htoken, ← hfirst]
      exact hcurrent

end ParserState

/-! ### Invariants -/

namespace Parser

open SyntaxReport

/-- What holds of all states of a run, and of all marks in what its parsers return: with the reasons
why the marks that are made are good and no change of the state breaks it. -/
structure Invariant where
  state : ParserState → Prop
  good : Mark → Prop
  token : ∀ {s : ParserState}, state s → ∀ count, Meets good (s.tokenAt count)
  merge : ∀ {left right : SourceRange}, Meets good left → Meets good right →
    Meets good (left.merge right)
  since : ∀ {s : ParserState} {start : SourceRange}, state s → Meets good start →
    Meets good (s.rangeSince start)
  here : ∀ {s : ParserState}, state s →
    Meets good (SourceRange.emptyAt s.file s.current.range.start)
  behind : ∀ {s : ParserState}, state s →
    Meets good (SourceRange.emptyAt s.file s.lastRange.stop)
  whole : ∀ {s : ParserState}, state s →
    Meets good (⟨s.file, 0, s.current.range.stop⟩ : SourceRange)
  skip : ∀ {s : ParserState} {count : Nat}, state s → s.Passes count → state (s.skip count)
  report : ∀ {s : ParserState} {diagnostic : Diagnostic}, state s → Ungated diagnostic →
    Meets good diagnostic → state (s.report diagnostic)
  reportOnce : ∀ {s : ParserState} {diagnostic : Diagnostic}, state s → Gated s diagnostic →
    Meets good diagnostic → state (s.reportOnce diagnostic)
  withArena : ∀ {s : ParserState} {later : Arena}, state s → s.arena.Adopts good later →
    state { s with arena := later }

variable {α β : Type} [Marked α] [Marked β] {inv : Invariant} {p : Parser α} {f : α → Parser β}

/-- In states that meet the invariant the parser returns what meets it and leaves a state that
does. -/
def Respects (inv : Invariant) (p : Parser α) : Prop :=
  ∀ s, inv.state s → Meets inv.good (p s).1 ∧ inv.state (p s).2

theorem Respects.pure {a : α} (ha : Meets inv.good a) : Respects inv (Pure.pure a : Parser α) :=
  fun _ hs => ⟨ha, hs⟩

theorem Respects.bind (hp : Respects inv p)
    (hf : ∀ a, Meets inv.good a → Respects inv (f a)) : Respects inv (p >>= f) := by
  intro s hs
  obtain ⟨ha, hnext⟩ := hp s hs
  exact hf (p s).1 ha (p s).2 hnext

theorem Respects.map {g : α → β} (hp : Respects inv p)
    (hg : ∀ a, Meets inv.good a → Meets inv.good (g a)) : Respects inv (g <$> p) :=
  Respects.bind (f := fun a => Pure.pure (g a)) hp fun a ha => .pure (hg a ha)

theorem Respects.mapSome (hp : Respects inv p) : Respects inv (Option.some <$> p) :=
  hp.map fun _ => Meets.some

/-- What is read off the state and does not change it. -/
theorem Respects.read {value : ParserState → α}
    (hvalue : ∀ s, inv.state s → Meets inv.good (value s)) :
    Respects inv fun state => (value state, state) :=
  fun s hs => ⟨hvalue s hs, hs⟩

theorem Respects.peek : Respects inv peek := .read fun _ hs => inv.token hs 0

/-- A parser that looks at the current token, where what follows depends on its being current. -/
theorem Respects.peekHere {f : Token → Parser β} (hf : ∀ s, inv.state s →
      Meets inv.good (f s.current s).1 ∧ inv.state (f s.current s).2) :
    Respects inv (Parser.peek >>= f) :=
  hf

theorem Respects.peekSecond : Respects inv peekSecond := .read fun _ hs => inv.token hs 1

theorem Respects.rangeSince {start : SourceRange} (hstart : Meets inv.good start) :
    Respects inv (rangeSince start) :=
  .read fun _ hs => inv.since hs hstart

theorem Respects.emptyHere : Respects inv emptyHere := .read fun _ hs => inv.here hs

theorem Respects.atPunctuation (mark : Punctuation) : Respects inv (atPunctuation mark) :=
  .read fun _ _ => trivial

theorem Respects.atEnd : Respects inv atEnd := .read fun _ _ => trivial

theorem Respects.listBreaksOff (inBody : Bool) : Respects inv (listBreaksOff inBody) :=
  .read fun _ _ => trivial

/-! ### Moving on -/

theorem Respects.skip {count : List Token → Nat} (hstops : Skip.Stops count) :
    Respects inv (skip count) :=
  fun s hs => ⟨trivial, inv.skip hs (s.passes_of_stops hstops)⟩

theorem Respects.advance : Respects inv advance := by
  intro s hs
  refine ⟨inv.token hs 0, ?_⟩
  unfold Parser.advance
  dsimp only
  split
  · exact hs
  · rename_i hend
    exact inv.skip hs (ParserState.passes_one (by simpa using hend))

/-- The parser consumes a token before anything else, and behind that token it respects the
invariant. -/
def Begins (inv : Invariant) (p : Parser α) : Prop :=
  ∀ s, Meets inv.good s.current → inv.state (Parser.advance s).2 →
    Meets inv.good (p s).1 ∧ inv.state (p s).2

theorem Begins.respects (hp : Begins inv p) : Respects inv p :=
  fun s hs => hp s (inv.token hs 0) (Respects.advance s hs).2

theorem Begins.advance {f : Token → Parser β}
    (hf : ∀ token, Meets inv.good token → Respects inv (f token)) :
    Begins inv (Parser.advance >>= f) :=
  fun s htoken hbehind => hf s.current htoken (Parser.advance s).2 hbehind

theorem Begins.peek {f : Token → Parser β}
    (hf : ∀ token, Meets inv.good token → Begins inv (f token)) : Begins inv (Parser.peek >>= f) :=
  fun s htoken hbehind => hf s.current htoken s htoken hbehind

theorem Begins.bind (hp : Begins inv p) (hf : ∀ a, Meets inv.good a → Respects inv (f a)) :
    Begins inv (p >>= f) := by
  intro s htoken hbehind
  obtain ⟨ha, hnext⟩ := hp s htoken hbehind
  exact hf (p s).1 ha (p s).2 hnext

theorem Respects.accept (test : Token → Bool) : Respects inv (accept test) := by
  refine .bind .peek fun token _ => ?_
  split
  · exact .bind .advance fun _ _ => .pure trivial
  · exact .pure trivial

theorem Respects.acceptPunctuation (mark : Punctuation) : Respects inv (acceptPunctuation mark) :=
  .accept _

theorem Respects.acceptOperator (op : Operator) : Respects inv (acceptOperator op) := .accept _

/-! ### Reports -/

theorem Respects.report {diagnostic : Diagnostic} (hungated : Ungated diagnostic)
    (hmeets : Meets inv.good diagnostic) : Respects inv (report diagnostic) :=
  fun _ hs => ⟨trivial, inv.report hs hungated hmeets⟩

theorem Respects.expected (what : String) : Respects inv (expected what) :=
  fun _ hs => ⟨trivial, inv.reportOnce hs (.expected what) (meets_expected what (inv.token hs 0))⟩

theorem Respects.expectedWithHelp (what help : String) : Respects inv (expectedWithHelp what help) :=
  fun _ hs => ⟨trivial,
    inv.reportOnce hs (.expectedWithHelp what help) (meets_expected what (inv.token hs 0))⟩

theorem Respects.missing (what context : String) (insertion : Option String) :
    Respects inv (missing what context insertion) := by
  intro s hs
  unfold Parser.missing
  dsimp only
  split
  · exact ⟨trivial, inv.reportOnce hs (.missingAtLineEnd what context _)
      (meets_missingAtLineEnd what context _ (inv.behind hs))⟩
  · exact ⟨trivial, inv.reportOnce hs (.missing what context)
      (meets_missing what context (inv.token hs 0))⟩

theorem Respects.danglingDocs {range : Option SourceRange} (hrange : Meets inv.good range) :
    Respects inv (danglingDocs range) := by
  cases range with
  | none => exact .pure trivial
  | some range =>
      exact .report (.danglingDocs range) (meets_danglingDocs hrange.of_some)

/-! ### Making nodes -/

theorem Respects.intern (text : String) : Respects inv (intern text) :=
  fun s hs => ⟨trivial, inv.withArena hs (s.arena.adopts_intern text)⟩

theorem Respects.nameOf {token : Token} (htoken : Meets inv.good token) :
    Respects inv (nameOf token) :=
  .bind (.intern _) fun _ _ => .pure htoken

section

variable {range : SourceRange} (hrange : Meets inv.good range)
include hrange

theorem Respects.newExpr {build : Origin → Expr} (hbuild : Meets inv.good build) :
    Respects inv (newExpr range build) := by
  intro s hs
  have hexpr : Meets inv.good (s.arena.addExpr range build).1 := hbuild _ hrange
  exact ⟨hexpr, inv.withArena hs (Arena.adopts_addExpr hexpr)⟩

theorem Respects.newType {build : Origin → TypeExpr} (hbuild : Meets inv.good build) :
    Respects inv (newType range build) := by
  intro s hs
  have htype : Meets inv.good (s.arena.addType range build).1 := hbuild _ hrange
  exact ⟨htype, inv.withArena hs (Arena.adopts_addType htype)⟩

theorem Respects.newStmt {build : Origin → Stmt} (hbuild : Meets inv.good build) :
    Respects inv (newStmt range build) := by
  intro s hs
  have hstmt : Meets inv.good (s.arena.addStmt range build).1 := hbuild _ hrange
  exact ⟨hstmt, inv.withArena hs (Arena.adopts_addStmt hstmt)⟩

theorem Respects.newDecl {build : Origin → Decl} (hbuild : Meets inv.good build) :
    Respects inv (newDecl range build) := by
  intro s hs
  have hdecl : Meets inv.good (s.arena.addDecl range build).1 := hbuild _ hrange
  exact ⟨hdecl, inv.withArena hs (Arena.adopts_addDecl hdecl)⟩

theorem Respects.widenExpr {expr : Expr} (hexpr : Meets inv.good expr) :
    Respects inv (widenExpr expr range) := by
  intro s hs
  have hwider := Expr.meets_withRange hexpr hrange
  exact ⟨hwider, inv.withArena hs (Arena.adopts_widenExpr hwider)⟩

end

theorem Respects.missingExpr : Respects inv missingExpr :=
  .bind .emptyHere fun _ hrange => .newExpr hrange fun _ horigin => horigin

theorem Respects.missingType : Respects inv missingType :=
  .bind .emptyHere fun _ hrange => .newType hrange fun _ horigin => horigin

/-! ### Loops -/

theorem Respects.iterate {body : α → Parser (Turn α)}
    (hbody : ∀ value, Meets inv.good value → Respects inv (body value)) {value : α}
    (hvalue : Meets inv.good value) : Respects inv (iterate body value) := by
  have halong : ∀ (turns : List Token) (value : α), Meets inv.good value →
      Respects inv (iterateAlong body turns value) := by
    intro turns
    induction turns with
    | nil =>
        intro value hvalue
        refine .bind (hbody value hvalue) fun turn hturn => ?_
        cases turn with
        | again last => exact .pure hturn
        | done last => exact .pure hturn
    | cons token turns ih =>
        intro value hvalue
        refine .bind (hbody value hvalue) fun turn hturn => ?_
        cases turn with
        | again next => exact ih next hturn
        | done last => exact .pure hturn
  exact fun s hs => halong s.rest value hvalue s hs

omit [Marked α] in
theorem orStepOver_apply (p : Parser α) (exempt : Token → Bool) (s : ParserState) :
    orStepOver p exempt s =
      if (p s).2.position = s.position ∧ !exempt (p s).2.current then
        (p >>= fun value => advance >>= fun _ => Pure.pure value) s
      else p s := rfl

theorem Respects.orStepOver {exempt : Token → Bool} (hp : Respects inv p) :
    Respects inv (orStepOver p exempt) := by
  have hsteps : Respects inv (p >>= fun value => Parser.advance >>= fun _ => Pure.pure value) :=
    .bind hp fun _ hvalue => .bind .advance fun _ _ => .pure hvalue
  intro s hs
  rw [orStepOver_apply]
  split
  · exact hsteps s hs
  · exact hp s hs

/-! ### Recovery -/

theorem Respects.synchronize (set : RecoverySet) : Respects inv (synchronize set) :=
  .skip (Skip.stops_untilStop set)

theorem Respects.expectPunctuation (mark : Punctuation) (context : String) (set : RecoverySet) :
    Respects inv (expectPunctuation mark context set) := by
  refine .bind (.acceptPunctuation mark) fun accepted _ => ?_
  split
  · exact .pure trivial
  · refine .bind (.missing _ _ _) fun recovery _ => ?_
    cases recovery with
    | insert => exact .pure trivial
    | skip => exact .bind (.synchronize set) fun _ _ => .acceptPunctuation mark

theorem Respects.expectSemi (context : String) (set : RecoverySet) :
    Respects inv (expectSemi context set) := by
  refine .bind (.acceptPunctuation .semi) fun accepted _ => ?_
  split
  · exact .pure trivial
  · refine .bind (.missing _ _ _) fun recovery _ => ?_
    cases recovery with
    | insert => exact .pure trivial
    | skip =>
        refine .bind (.synchronize set) fun _ _ => ?_
        exact .bind (.acceptPunctuation .semi) fun _ _ => .pure trivial

theorem Respects.expectOperator (op : Operator) (context : String) (set : RecoverySet) :
    Respects inv (expectOperator op context set) := by
  refine .bind (.acceptOperator op) fun accepted _ => ?_
  split
  · exact .pure trivial
  · refine .bind (.missing _ _ _) fun _ _ => ?_
    exact .bind (.synchronize set) fun _ _ => .acceptOperator op

/-- A reserved word that is taken as a name is a token like any other. -/
theorem Respects.expectName (what : String) (set : RecoverySet) :
    Respects inv (expectName what set) := by
  have htaken : ∀ {token : Token}, Meets inv.good token → Respects inv (do
      let _ ← Parser.advance
      return some (← Parser.nameOf token)) :=
    fun htoken => .bind .advance fun _ _ => .bind (.nameOf htoken) fun _ hname => .pure (.some hname)
  refine .bind .peek fun found hfound => ?_
  split
  · exact htaken hfound
  · split
    · refine .bind (.expectedWithHelp _ _) fun _ _ => ?_
      split
      · exact .bind (.synchronize set) fun _ _ => .pure .none
      · exact htaken hfound
    · exact .bind (.expected _) fun _ _ => .bind (.synchronize set) fun _ _ => .pure .none

theorem Respects.unclosedList (context : String) : Respects inv (unclosedList context) :=
  .bind (.missing _ _ _) fun _ _ => .pure trivial

theorem Respects.foreignPart (shape : ForeignShape) (value : Unit) :
    Respects inv (foreignPart shape value) := by
  refine .bind (.skip Skip.stops_header) fun _ _ => .bind (.atPunctuation _) fun opens _ => ?_
  split
  · refine .bind (.skip Skip.stops_block) fun _ _ => .bind .peek fun next _ => ?_
    split
    · exact .bind .advance fun _ _ => .pure trivial
    · exact .pure trivial
  · exact .bind (.acceptPunctuation _) fun _ _ => .pure trivial

/-- The foreign word is the current token. -/
theorem Respects.skipForeign (word : ForeignWord) : Respects inv (skipForeign word) := by
  have hreport : Respects inv (do
      Parser.reportOnce (SyntaxReport.foreignWord word (← Parser.peek).range)) :=
    fun _ hs => ⟨trivial,
      inv.reportOnce hs (.foreignWord word) (meets_foreignWord word (inv.token hs 0).1)⟩
  have hrest : Respects inv (do
      let _ ← Parser.advance
      Parser.iterate (Parser.foreignPart word.shape) ()) :=
    .bind .advance fun _ _ => .iterate (fun value _ => .foreignPart word.shape value) trivial
  exact hreport.bind fun _ _ => hrest

end Parser

end BehaviorTree
