import BehaviorTree.Parsing.Recovery
import BehaviorTree.Proofs.Parsing.Words

/-!
# Accepted tokens

A parser accepts terminals in front of others if from every state where they come it consumes just
them, reports nothing and returns a good value. Nothing else is asked of the state: neither the
places of the tokens nor what was parsed before them matter. The tokens stand on one line, so that
no list is taken to break off.

Loops are followed turn by turn. `Leads` says that a run has got to some turn of a loop, which is
what a left-recursive rule of the grammar extends.
-/

namespace BehaviorTree

/-- The next terminal. Behind the last one the end of the file is seen. -/
def front (us : List Terminal) : Terminal := us.head?.getD (.of .endOfFile)

@[simp]
theorem front_cons (t : Terminal) (us : List Terminal) : front (t :: us) = t := rfl

namespace ParserState

/-- Behind the tokens the file ends, and no token starts a line. -/
structure Level (state : ParserState) : Prop where
  final : state.final.isEndOfFile = true
  lastLine : state.final.newlineBefore = false
  lines : ∀ token ∈ state.rest, token.newlineBefore = false

variable {state state' state'' : ParserState}

theorem terminal_tokenAt (hlevel : state.Level) (count : Nat) :
    (state.tokenAt count).terminal = front ((state.rest.map Token.terminal).drop count) := by
  have hfinal : state.final.terminal = .of .endOfFile :=
    Token.terminal_eq_of (by simpa [Token.isEndOfFile] using hlevel.final) (by simp)
  unfold tokenAt front
  rw [List.head?_drop, List.getElem?_map]
  cases state.rest[count]? with
  | none => exact hfinal
  | some token => rfl

theorem Level.newlineBefore_current (hlevel : state.Level) :
    state.current.newlineBefore = false := by
  unfold current tokenAt
  cases hrest : state.rest with
  | nil => exact hlevel.lastLine
  | cons token rest => exact hlevel.lines token (by simp [hrest])

/-- From one state to another nothing was reported and just enough was consumed for the given
terminals to come. -/
structure Reached (state : ParserState) (us : List Terminal) (state' : ParserState) : Prop where
  coming : state'.rest.map Token.terminal = us
  level : state'.Level
  diagnostics : state'.diagnostics = state.diagnostics
  position : state'.position + state'.rest.length = state.position + state.rest.length

theorem Reached.trans {us vs : List Terminal} (hfirst : Reached state us state')
    (hsecond : Reached state' vs state'') : Reached state vs state'' where
  coming := hsecond.coming
  level := hsecond.level
  diagnostics := hsecond.diagnostics.trans hfirst.diagnostics
  position := hsecond.position.trans hfirst.position

end ParserState

namespace Parser

open ParserState

variable {α β : Type}

/-- The parser reads the terminals `ts` in front of `us`, reports nothing and returns a good
value. -/
def Accepts (p : Parser α) (ts us : List Terminal) (good : α → Prop) : Prop :=
  ∀ s : ParserState, s.Level → s.rest.map Token.terminal = ts ++ us →
    good (p s).1 ∧ Reached s us (p s).2

variable {p : Parser α} {f : α → Parser β} {ts us vs : List Terminal} {t : Terminal}
  {good good' : α → Prop} {goal : β → Prop}

theorem Accepts.mono (hp : Accepts p ts us good) (himp : ∀ a, good a → good' a) :
    Accepts p ts us good' := by
  intro s hlevel hcoming
  obtain ⟨hgood, hreached⟩ := hp s hlevel hcoming
  exact ⟨himp _ hgood, hreached⟩

theorem Accepts.pure {a : α} (h : good a) : Accepts (pure a) [] us good :=
  fun _ hlevel hcoming => ⟨h, hcoming, hlevel, rfl, rfl⟩

theorem Accepts.of_bind_pure (h : Accepts (p >>= Pure.pure) ts us good) : Accepts p ts us good := h

theorem Accepts.pure_bind {a : α} (hf : Accepts (f a) ts us goal) :
    Accepts (Pure.pure a >>= f) ts us goal := hf

theorem Accepts.bind (hp : Accepts p ts (us ++ vs) good)
    (hf : ∀ a, good a → Accepts (f a) us vs goal) : Accepts (p >>= f) (ts ++ us) vs goal := by
  intro s hlevel hcoming
  obtain ⟨hgood, hfirst⟩ := hp s hlevel (by rw [hcoming, List.append_assoc])
  obtain ⟨hgoal, hsecond⟩ := hf _ hgood _ hfirst.level hfirst.coming
  exact ⟨hgoal, hfirst.trans hsecond⟩

theorem Accepts.bind_nil (hp : Accepts p ts us good)
    (hf : ∀ a, good a → Accepts (f a) [] us goal) : Accepts (p >>= f) ts us goal := by
  rw [← List.append_nil ts]
  exact Accepts.bind hp hf

/-- A first step that consumes nothing. -/
theorem Accepts.bind_nil_left (hp : Accepts p [] (ts ++ us) good)
    (hf : ∀ a, good a → Accepts (f a) ts us goal) : Accepts (p >>= f) ts us goal :=
  Accepts.bind hp hf

theorem Accepts.map {g : α → β} (hp : Accepts p ts us good) (hg : ∀ a, good a → goal (g a)) :
    Accepts (g <$> p) ts us goal := by
  intro s hlevel hcoming
  obtain ⟨hgood, hreached⟩ := hp s hlevel hcoming
  exact ⟨hg _ hgood, hreached⟩

/-! ### Elementary parsers -/

/-- A step that changes neither the tokens nor the reports. -/
theorem Accepts.still (hstill : ∀ s : ParserState, (p s).2.rest = s.rest ∧ (p s).2.final = s.final ∧
      (p s).2.position = s.position ∧ (p s).2.diagnostics = s.diagnostics)
    (hf : ∀ s : ParserState, Accepts (f (p s).1) ts us goal) : Accepts (p >>= f) ts us goal := by
  intro s hlevel hcoming
  obtain ⟨hrest, hfinal, hposition, hdiagnostics⟩ := hstill s
  have hlevel' : (p s).2.Level :=
    ⟨hfinal ▸ hlevel.final, hfinal ▸ hlevel.lastLine, hrest ▸ hlevel.lines⟩
  obtain ⟨hgoal, hreached⟩ := hf s (p s).2 hlevel' (hrest ▸ hcoming)
  refine ⟨hgoal, hreached.coming, hreached.level, hreached.diagnostics.trans hdiagnostics, ?_⟩
  rw [← hposition, ← hrest]
  exact hreached.position

theorem Accepts.peek {f : Token → Parser β}
    (hf : ∀ token : Token, token.terminal = front (ts ++ us) → Accepts (f token) ts us goal) :
    Accepts (peek >>= f) ts us goal := by
  intro s hlevel hcoming
  refine hf s.current ?_ s hlevel hcoming
  rw [← hcoming]
  exact terminal_tokenAt hlevel 0

theorem Accepts.peekSecond {f : Token → Parser β}
    (hf : ∀ token : Token, token.terminal = front ((ts ++ us).drop 1) → Accepts (f token) ts us goal) :
    Accepts (peekSecond >>= f) ts us goal := by
  intro s hlevel hcoming
  refine hf (s.tokenAt 1) ?_ s hlevel hcoming
  rw [← hcoming]
  exact terminal_tokenAt hlevel 1

theorem Accepts.atPunctuation {mark : Punctuation} {f : Bool → Parser β}
    (hf : Accepts (f ((front (ts ++ us)).kind == .punctuation mark)) ts us goal) :
    Accepts (atPunctuation mark >>= f) ts us goal := by
  refine Accepts.peek (f := fun token => f (token.isPunctuation mark)) fun token htoken => ?_
  rw [Token.isPunctuation, Token.kind_of_terminal htoken]
  exact hf

theorem Accepts.atEnd {f : Bool → Parser β}
    (hf : Accepts (f ((front (ts ++ us)).kind == .endOfFile)) ts us goal) :
    Accepts (atEnd >>= f) ts us goal := by
  refine Accepts.peek (f := fun token => f token.isEndOfFile) fun token htoken => ?_
  rw [Token.isEndOfFile, Token.kind_of_terminal htoken]
  exact hf

theorem Accepts.rangeSince {start : SourceRange} {f : SourceRange → Parser β}
    (hf : ∀ range, Accepts (f range) ts us goal) : Accepts (rangeSince start >>= f) ts us goal :=
  Accepts.still (fun _ => ⟨rfl, rfl, rfl, rfl⟩) fun _ => hf _

theorem Accepts.intern {text : String} {f : Unit → Parser β} (hf : Accepts (f ()) ts us goal) :
    Accepts (intern text >>= f) ts us goal :=
  Accepts.still (fun _ => ⟨rfl, rfl, rfl, rfl⟩) fun _ => hf

theorem Accepts.nameOf {token : Token} {f : Name → Parser β}
    (hf : Accepts (f ⟨token.text, token.range⟩) ts us goal) :
    Accepts (nameOf token >>= f) ts us goal :=
  Accepts.still (fun _ => ⟨rfl, rfl, rfl, rfl⟩) fun _ => hf

theorem Accepts.newExpr {range : SourceRange} {build : Origin → Expr} {f : Expr → Parser β}
    (hf : ∀ origin, Accepts (f (build origin)) ts us goal) :
    Accepts (newExpr range build >>= f) ts us goal :=
  Accepts.still (fun _ => ⟨rfl, rfl, rfl, rfl⟩) fun _ => hf _

theorem Accepts.newType {range : SourceRange} {build : Origin → TypeExpr} {f : TypeExpr → Parser β}
    (hf : ∀ origin, Accepts (f (build origin)) ts us goal) :
    Accepts (newType range build >>= f) ts us goal :=
  Accepts.still (fun _ => ⟨rfl, rfl, rfl, rfl⟩) fun _ => hf _

theorem Accepts.newStmt {range : SourceRange} {build : Origin → Stmt} {f : Stmt → Parser β}
    (hf : ∀ origin, Accepts (f (build origin)) ts us goal) :
    Accepts (newStmt range build >>= f) ts us goal :=
  Accepts.still (fun _ => ⟨rfl, rfl, rfl, rfl⟩) fun _ => hf _

theorem Accepts.newDecl {range : SourceRange} {build : Origin → Decl} {f : Decl → Parser β}
    (hf : ∀ origin, Accepts (f (build origin)) ts us goal) :
    Accepts (newDecl range build >>= f) ts us goal :=
  Accepts.still (fun _ => ⟨rfl, rfl, rfl, rfl⟩) fun _ => hf _

theorem Accepts.widenExpr {expr : Expr} {range : SourceRange} {f : Expr → Parser β}
    (hf : Accepts (f (expr.withRange range)) ts us goal) :
    Accepts (widenExpr expr range >>= f) ts us goal :=
  Accepts.still (fun _ => ⟨rfl, rfl, rfl, rfl⟩) fun _ => hf

theorem Accepts.advance {f : Token → Parser β} (hend : t.kind ≠ .endOfFile)
    (hf : ∀ token : Token, token.terminal = t → Accepts (f token) ts us goal) :
    Accepts (advance >>= f) (t :: ts) us goal := by
  intro s hlevel hcoming
  cases hrest : s.rest with
  | nil => simp [hrest] at hcoming
  | cons token rest =>
      obtain ⟨htoken, hcoming'⟩ : token.terminal = t ∧ rest.map Token.terminal = ts ++ us := by
        simpa [hrest] using hcoming
      have hcurrent : s.current = token := by simp [ParserState.current, tokenAt, hrest]
      have hgoes : s.current.isEndOfFile = false := by
        rw [hcurrent, Token.isEndOfFile, Token.kind_of_terminal htoken]
        simpa using hend
      have hrun : (Parser.advance >>= f) s = f token (s.skip 1) := by
        change f s.current (if s.current.isEndOfFile then s else s.skip 1) = _
        rw [hgoes, hcurrent]
        rfl
      have hskipped : (s.skip 1).rest = rest := by simp [ParserState.skip, hrest]
      have hlevel' : (s.skip 1).Level :=
        ⟨hlevel.final, hlevel.lastLine, fun other hother =>
          hlevel.lines other (List.mem_of_mem_drop hother)⟩
      obtain ⟨hgoal, hreached⟩ := hf token htoken (s.skip 1) hlevel' (hskipped ▸ hcoming')
      rw [hrun]
      refine ⟨hgoal, hreached.coming, hreached.level, hreached.diagnostics, ?_⟩
      have hposition := hreached.position
      have hstep : (s.skip 1).position = s.position + 1 := rfl
      rw [hskipped] at hposition
      rw [hrest, List.length_cons]
      omega

theorem Accepts.accept_yes {test : Token → Bool} {f : Bool → Parser β}
    (hend : t.kind ≠ .endOfFile) (htest : ∀ token : Token, token.terminal = t → test token = true)
    (hf : Accepts (f true) ts us goal) : Accepts (accept test >>= f) (t :: ts) us goal := by
  refine Accepts.peek (f := fun token => (if test token then (do
    let _ ← Parser.advance
    Pure.pure true) else Pure.pure false) >>= f) fun token htoken => ?_
  rw [htest token htoken]
  exact Accepts.advance hend fun _ _ => hf

theorem Accepts.accept_no {test : Token → Bool} {f : Bool → Parser β}
    (htest : ∀ token : Token, token.terminal = front (ts ++ us) → test token = false)
    (hf : Accepts (f false) ts us goal) : Accepts (accept test >>= f) ts us goal := by
  refine Accepts.peek (f := fun token => (if test token then (do
    let _ ← Parser.advance
    Pure.pure true) else Pure.pure false) >>= f) fun token htoken => ?_
  rw [htest token htoken]
  exact hf

theorem Accepts.punctuation {mark : Punctuation} {f : Bool → Parser β}
    (hf : Accepts (f true) ts us goal) :
    Accepts (acceptPunctuation mark >>= f) (.mark mark :: ts) us goal := by
  refine Accepts.accept_yes (by simp [Terminal.mark, Terminal.of]) (fun token htoken => ?_) hf
  simp [Token.isPunctuation, Token.kind_of_terminal htoken, Terminal.mark, Terminal.of]

theorem Accepts.noPunctuation {mark : Punctuation} {f : Bool → Parser β}
    (hfront : (front (ts ++ us)).kind ≠ .punctuation mark) (hf : Accepts (f false) ts us goal) :
    Accepts (acceptPunctuation mark >>= f) ts us goal := by
  refine Accepts.accept_no (fun token htoken => ?_) hf
  simpa [Token.isPunctuation, Token.kind_of_terminal htoken] using hfront

theorem Accepts.operator {op : Operator} {f : Bool → Parser β} (hf : Accepts (f true) ts us goal) :
    Accepts (acceptOperator op >>= f) (.op op :: ts) us goal := by
  refine Accepts.accept_yes (by simp [Terminal.op, Terminal.of]) (fun token htoken => ?_) hf
  simp [Token.isOperator, Token.kind_of_terminal htoken, Terminal.op, Terminal.of]

theorem Accepts.noOperator {op : Operator} {f : Bool → Parser β}
    (hfront : (front (ts ++ us)).kind ≠ .operator op) (hf : Accepts (f false) ts us goal) :
    Accepts (acceptOperator op >>= f) ts us goal := by
  refine Accepts.accept_no (fun token htoken => ?_) hf
  simpa [Token.isOperator, Token.kind_of_terminal htoken] using hfront

/-! ### Demands -/

theorem Accepts.expectPunctuation {mark : Punctuation} {context : String} {set : RecoverySet} :
    Accepts (expectPunctuation mark context set) [.mark mark] us (· = true) := by
  unfold Parser.expectPunctuation
  exact Accepts.punctuation (Accepts.pure rfl)

theorem Accepts.expectSemi {context : String} {set : RecoverySet} :
    Accepts (expectSemi context set) [.mark .semi] us fun _ => True := by
  unfold Parser.expectSemi
  exact Accepts.punctuation (Accepts.pure trivial)

theorem Accepts.expectOperator {op : Operator} {context : String} {set : RecoverySet} :
    Accepts (expectOperator op context set) [.op op] us (· = true) := by
  unfold Parser.expectOperator
  exact Accepts.operator (Accepts.pure rfl)

theorem Accepts.expectName {what text : String} {set : RecoverySet} :
    Accepts (expectName what set) [.name text] us fun found =>
      ∃ name, found = some name ∧ name.text = text := by
  unfold Parser.expectName
  refine Accepts.peek fun token htoken => ?_
  have hkind : token.isIdentifier = true := by
    simp [Token.isIdentifier, Token.kind_of_terminal htoken, Terminal.name]
  rw [if_pos hkind]
  refine Accepts.advance (by simp [Terminal.name]) fun _ _ => ?_
  exact Accepts.nameOf (Accepts.pure ⟨_, rfl, Token.text_of_terminal htoken⟩)

/-! ### Loops -/

/-- Along the terminals the parser gets to a turn of a loop with a good value. -/
def Leads (body : α → Parser (Turn α)) (p : Parser α) (ts us : List Terminal) (good : α → Prop) :
    Prop :=
  ∀ s : ParserState, s.Level → s.rest.map Token.terminal = ts ++ us →
    ∃ turns v s', p s = iterateAlong body turns v s' ∧ us.length ≤ turns.length ∧ good v ∧
      Reached s us s'

variable {body : α → Parser (Turn α)}

theorem Leads.start (hp : Accepts p ts us good) : Leads body (p >>= iterate body) ts us good := by
  intro s hlevel hcoming
  obtain ⟨hgood, hreached⟩ := hp s hlevel hcoming
  refine ⟨(p s).2.rest, (p s).1, (p s).2, rfl, ?_, hgood, hreached⟩
  exact Nat.le_of_eq (by rw [← hreached.coming, List.length_map])

theorem Leads.iterate {v : α} (hgood : good v) : Leads body (iterate body v) [] us good := by
  intro s hlevel hcoming
  refine ⟨s.rest, v, s, rfl, ?_, hgood, hcoming, hlevel, rfl, rfl⟩
  have hlength := congrArg List.length hcoming
  simp only [List.length_map, List.nil_append] at hlength
  omega

/-- One more turn of a loop. -/
theorem Leads.turn (hp : Leads body p ts (us ++ vs) good) (hus : us ≠ [])
    (hbody : ∀ v, good v → Accepts (body v) us vs fun result => ∃ w, result = .again w ∧ good' w) :
    Leads body p (ts ++ us) vs good' := by
  intro s hlevel hcoming
  obtain ⟨turns, v, s₁, hrun, hturns, hgood, hfirst⟩ :=
    hp s hlevel (by rw [hcoming, List.append_assoc])
  obtain ⟨⟨w, hresult, hgood'⟩, hsecond⟩ := hbody v hgood s₁ hfirst.level hfirst.coming
  cases turns with
  | nil =>
      have hpositive := List.length_pos_iff.mpr hus
      rw [List.length_append, List.length_nil] at hturns
      omega
  | cons token turns =>
      refine ⟨turns, w, (body v s₁).2, ?_, ?_, hgood', hfirst.trans hsecond⟩
      · rw [hrun, Parser.iterateAlong_cons, hresult, Parser.Turn.goOn]
      · have hpositive := List.length_pos_iff.mpr hus
        rw [List.length_append, List.length_cons] at hturns
        omega

/-- The last turn of a loop. -/
theorem Leads.stop (hp : Leads body p ts (us ++ vs) good)
    (hbody : ∀ v, good v → Accepts (body v) us vs fun result => ∃ w, result = .done w ∧ good' w) :
    Accepts p (ts ++ us) vs good' := by
  intro s hlevel hcoming
  obtain ⟨turns, v, s₁, hrun, -, hgood, hfirst⟩ :=
    hp s hlevel (by rw [hcoming, List.append_assoc])
  obtain ⟨⟨w, hresult, hgood'⟩, hsecond⟩ := hbody v hgood s₁ hfirst.level hfirst.coming
  have hlast : p s = (w, (body v s₁).2) := by
    rw [hrun]
    cases turns with
    | nil =>
        rw [Parser.iterateAlong_nil, hresult]
        rfl
    | cons token turns =>
        rw [Parser.iterateAlong_cons, hresult]
        rfl
  rw [hlast]
  exact ⟨hgood', hfirst.trans hsecond⟩

theorem Leads.stop_nil (hp : Leads body p ts us good)
    (hbody : ∀ v, good v → Accepts (body v) [] us fun result => ∃ w, result = .done w ∧ good' w) :
    Accepts p ts us good' := by
  rw [← List.append_nil ts]
  exact Leads.stop hp hbody

end Parser

end BehaviorTree
