import BehaviorTree.Parsing.Recovery
import BehaviorTree.Proofs.Parsing.Ledger
import BehaviorTree.Proofs.Parsing.Words

/-!
# Runs without errors

A run that reports no error, warnings aside, has consumed a stretch of the tokens and made some
nodes, each of which it has put to use. `Delivers` is the judgement for this: unless an error has
been reported by the end of a run, none had been before it, and what it returns is related to the
state that it ends in. An error report delivers anything.
-/

namespace BehaviorTree

/-! ### Counting nodes -/

/-- How many nodes of a kind the stamps are of. -/
def Stamp.census (kind : NodeKind) (stamps : List Stamp) : Nat :=
  stamps.countP fun
    | .node other _ => other = kind
    | .name _ => false

namespace Stamp

variable {kind : NodeKind}

@[simp]
theorem census_nil : census kind [] = 0 := rfl

@[simp]
theorem census_append (left right : List Stamp) :
    census kind (left ++ right) = census kind left + census kind right :=
  List.countP_append

@[simp]
theorem census_node (other : NodeKind) (id : Nat) (rest : List Stamp) :
    census kind (.node other id :: rest) = census kind rest + if other = kind then 1 else 0 := by
  simp [census, List.countP_cons]

@[simp]
theorem census_name (name : Name) (rest : List Stamp) :
    census kind (.name name :: rest) = census kind rest := by
  simp [census]

end Stamp

namespace ParserState

/-- No error has been reported. -/
def Errorless (state : ParserState) : Prop := Diagnostics.hasErrors state.diagnostics = false

/-- Past the tokens there is the end of the file, and an error report that has passed the gate has
left its trace. -/
structure Guarded (state : ParserState) : Prop where
  final : state.final.isEndOfFile = true
  gate : state.Errorless → state.reportedAt = none

/-- Between two states just these tokens were consumed and as many nodes made as these stamps are
of. -/
structure Stretch (s : ParserState) (ts : List Token) (made : List Stamp) (s' : ParserState) :
    Prop where
  file : s'.file = s.file
  final : s'.final = s.final
  rest : s.rest = ts ++ s'.rest
  inside : ∀ token ∈ ts, token.isEndOfFile = false
  last : s'.lastRange = (ts.getLast?.map Token.range).getD s.lastRange
  size : ∀ kind, s'.arena.size kind = s.arena.size kind + Stamp.census kind made

variable {s s₁ s₂ : ParserState} {ts us : List Token} {made more : List Stamp} {d : Diagnostic}

namespace Stretch

theorem refl (s : ParserState) : Stretch s [] [] s := ⟨rfl, rfl, rfl, by simp, rfl, fun _ => rfl⟩

theorem trans (hfirst : Stretch s ts made s₁) (hsecond : Stretch s₁ us more s₂) :
    Stretch s (ts ++ us) (made ++ more) s₂ where
  file := hsecond.file.trans hfirst.file
  final := hsecond.final.trans hfirst.final
  rest := by rw [hfirst.rest, hsecond.rest, List.append_assoc]
  inside token hmem := (List.mem_append.mp hmem).elim (hfirst.inside token) (hsecond.inside token)
  last := by
    rw [hsecond.last, hfirst.last, List.getLast?_append]
    cases us.getLast? <;> rfl
  size kind := by
    rw [hsecond.size, hfirst.size, Stamp.census_append, Nat.add_assoc]

/-- Of the nodes only the number counts. -/
theorem as (h : Stretch s ts made s₁) (htokens : ts = us)
    (hcount : ∀ kind, Stamp.census kind made = Stamp.census kind more) : Stretch s us more s₁ :=
  ⟨h.file, h.final, htokens ▸ h.rest, htokens ▸ h.inside, htokens ▸ h.last,
    fun kind => by rw [h.size, hcount]⟩

theorem length_eq (h : Stretch s ts made s₁) : s₁.rest.length + ts.length = s.rest.length := by
  rw [h.rest, List.length_append, Nat.add_comm]

theorem current (h : Stretch s [] made s₁) : s₁.current = s.current := by
  have hrest : s.rest = s₁.rest := h.rest
  rw [ParserState.current, tokenAt, ParserState.current, tokenAt, hrest, h.final]

theorem current_of_cons {token : Token} (h : Stretch s [token] made s₁) :
    s₁.current = s.tokenAt 1 := by
  simp [ParserState.current, tokenAt, h.rest, h.final]

end Stretch

theorem Errorless.of_report (h : (s.report d).Errorless) : s.Errorless := by
  unfold Errorless Diagnostics.hasErrors at h ⊢
  rw [ParserState.report, List.any_append, Bool.or_eq_false_iff] at h
  exact h.1

theorem not_errorless_report (hd : d.isError = true) : ¬(s.report d).Errorless := by
  intro h
  unfold Errorless Diagnostics.hasErrors at h
  rw [ParserState.report, List.any_append, Bool.or_eq_false_iff] at h
  simp [hd] at h

/-- Where the gate suppresses a report of an error, another one has been made. -/
theorem not_errorless_reportOnce (hguarded : s.Guarded) (hd : d.isError = true) :
    ¬(s.reportOnce d).Errorless := by
  unfold reportOnce
  split
  · rename_i hgate
    intro hsame
    rw [hguarded.gate hsame] at hgate
    cases hgate
  · exact not_errorless_report hd

/-- In front of the end of the file there is a token. -/
theorem Guarded.rest_eq (hguarded : s.Guarded) (hcurrent : s.current.isEndOfFile = false) :
    s.rest = s.current :: (s.skip 1).rest := by
  cases hrest : s.rest with
  | nil =>
      have hfinal : s.current = s.final := by simp [current, tokenAt, hrest]
      rw [hfinal, hguarded.final] at hcurrent
      cases hcurrent
  | cons token rest => simp [current, tokenAt, skip, hrest]

theorem Guarded.stretch_skip (hguarded : s.Guarded) (hcurrent : s.current.isEndOfFile = false) :
    Stretch s [s.current] [] (s.skip 1) where
  file := rfl
  final := rfl
  rest := hguarded.rest_eq hcurrent
  inside := by simpa using hcurrent
  last := by
    have hrest := hguarded.rest_eq hcurrent
    have htaken : (s.rest.take 1).getLast? = some s.current := by
      rw [hrest]
      rfl
    show ((s.rest.take 1).getLast?.map Token.range).getD s.lastRange = _
    rw [htaken]
    rfl
  size _ := rfl

end ParserState

namespace Parser

open ParserState

variable {α β : Type}

/-- From `s` the parser delivers `post`, unless it reports an error. -/
def Delivers (p : Parser α) (s : ParserState) (post : α → ParserState → Prop) : Prop :=
  s.Guarded → (p s).2.Guarded ∧ ((p s).2.Errorless → s.Errorless ∧ post (p s).1 (p s).2)

/-- Whatever happens, the parser takes no error back. -/
def Retains (p : Parser α) : Prop := ∀ s, Delivers p s fun _ _ => True

variable {p : Parser α} {f : α → Parser β} {s : ParserState} {post post' : α → ParserState → Prop}
  {goal : β → ParserState → Prop}

theorem Delivers.mono (hp : Delivers p s post) (himp : ∀ a s', post a s' → post' a s') :
    Delivers p s post' := by
  intro hguarded
  obtain ⟨hguarded', h⟩ := hp hguarded
  refine ⟨hguarded', fun herrorless => ?_⟩
  obtain ⟨hbefore, hpost⟩ := h herrorless
  exact ⟨hbefore, himp _ _ hpost⟩

theorem Delivers.retains (hp : Delivers p s post) : Delivers p s fun _ _ => True :=
  hp.mono fun _ _ _ => trivial

theorem Delivers.pure {a : α} (h : post a s) : Delivers (pure a) s post :=
  fun hguarded => ⟨hguarded, fun herrorless => ⟨herrorless, h⟩⟩

theorem Delivers.of_bind_pure (h : Delivers (p >>= Pure.pure) s post) : Delivers p s post := h

theorem Delivers.pure_bind {a : α} (hf : Delivers (f a) s goal) :
    Delivers (Pure.pure a >>= f) s goal := hf

/-- One parser behind another. What the first delivers is available at the end of the second. -/
theorem Delivers.bind (hp : Delivers p s post)
    (hf : ∀ a s', Delivers (f a) s' fun b s'' => post a s' → goal b s'') :
    Delivers (p >>= f) s goal := by
  intro hguarded
  obtain ⟨hguarded₁, h₁⟩ := hp hguarded
  obtain ⟨hguarded₂, h₂⟩ := hf (p s).1 (p s).2 hguarded₁
  refine ⟨hguarded₂, fun herrorless => ?_⟩
  obtain ⟨herrorless₁, hgoal⟩ := h₂ herrorless
  obtain ⟨hbefore, hpost⟩ := h₁ herrorless₁
  exact ⟨hbefore, hgoal hpost⟩

theorem Delivers.map {g : α → β} (hp : Delivers p s post)
    (hg : ∀ a s', post a s' → goal (g a) s') : Delivers (g <$> p) s goal :=
  Delivers.bind (f := fun a => Pure.pure (g a)) hp fun a s' => Delivers.pure (hg a s')

/-- Behind an error report nothing is left to show but that no error is taken back. -/
theorem Delivers.fail (hp : Delivers p s fun _ _ => False) (hf : ∀ a, Retains (f a)) :
    Delivers (p >>= f) s goal :=
  Delivers.bind hp fun a s' => (hf a s').mono fun _ _ _ h => h.elim

theorem Retains.pure (a : α) : Retains (Pure.pure a : Parser α) := fun _ => Delivers.pure trivial

theorem Retains.bind (hp : Retains p) (hf : ∀ a, Retains (f a)) : Retains (p >>= f) :=
  fun s => Delivers.bind (hp s) fun a s' => (hf a s').mono fun _ _ _ _ => trivial

/-! ### Looking around -/

theorem Delivers.peek {f : Token → Parser β} (hf : Delivers (f s.current) s goal) :
    Delivers (Parser.peek >>= f) s goal := hf

theorem Delivers.peekSecond {f : Token → Parser β} (hf : Delivers (f (s.tokenAt 1)) s goal) :
    Delivers (Parser.peekSecond >>= f) s goal := hf

theorem Delivers.atPunctuation {mark : Punctuation} {f : Bool → Parser β}
    (hf : Delivers (f (s.current.isPunctuation mark)) s goal) :
    Delivers (Parser.atPunctuation mark >>= f) s goal := hf

theorem Delivers.atEnd {f : Bool → Parser β} (hf : Delivers (f s.current.isEndOfFile) s goal) :
    Delivers (Parser.atEnd >>= f) s goal := hf

theorem Delivers.rangeSince {start : SourceRange} {f : SourceRange → Parser β}
    (hf : Delivers (f (s.rangeSince start)) s goal) : Delivers (Parser.rangeSince start >>= f) s goal :=
  hf

theorem Retains.peek {f : Token → Parser β} (hf : ∀ token, Retains (f token)) :
    Retains (Parser.peek >>= f) := fun s => hf s.current s

theorem Retains.atPunctuation {mark : Punctuation} {f : Bool → Parser β} (hf : ∀ found, Retains (f found)) :
    Retains (Parser.atPunctuation mark >>= f) := fun s => hf (s.current.isPunctuation mark) s

/-! ### Making nodes -/

/-- A step that consumes and reports nothing. -/
theorem Delivers.step {arena : Arena} {made : List Stamp} (hstate : (p s).2 = { s with arena })
    (hsize : ∀ kind, arena.size kind = s.arena.size kind + Stamp.census kind made)
    (hf : ∀ s', Stretch s [] made s' → Delivers (f (p s).1) s' goal) :
    Delivers (p >>= f) s goal := by
  intro hguarded
  have hstretch : Stretch s [] made (p s).2 := by
    rw [hstate]
    exact ⟨rfl, rfl, rfl, by simp, rfl, hsize⟩
  have hguarded' : (p s).2.Guarded := by
    rw [hstate]
    exact ⟨hguarded.final, hguarded.gate⟩
  obtain ⟨hguarded'', h⟩ := hf (p s).2 hstretch hguarded'
  refine ⟨hguarded'', fun herrorless => ?_⟩
  obtain ⟨hbefore, hgoal⟩ := h herrorless
  rw [hstate] at hbefore
  exact ⟨hbefore, hgoal⟩

theorem Delivers.intern {text : String} {f : Unit → Parser β}
    (hf : ∀ s', Stretch s [] [] s' → Delivers (f ()) s' goal) :
    Delivers (Parser.intern text >>= f) s goal := by
  refine Delivers.step (p := Parser.intern text) rfl (fun kind => ?_) hf
  show (s.arena.intern text).size kind = _
  unfold Arena.intern
  split
  · rfl
  · cases kind <;> rfl

theorem Delivers.nameOf {token : Token} {f : Name → Parser β}
    (hf : ∀ s', Stretch s [] [] s' → Delivers (f token.asName) s' goal) :
    Delivers (Parser.nameOf token >>= f) s goal :=
  Delivers.intern (f := fun _ => f token.asName) hf

theorem Delivers.newExpr {range : SourceRange} {build : Origin → Expr} {f : Expr → Parser β}
    (hf : ∀ id s', Stretch s [] [.node .expr id] s' → Delivers (f (build ⟨id, range⟩)) s' goal) :
    Delivers (Parser.newExpr range build >>= f) s goal :=
  Delivers.step (p := Parser.newExpr range build) rfl
    (fun kind => by cases kind <;> simp [Arena.size]) (hf _)

theorem Delivers.newType {range : SourceRange} {build : Origin → TypeExpr} {f : TypeExpr → Parser β}
    (hf : ∀ id s', Stretch s [] [.node .type id] s' → Delivers (f (build ⟨id, range⟩)) s' goal) :
    Delivers (Parser.newType range build >>= f) s goal :=
  Delivers.step (p := Parser.newType range build) rfl
    (fun kind => by cases kind <;> simp [Arena.size]) (hf _)

theorem Delivers.newStmt {range : SourceRange} {build : Origin → Stmt} {f : Stmt → Parser β}
    (hf : ∀ id s', Stretch s [] [.node .stmt id] s' → Delivers (f (build ⟨id, range⟩)) s' goal) :
    Delivers (Parser.newStmt range build >>= f) s goal :=
  Delivers.step (p := Parser.newStmt range build) rfl
    (fun kind => by cases kind <;> simp [Arena.size]) (hf _)

theorem Delivers.newDecl {range : SourceRange} {build : Origin → Decl} {f : Decl → Parser β}
    (hf : ∀ id s', Stretch s [] [.node .decl id] s' → Delivers (f (build ⟨id, range⟩)) s' goal) :
    Delivers (Parser.newDecl range build >>= f) s goal :=
  Delivers.step (p := Parser.newDecl range build) rfl
    (fun kind => by cases kind <;> simp [Arena.size]) (hf _)

theorem Delivers.widenExpr {expr : Expr} {range : SourceRange} {f : Expr → Parser β}
    (hf : ∀ s', Stretch s [] [] s' → Delivers (f (expr.withRange range)) s' goal) :
    Delivers (Parser.widenExpr expr range >>= f) s goal :=
  Delivers.step (p := Parser.widenExpr expr range) rfl
    (fun kind => by cases kind <;> simp [Arena.size]) hf

theorem Delivers.missingExpr {f : Expr → Parser β}
    (hf : ∀ origin s', Stretch s [] [.node .expr origin.id] s' →
      Delivers (f (.missing origin)) s' goal) :
    Delivers (Parser.missingExpr >>= f) s goal :=
  Delivers.newExpr fun id s' h => hf ⟨id, _⟩ s' h

theorem Retains.missingExpr : Retains missingExpr :=
  fun _ => Delivers.of_bind_pure (Delivers.missingExpr fun _ _ _ => Delivers.pure trivial)

theorem Retains.missingType : Retains missingType := by
  intro s hguarded
  exact ⟨⟨hguarded.final, hguarded.gate⟩, fun herrorless => ⟨herrorless, trivial⟩⟩

theorem Retains.nameOf (token : Token) : Retains (nameOf token) :=
  fun _ => Delivers.of_bind_pure (Delivers.nameOf fun _ _ => Delivers.pure trivial)

/-! ### Reports -/

theorem Delivers.report {d : Diagnostic} (hd : d.isError = true) :
    Delivers (report d) s fun _ _ => False := by
  intro hguarded
  have hloud : ¬(s.report d).Errorless := not_errorless_report hd
  exact ⟨⟨hguarded.final, fun h => (hloud h).elim⟩, fun h => (hloud h).elim⟩

theorem Delivers.reportOnce {d : Diagnostic} (hd : d.isError = true) :
    Delivers (reportOnce d) s fun _ _ => False := by
  intro hguarded
  have hloud : ¬(s.reportOnce d).Errorless := not_errorless_reportOnce hguarded hd
  have hfinal : (s.reportOnce d).final.isEndOfFile = true := by
    rw [final_reportOnce]
    exact hguarded.final
  exact ⟨⟨hfinal, fun h => (hloud h).elim⟩, fun h => (hloud h).elim⟩

theorem Delivers.expected {what : String} : Delivers (expected what) s fun _ _ => False :=
  Delivers.peek (Delivers.reportOnce rfl)

theorem Delivers.expectedWithHelp {what help : String} :
    Delivers (expectedWithHelp what help) s fun _ _ => False :=
  Delivers.peek (Delivers.reportOnce rfl)

theorem Delivers.missing {what context : String} {insertion : Option String} :
    Delivers (missing what context insertion) s fun _ _ => False := by
  intro hguarded
  unfold Parser.missing
  dsimp only
  split
  · exact Delivers.reportOnce rfl hguarded
  · exact Delivers.reportOnce rfl hguarded

/-- A report of no error is taken as it comes. -/
theorem Delivers.warn {d : Diagnostic} {f : Unit → Parser β}
    (hf : ∀ s', Stretch s [] [] s' → Delivers (f ()) s' goal) :
    Delivers (Parser.report d >>= f) s goal := by
  intro hguarded
  have hguarded' : (s.report d).Guarded :=
    ⟨hguarded.final, fun h => hguarded.gate h.of_report⟩
  obtain ⟨hguarded'', h⟩ := hf (s.report d) ⟨rfl, rfl, rfl, by simp, rfl, fun _ => rfl⟩ hguarded'
  refine ⟨hguarded'', fun herrorless => ?_⟩
  obtain ⟨hbefore, hgoal⟩ := h herrorless
  exact ⟨hbefore.of_report, hgoal⟩

/-! ### Consuming tokens -/

theorem Retains.skip (count : List Token → Nat) : Retains (skip count) :=
  fun _ hguarded => ⟨⟨hguarded.final, hguarded.gate⟩, fun herrorless => ⟨herrorless, trivial⟩⟩

theorem Retains.synchronize (set : RecoverySet) : Retains (synchronize set) := Retains.skip _

/-- The block of a tree without a name is skipped. -/
theorem Retains.skipBody : Retains (Parser.atPunctuation .lBrace >>= fun opens => do
    if opens then Parser.skip Skip.group
    return (none : Option (DeclHead → Decl))) :=
  Retains.atPunctuation fun opens => by
    split
    · exact Retains.bind (Retains.skip _) fun _ => Retains.pure _
    · exact Retains.pure _

theorem Retains.advance : Retains advance := by
  intro s hguarded
  have hrun : (Parser.advance s).2 = s ∨ (Parser.advance s).2 = s.skip 1 := by
    show (if s.current.isEndOfFile then s else s.skip 1) = s ∨ _
    split
    · exact .inl rfl
    · right
      rename_i hcurrent
      show (if s.current.isEndOfFile then s else s.skip 1) = _
      rw [if_neg hcurrent]
  rcases hrun with hrun | hrun
  · rw [hrun]
    exact ⟨hguarded, fun herrorless => ⟨herrorless, trivial⟩⟩
  · rw [hrun]
    exact ⟨⟨hguarded.final, hguarded.gate⟩, fun herrorless => ⟨herrorless, trivial⟩⟩

/-- The current token is consumed unless it is the end of the file. -/
theorem Delivers.advance {f : Token → Parser β} (hcurrent : s.current.isEndOfFile = false)
    (hf : ∀ s', Stretch s [s.current] [] s' → Delivers (f s.current) s' goal) :
    Delivers (Parser.advance >>= f) s goal := by
  intro hguarded
  have hrun : (Parser.advance >>= f) s = f s.current (s.skip 1) := by
    change f s.current (if s.current.isEndOfFile then s else s.skip 1) = _
    rw [hcurrent]
    rfl
  rw [hrun]
  exact hf (s.skip 1) (hguarded.stretch_skip hcurrent) ⟨hguarded.final, hguarded.gate⟩

theorem Delivers.advance_of {kind : TokenKind} {f : Token → Parser β} (hkind : s.current.kind = kind)
    (hend : kind ≠ .endOfFile)
    (hf : ∀ s', Stretch s [s.current] [] s' → Delivers (f s.current) s' goal) :
    Delivers (Parser.advance >>= f) s goal :=
  Delivers.advance (by simp [Token.isEndOfFile, hkind, hend]) hf

theorem Delivers.accept {test : Token → Bool} {f : Bool → Parser β}
    (htest : ∀ token, test token = true → token.isEndOfFile = false)
    (hyes : test s.current = true → ∀ s', Stretch s [s.current] [] s' → Delivers (f true) s' goal)
    (hno : test s.current = false → Delivers (f false) s goal) :
    Delivers (Parser.accept test >>= f) s goal := by
  have hrun : ∀ b, test s.current = b → (Parser.accept test >>= f) s =
      ((if b then (do let _ ← Parser.advance; Pure.pure true) else Pure.pure false) >>= f) s := by
    rintro b rfl
    rfl
  unfold Delivers
  cases hpass : test s.current with
  | true =>
      rw [hrun true hpass]
      exact Delivers.advance (f := fun _ => f true) (htest _ hpass) (hyes hpass)
  | false =>
      rw [hrun false hpass]
      exact hno hpass

/-- A mark is consumed if it is there. -/
theorem Delivers.acceptPunctuation {mark : Punctuation} {f : Bool → Parser β}
    (hyes : s.current.kind = .punctuation mark → ∀ s', Stretch s [s.current] [] s' →
      Delivers (f true) s' goal)
    (hno : s.current.isPunctuation mark = false → Delivers (f false) s goal) :
    Delivers (Parser.acceptPunctuation mark >>= f) s goal := by
  refine Delivers.accept (fun token h => ?_) (fun h => ?_) hno
  · simp only [Token.isPunctuation, beq_iff_eq] at h
    simp [Token.isEndOfFile, h]
  · exact hyes (by simpa [Token.isPunctuation] using h)

theorem Delivers.acceptOperator {op : Operator} {f : Bool → Parser β}
    (hyes : s.current.kind = .operator op → ∀ s', Stretch s [s.current] [] s' →
      Delivers (f true) s' goal)
    (hno : s.current.isOperator op = false → Delivers (f false) s goal) :
    Delivers (Parser.acceptOperator op >>= f) s goal := by
  refine Delivers.accept (fun token h => ?_) (fun h => ?_) hno
  · simp only [Token.isOperator, beq_iff_eq] at h
    simp [Token.isEndOfFile, h]
  · exact hyes (by simpa [Token.isOperator] using h)

theorem Retains.acceptPunctuation (mark : Punctuation) : Retains (acceptPunctuation mark) :=
  fun _ => Delivers.of_bind_pure (Delivers.acceptPunctuation
    (fun _ _ _ => Delivers.pure trivial) fun _ => Delivers.pure trivial)

theorem Retains.acceptOperator (op : Operator) : Retains (acceptOperator op) :=
  fun _ => Delivers.of_bind_pure (Delivers.acceptOperator
    (fun _ _ _ => Delivers.pure trivial) fun _ => Delivers.pure trivial)

/-! ### Demands -/

/-- Just one token of this kind was consumed. -/
def Took (kind : TokenKind) (s s' : ParserState) : Prop :=
  ∃ token, token.kind = kind ∧ Stretch s [token] [] s'

theorem Delivers.expectPunctuation {mark : Punctuation} {context : String} {set : RecoverySet} :
    Delivers (expectPunctuation mark context set) s fun found s' =>
      found = true ∧ Took (.punctuation mark) s s' := by
  unfold Parser.expectPunctuation
  refine Delivers.acceptPunctuation (fun hkind s' hs' => Delivers.pure ⟨rfl, _, hkind, hs'⟩) fun _ => ?_
  refine Delivers.fail Delivers.missing fun recovery => ?_
  cases recovery with
  | insert => exact Retains.pure _
  | skip => exact Retains.bind (Retains.synchronize set) fun _ => Retains.acceptPunctuation mark

theorem Delivers.expectSemi {context : String} {set : RecoverySet} :
    Delivers (expectSemi context set) s fun _ s' => Took (.punctuation .semi) s s' := by
  unfold Parser.expectSemi
  refine Delivers.acceptPunctuation (fun hkind s' hs' => Delivers.pure ⟨_, hkind, hs'⟩) fun _ => ?_
  refine Delivers.fail Delivers.missing fun recovery => ?_
  cases recovery with
  | insert => exact Retains.pure _
  | skip =>
      refine Retains.bind (Retains.synchronize set) fun _ => ?_
      exact Retains.bind (Retains.acceptPunctuation _) fun _ => Retains.pure _

theorem Delivers.expectOperator {op : Operator} {context : String} {set : RecoverySet} :
    Delivers (expectOperator op context set) s fun found s' =>
      found = true ∧ Took (.operator op) s s' := by
  unfold Parser.expectOperator
  refine Delivers.acceptOperator (fun hkind s' hs' => Delivers.pure ⟨rfl, _, hkind, hs'⟩) fun _ => ?_
  refine Delivers.fail Delivers.missing fun _ => ?_
  exact Retains.bind (Retains.synchronize set) fun _ => Retains.acceptOperator op

theorem Delivers.expectName {what : String} {set : RecoverySet} :
    Delivers (expectName what set) s fun found s' =>
      ∃ token, token.kind = .identifier ∧ found = some token.asName ∧ Stretch s [token] [] s' := by
  unfold Parser.expectName
  refine Delivers.peek ?_
  split
  · rename_i hfound
    have hkind : s.current.kind = .identifier := by simpa [Token.isIdentifier] using hfound
    refine Delivers.advance_of hkind (by simp) fun s' hs' => ?_
    exact Delivers.nameOf fun s'' hs'' => Delivers.pure ⟨_, hkind, rfl, hs'.trans hs''⟩
  · split
    · refine Delivers.fail Delivers.expectedWithHelp fun _ => ?_
      split
      · exact Retains.bind (Retains.synchronize set) fun _ => Retains.pure _
      · exact Retains.bind Retains.advance fun token =>
          Retains.bind (Retains.nameOf _) fun _ => Retains.pure _
    · refine Delivers.fail Delivers.expected fun _ => ?_
      exact Retains.bind (Retains.synchronize set) fun _ => Retains.pure _

/-! ### Loops -/

/-- The value that a turn of a loop leaves. -/
def Turn.value : Turn α → α
  | .again value | .done value => value

/-- What each turn of a loop keeps holds at its end. -/
theorem Delivers.iterate {body : α → Parser (Turn α)} (inv : α → ParserState → Prop) {v : α}
    (hbody : ∀ v s', Delivers (body v) s' fun turn s'' => inv v s' → inv turn.value s'') :
    Delivers (iterate body v) s fun last s' => inv v s → inv last s' := by
  have halong : ∀ (turns : List Token) (v : α) (s : ParserState),
      Delivers (Parser.iterateAlong body turns v) s fun last s' => inv v s → inv last s' := by
    intro turns
    induction turns with
    | nil =>
        intro v s
        refine Delivers.bind (hbody v s) fun turn s' => ?_
        cases turn with
        | again last => exact Delivers.pure fun hturn => hturn
        | done last => exact Delivers.pure fun hturn => hturn
    | cons token turns ih =>
        intro v s
        refine Delivers.bind (hbody v s) fun turn s' => ?_
        cases turn with
        | again next => exact (ih next s').mono fun _ _ hrest hturn hv => hrest (hturn hv)
        | done last => exact Delivers.pure fun hturn => hturn
  exact halong s.rest v s

theorem Retains.iterate {body : α → Parser (Turn α)} {v : α} (hbody : ∀ v, Retains (body v)) :
    Retains (iterate body v) :=
  fun _ => (Delivers.iterate (fun _ _ => True) fun v s' =>
    (hbody v s').mono fun _ _ _ _ => trivial).retains

end Parser

end BehaviorTree
