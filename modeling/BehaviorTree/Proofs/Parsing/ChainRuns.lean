import BehaviorTree.Parsing.Recovery
import BehaviorTree.Proofs.Parsing.Enough
import BehaviorTree.Proofs.Parsing.Errorless
import BehaviorTree.Proofs.Syntax.Written

/-!
# Runs that report nothing but chains

A chain is reported where it is found and the parser goes on as if nothing had been. Every other
report means that the tokens are not what the grammar asks for. `Writes` is the judgement for runs
without such a report: from a number of reports on, if there are only chains among them by the end of
a run, there were only chains before it, and what it returns is related to the state that it ends in.
-/

namespace BehaviorTree

/-- A report on a chain. -/
def Diagnostic.IsChain (diagnostic : Diagnostic) : Prop :=
  diagnostic.code = some Code.nonAssociativeChain

/-- Where another token was expected, there is no chain. -/
theorem Diagnostic.not_isChain {diagnostic : Diagnostic}
    (hcode : diagnostic.code = some Code.expectedToken) : ¬diagnostic.IsChain := by
  intro hchain
  have hsame : some Code.expectedToken = some Code.nonAssociativeChain := hcode.symm.trans hchain
  simp [Code.expectedToken, Code.nonAssociativeChain] at hsame

namespace ParserState

/-- Of the reports behind the first ones all are on chains. -/
def OnlyChains (known : Nat) (s : ParserState) : Prop :=
  ∀ diagnostic ∈ s.diagnostics.drop known, diagnostic.IsChain

/-- Past the tokens there is the end of the file. The first reports are those of before, and as long
as there are only chains behind them, the gate has not been closed here. -/
structure Watched (known : Nat) (s : ParserState) : Prop where
  final : s.Ended
  counted : known ≤ s.diagnostics.length
  gate : s.OnlyChains known → ∀ place, s.reportedAt = some place → place < s.position

/-- Between two states these tokens were consumed and these reports made. -/
structure Spent (s : ParserState) (tokens : List Token) (reports : List Diagnostic)
    (s' : ParserState) : Prop where
  rest : s.rest = tokens ++ s'.rest
  final : s'.final = s.final
  diagnostics : s'.diagnostics = s.diagnostics ++ reports

/-- Between two states the parts of an expression were written. -/
def Wrote (s : ParserState) (parts : List Written) (s' : ParserState) : Prop :=
  Spent s (Written.tokensOf parts) (Written.reportsOf (Written.chainsOf parts)) s'

variable {known : Nat} {s s₁ s₂ : ParserState} {ts us : List Token} {ds es : List Diagnostic}
  {parts later : List Written} {d : Diagnostic}

theorem Spent.refl (s : ParserState) : Spent s [] [] s := ⟨rfl, rfl, (List.append_nil _).symm⟩

theorem Spent.trans (hfirst : Spent s ts ds s₁) (hsecond : Spent s₁ us es s₂) :
    Spent s (ts ++ us) (ds ++ es) s₂ where
  rest := by rw [hfirst.rest, hsecond.rest, List.append_assoc]
  final := hsecond.final.trans hfirst.final
  diagnostics := by rw [hsecond.diagnostics, hfirst.diagnostics, List.append_assoc]

theorem Spent.length_le (h : Spent s ts ds s₁) : s₁.rest.length ≤ s.rest.length := by
  rw [h.rest, List.length_append]
  exact Nat.le_add_left _ _

/-- Behind one token less is left. -/
theorem Spent.length_lt {token : Token} (h : Spent s [token] ds s₁) :
    s₁.rest.length < s.rest.length := by
  rw [h.rest, List.singleton_append]
  exact Nat.lt_succ_self _

theorem Spent.current (h : Spent s [] ds s₁) : s₁.current = s.current := by
  have hrest : s.rest = s₁.rest := h.rest
  rw [ParserState.current, tokenAt, ParserState.current, tokenAt, hrest, h.final]

namespace Wrote

theorem refl (s : ParserState) : Wrote s [] s := Spent.refl s

theorem trans (hfirst : Wrote s parts s₁) (hsecond : Wrote s₁ later s₂) :
    Wrote s (parts ++ later) s₂ := by
  unfold Wrote Written.reportsOf at *
  simpa using Spent.trans hfirst hsecond

theorem token {token : Token} (h : Spent s [token] [] s₁) : Wrote s [.token token] s₁ := h

theorem before (h : Wrote s parts s₁) (hbehind : Spent s₁ [] [] s₂) : Wrote s parts s₂ := by
  have hboth := Spent.trans h hbehind
  rwa [List.append_nil, List.append_nil] at hboth

theorem length_le (h : Wrote s parts s₁) : s₁.rest.length ≤ s.rest.length := Spent.length_le h

end Wrote

theorem OnlyChains.of_report (h : (s.report d).OnlyChains known) : s.OnlyChains known := by
  intro diagnostic hmem
  refine h diagnostic ?_
  rw [ParserState.report, List.drop_append]
  exact List.mem_append_left _ hmem

theorem Watched.not_report (hwatched : s.Watched known) (hother : ¬d.IsChain) :
    ¬(s.report d).OnlyChains known := by
  intro h
  refine hother (h d ?_)
  rw [ParserState.report, List.drop_append_of_le_length hwatched.counted]
  exact List.mem_append_right _ (List.mem_singleton.mpr rfl)

theorem Watched.skip (hwatched : s.Watched known) (count : Nat) : (s.skip count).Watched known where
  final := hwatched.final
  counted := hwatched.counted
  gate honly place hplace :=
    Nat.lt_of_lt_of_le (hwatched.gate honly place hplace) (Nat.le_add_right _ _)

/-- As long as there are only chains, the gate lets a report through. -/
theorem Watched.not_reportOnce (hwatched : s.Watched known) (hother : ¬d.IsChain) :
    ¬(s.reportOnce d).OnlyChains known := by
  unfold reportOnce
  split
  · rename_i hgate
    intro honly
    exact absurd (hwatched.gate honly _ hgate) (Nat.lt_irrefl _)
  · exact hwatched.not_report hother

end ParserState

namespace Parser

open ParserState

variable {α β : Type}

/-- From `s` the parser comes to `post`, unless something else than a chain is reported. -/
def Writes (known : Nat) (p : Parser α) (s : ParserState) (post : α → ParserState → Prop) : Prop :=
  s.Watched known → (p s).2.Watched known ∧
    ((p s).2.OnlyChains known → s.OnlyChains known ∧ post (p s).1 (p s).2)

/-- Whatever happens, the parser takes no report back. -/
def Adds (known : Nat) (p : Parser α) : Prop := ∀ s, Writes known p s fun _ _ => True

variable {known : Nat} {p : Parser α} {f : α → Parser β} {s : ParserState}
  {post post' : α → ParserState → Prop} {goal : β → ParserState → Prop}

theorem Writes.mono (hp : Writes known p s post) (himp : ∀ a s', post a s' → post' a s') :
    Writes known p s post' := by
  intro hwatched
  obtain ⟨hwatched', h⟩ := hp hwatched
  refine ⟨hwatched', fun honly => ?_⟩
  obtain ⟨hbefore, hpost⟩ := h honly
  exact ⟨hbefore, himp _ _ hpost⟩

theorem Writes.pure {a : α} (h : post a s) : Writes known (Pure.pure a) s post :=
  fun hwatched => ⟨hwatched, fun honly => ⟨honly, h⟩⟩

theorem Writes.of_bind_pure (h : Writes known (p >>= Pure.pure) s post) : Writes known p s post := h

theorem Writes.pure_bind {a : α} {f : α → Parser β} (hf : Writes known (f a) s goal) :
    Writes known (Pure.pure a >>= f) s goal := hf

/-- One parser behind another. -/
theorem Writes.bind (hp : Writes known p s post)
    (hf : ∀ a s', Writes known (f a) s' fun b s'' => post a s' → goal b s'') :
    Writes known (p >>= f) s goal := by
  intro hwatched
  obtain ⟨hwatched₁, h₁⟩ := hp hwatched
  obtain ⟨hwatched₂, h₂⟩ := hf (p s).1 (p s).2 hwatched₁
  refine ⟨hwatched₂, fun honly => ?_⟩
  obtain ⟨honly₁, hgoal⟩ := h₂ honly
  obtain ⟨hbefore, hpost⟩ := h₁ honly₁
  exact ⟨hbefore, hgoal hpost⟩

theorem Writes.map {g : α → β} (hp : Writes known p s post)
    (hg : ∀ a s', post a s' → goal (g a) s') : Writes known (g <$> p) s goal :=
  Writes.bind (f := fun a => Pure.pure (g a)) hp fun a s' => Writes.pure (hg a s')

/-- What is known of the state at the end anyway. -/
theorem Writes.with {fact : ParserState → Prop} (hp : Writes known p s post)
    (hfact : s.Ended → fact (p s).2) : Writes known p s fun a s' => post a s' ∧ fact s' := by
  intro hwatched
  obtain ⟨hwatched', h⟩ := hp hwatched
  refine ⟨hwatched', fun honly => ?_⟩
  obtain ⟨hbefore, hpost⟩ := h honly
  exact ⟨hbefore, hpost, hfact hwatched.final⟩

theorem Adds.pure (a : α) : Adds known (Pure.pure a : Parser α) := fun _ => Writes.pure trivial

theorem Adds.bind (hp : Adds known p) (hf : ∀ a, Adds known (f a)) : Adds known (p >>= f) :=
  fun s => Writes.bind (hp s) fun a s' => (hf a s').mono fun _ _ _ _ => trivial

/-- Behind another report than on a chain nothing is left to show. -/
theorem Writes.fail (hp : Writes known p s fun _ _ => False) (hf : ∀ a, Adds known (f a)) :
    Writes known (p >>= f) s goal :=
  Writes.bind hp fun a s' => (hf a s').mono fun _ _ _ h => h.elim

/-! ### Looking around and making nodes -/

theorem Writes.peek {f : Token → Parser β} (hf : Writes known (f s.current) s goal) :
    Writes known (Parser.peek >>= f) s goal := hf

theorem Writes.atPunctuation {mark : Punctuation} {f : Bool → Parser β}
    (hf : Writes known (f (s.current.isPunctuation mark)) s goal) :
    Writes known (Parser.atPunctuation mark >>= f) s goal := hf

theorem Writes.rangeSince {start : SourceRange} {f : SourceRange → Parser β}
    (hf : ∀ range, Writes known (f range) s goal) :
    Writes known (Parser.rangeSince start >>= f) s goal := hf _

/-- A step that only changes the arena. -/
theorem Writes.step {arena : Arena} (hstate : (p s).2 = { s with arena })
    (hf : ∀ s', Spent s [] [] s' → Writes known (f (p s).1) s' goal) :
    Writes known (p >>= f) s goal := by
  intro hwatched
  have hspent : Spent s [] [] (p s).2 := by
    rw [hstate]
    exact ⟨rfl, rfl, (List.append_nil _).symm⟩
  have hwatched' : (p s).2.Watched known := by
    rw [hstate]
    exact ⟨hwatched.final, hwatched.counted, hwatched.gate⟩
  obtain ⟨hwatched'', h⟩ := hf (p s).2 hspent hwatched'
  refine ⟨hwatched'', fun honly => ?_⟩
  obtain ⟨hbefore, hgoal⟩ := h honly
  rw [hstate] at hbefore
  exact ⟨hbefore, hgoal⟩

theorem Writes.intern {text : String} {f : Unit → Parser β}
    (hf : ∀ s', Spent s [] [] s' → Writes known (f ()) s' goal) :
    Writes known (Parser.intern text >>= f) s goal :=
  Writes.step (p := Parser.intern text) rfl hf

theorem Writes.nameOf {token : Token} {f : Name → Parser β}
    (hf : ∀ s', Spent s [] [] s' → Writes known (f ⟨token.text, token.range⟩) s' goal) :
    Writes known (Parser.nameOf token >>= f) s goal :=
  Writes.step (p := Parser.nameOf token) rfl hf

theorem Writes.newExpr {range : SourceRange} {build : Origin → Expr} {f : Expr → Parser β}
    (hf : ∀ origin s', Spent s [] [] s' → Writes known (f (build origin)) s' goal) :
    Writes known (Parser.newExpr range build >>= f) s goal :=
  Writes.step (p := Parser.newExpr range build) rfl (hf _)

theorem Writes.newType {range : SourceRange} {build : Origin → TypeExpr} {f : TypeExpr → Parser β}
    (hf : ∀ origin s', Spent s [] [] s' → Writes known (f (build origin)) s' goal) :
    Writes known (Parser.newType range build >>= f) s goal :=
  Writes.step (p := Parser.newType range build) rfl (hf _)

theorem Writes.widenExpr {expr : Expr} {range : SourceRange} {f : Expr → Parser β}
    (hf : ∀ s', Spent s [] [] s' → Writes known (f (expr.withRange range)) s' goal) :
    Writes known (Parser.widenExpr expr range >>= f) s goal :=
  Writes.step (p := Parser.widenExpr expr range) rfl hf

theorem Writes.missingExpr {f : Expr → Parser β}
    (hf : ∀ origin s', Spent s [] [] s' → Writes known (f (.missing origin)) s' goal) :
    Writes known (Parser.missingExpr >>= f) s goal := Writes.newExpr hf

theorem Adds.missingExpr : Adds known missingExpr :=
  fun _ => Writes.of_bind_pure (Writes.missingExpr fun _ _ _ => Writes.pure trivial)

theorem Adds.missingType : Adds known missingType :=
  fun _ hwatched => ⟨⟨hwatched.final, hwatched.counted, hwatched.gate⟩, fun honly => ⟨honly, trivial⟩⟩

/-! ### Reports -/

/-- A report on a chain is one more, and nothing else changes. -/
theorem Writes.reportChain {d : Diagnostic} {f : Unit → Parser β}
    (hf : ∀ s', Spent s [] [d] s' → Writes known (f ()) s' goal) :
    Writes known (Parser.report d >>= f) s goal := by
  intro hwatched
  have hwatched' : (s.report d).Watched known := by
    refine ⟨hwatched.final, ?_, fun honly => hwatched.gate honly.of_report⟩
    have hknown := hwatched.counted
    rw [ParserState.report, List.length_append]
    omega
  obtain ⟨hwatched'', h⟩ := hf (s.report d) ⟨rfl, rfl, rfl⟩ hwatched'
  refine ⟨hwatched'', fun honly => ?_⟩
  obtain ⟨hbefore, hgoal⟩ := h honly
  exact ⟨hbefore.of_report, hgoal⟩

theorem Writes.reportOnce {d : Diagnostic} (hother : ¬d.IsChain) :
    Writes known (reportOnce d) s fun _ _ => False := by
  intro hwatched
  have hloud : ¬(s.reportOnce d).OnlyChains known := hwatched.not_reportOnce hother
  have hknown : known ≤ (s.reportOnce d).diagnostics.length := by
    have hbefore := hwatched.counted
    unfold ParserState.reportOnce
    split
    · exact hbefore
    · show known ≤ (s.diagnostics ++ [d]).length
      rw [List.length_append]
      omega
  have hfinal : (s.reportOnce d).Ended := by
    rw [Ended, final_reportOnce]
    exact hwatched.final
  exact ⟨⟨hfinal, hknown, fun h => (hloud h).elim⟩, fun h => (hloud h).elim⟩

theorem Writes.expected {what : String} : Writes known (expected what) s fun _ _ => False :=
  Writes.peek (Writes.reportOnce (Diagnostic.not_isChain rfl))

theorem Writes.expectedWithHelp {what help : String} :
    Writes known (expectedWithHelp what help) s fun _ _ => False :=
  Writes.peek (Writes.reportOnce (Diagnostic.not_isChain rfl))

theorem Writes.missing {what context : String} {insertion : Option String} :
    Writes known (missing what context insertion) s fun _ _ => False := by
  intro hwatched
  unfold Parser.missing
  dsimp only
  split
  · exact Writes.reportOnce (Diagnostic.not_isChain rfl) hwatched
  · exact Writes.reportOnce (Diagnostic.not_isChain rfl) hwatched

/-! ### Consuming tokens -/

theorem Adds.synchronize (set : RecoverySet) : Adds known (synchronize set) :=
  fun _ hwatched => ⟨hwatched.skip _, fun honly => ⟨honly, trivial⟩⟩

/-- The current token is consumed unless it is the end of the file. -/
theorem Writes.advance {f : Token → Parser β} (hcurrent : s.current.isEndOfFile = false)
    (hf : ∀ s', Spent s [s.current] [] s' → Writes known (f s.current) s' goal) :
    Writes known (Parser.advance >>= f) s goal := by
  intro hwatched
  have hspent : Spent s [s.current] [] (s.skip 1) := by
    refine ⟨?_, rfl, (List.append_nil _).symm⟩
    cases hrest : s.rest with
    | nil =>
        have hfinal : s.current = s.final := by simp [current, tokenAt, hrest]
        have hended : s.final.isEndOfFile = true := hwatched.final
        rw [hfinal, hended] at hcurrent
        cases hcurrent
    | cons token rest => simp [current, tokenAt, ParserState.skip, hrest]
  rw [advance_bind hcurrent]
  exact hf (s.skip 1) hspent (hwatched.skip 1)

theorem Writes.advance_of {kind : TokenKind} {f : Token → Parser β} (hkind : s.current.kind = kind)
    (hend : kind ≠ .endOfFile)
    (hf : ∀ s', Spent s [s.current] [] s' → Writes known (f s.current) s' goal) :
    Writes known (Parser.advance >>= f) s goal :=
  Writes.advance (by simp [Token.isEndOfFile, hkind, hend]) hf

theorem Writes.accept {test : Token → Bool} {f : Bool → Parser β}
    (htest : ∀ token, test token = true → token.isEndOfFile = false)
    (hyes : test s.current = true → ∀ s', Spent s [s.current] [] s' → Writes known (f true) s' goal)
    (hno : test s.current = false → Writes known (f false) s goal) :
    Writes known (Parser.accept test >>= f) s goal := by
  rw [accept_bind]
  refine Writes.peek ?_
  split
  · rename_i hpass
    exact Writes.advance (htest _ hpass) (hyes hpass)
  · rename_i hfail
    exact hno (by simpa using hfail)

theorem Writes.acceptPunctuation {mark : Punctuation} {f : Bool → Parser β}
    (hyes : s.current.kind = .punctuation mark → ∀ s', Spent s [s.current] [] s' →
      Writes known (f true) s' goal)
    (hno : s.current.isPunctuation mark = false → Writes known (f false) s goal) :
    Writes known (Parser.acceptPunctuation mark >>= f) s goal := by
  refine Writes.accept (fun token h => ?_) (fun h => ?_) hno
  · simp only [Token.isPunctuation, beq_iff_eq] at h
    simp [Token.isEndOfFile, h]
  · exact hyes (by simpa [Token.isPunctuation] using h)

theorem Writes.acceptOperator {op : Operator} {f : Bool → Parser β}
    (hyes : s.current.kind = .operator op → ∀ s', Spent s [s.current] [] s' →
      Writes known (f true) s' goal)
    (hno : Writes known (f false) s goal) : Writes known (Parser.acceptOperator op >>= f) s goal := by
  refine Writes.accept (fun token h => ?_) (fun h => ?_) fun _ => hno
  · simp only [Token.isOperator, beq_iff_eq] at h
    simp [Token.isEndOfFile, h]
  · exact hyes (by simpa [Token.isOperator] using h)

theorem Adds.acceptPunctuation (mark : Punctuation) : Adds known (acceptPunctuation mark) :=
  fun _ => Writes.of_bind_pure (Writes.acceptPunctuation
    (fun _ _ _ => Writes.pure trivial) fun _ => Writes.pure trivial)

theorem Adds.acceptOperator (op : Operator) : Adds known (acceptOperator op) :=
  fun _ => Writes.of_bind_pure (Writes.acceptOperator
    (fun _ _ _ => Writes.pure trivial) (Writes.pure trivial))

/-- Just one token of this kind was consumed. -/
def Consumed (kind : TokenKind) (s s' : ParserState) : Prop :=
  ∃ token, token.kind = kind ∧ Spent s [token] [] s'

theorem Writes.expectPunctuation {mark : Punctuation} {context : String} {set : RecoverySet} :
    Writes known (expectPunctuation mark context set) s fun found s' =>
      found = true ∧ Consumed (.punctuation mark) s s' := by
  unfold Parser.expectPunctuation
  refine Writes.acceptPunctuation (fun hkind s' hs' => Writes.pure ⟨rfl, _, hkind, hs'⟩) fun _ => ?_
  refine Writes.fail Writes.missing fun recovery => ?_
  cases recovery with
  | insert => exact Adds.pure _
  | skip => exact Adds.bind (Adds.synchronize set) fun _ => Adds.acceptPunctuation mark

theorem Writes.expectOperator {op : Operator} {context : String} {set : RecoverySet} :
    Writes known (expectOperator op context set) s fun found s' =>
      found = true ∧ Consumed (.operator op) s s' := by
  unfold Parser.expectOperator
  refine Writes.acceptOperator (fun hkind s' hs' => Writes.pure ⟨rfl, _, hkind, hs'⟩) ?_
  refine Writes.fail Writes.missing fun _ => ?_
  exact Adds.bind (Adds.synchronize set) fun _ => Adds.acceptOperator op

/-! ### Loops -/

/-- What each turn of a loop keeps holds at its end. -/
theorem Writes.iterate {body : α → Parser (Turn α)} (inv : α → ParserState → Prop) {v : α}
    (hbody : ∀ v s', Writes known (body v) s' fun turn s'' => inv v s' → inv turn.value s'') :
    Writes known (iterate body v) s fun last s' => inv v s → inv last s' := by
  have halong : ∀ (turns : List Token) (v : α) (s : ParserState),
      Writes known (Parser.iterateAlong body turns v) s fun last s' => inv v s → inv last s' := by
    intro turns
    induction turns with
    | nil =>
        intro v s
        refine Writes.bind (hbody v s) fun turn s' => ?_
        cases turn with
        | again last => exact Writes.pure fun hturn => hturn
        | done last => exact Writes.pure fun hturn => hturn
    | cons token turns ih =>
        intro v s
        refine Writes.bind (hbody v s) fun turn s' => ?_
        cases turn with
        | again next => exact (ih next s').mono fun _ _ hrest hturn hv => hrest (hturn hv)
        | done last => exact Writes.pure fun hturn => hturn
  exact halong s.rest v s

end Parser

end BehaviorTree
