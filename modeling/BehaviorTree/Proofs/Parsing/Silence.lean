import BehaviorTree.Parsing.Recovery
import BehaviorTree.Proofs.Parsing.Words

/-!
# Silent runs

A run of a parser is silent if nothing has been reported by its end. Reports are never taken back,
so every prefix of a silent run is silent too. `Reads` is the judgement that carries this: whatever
happens, a parser takes tokens off the front of the coming ones, and if the run was silent then
nothing had been reported before it either and the tokens taken have a given form. Where a parser
reports, silence is contradicted and any form may be claimed.

The rules below run the elementary parsers one after another. Each hands on what is known of the
state behind the step.
-/

namespace BehaviorTree

/-! ### Skipping stops at the end of the file -/

namespace Skip

variable {before after : List Token} {last : Token}

theorem groupRest_append_le (hlast : last.isEndOfFile = true) (pending : List Punctuation) :
    groupRest pending (before ++ last :: after) ≤ before.length := by
  induction before generalizing pending with
  | nil => simp [groupRest, hlast]
  | cons token before ih =>
      rw [List.cons_append, groupRest]
      split
      · exact Nat.zero_le _
      · split
        · exact Nat.succ_le_succ (ih _)
        · exact Nat.zero_le _

theorem Counts.append_le {stops : Token → Bool} {countIn : List Punctuation → List Token → Nat}
    (h : Counts stops countIn) (hlast : last.isEndOfFile = true) (pending : List Punctuation) :
    countIn pending (before ++ last :: after) ≤ before.length := by
  induction before generalizing pending with
  | nil => simp [h.cons, hlast]
  | cons token before ih =>
      rw [List.cons_append, h.cons]
      split
      · exact Nat.zero_le _
      · split
        · exact Nat.succ_le_succ (ih _)
        · split
          · exact Nat.zero_le _
          · exact Nat.succ_le_succ (ih _)

theorem blockRest_append_le (hlast : last.isEndOfFile = true) (depth : Nat) :
    blockRest depth (before ++ last :: after) ≤ before.length := by
  induction before generalizing depth with
  | nil => simp [blockRest, hlast]
  | cons token before ih =>
      rw [List.cons_append]
      unfold blockRest
      split
      · exact Nat.zero_le _
      · split
        · exact Nat.succ_le_succ (ih _)
        · split
          · split
            · exact Nat.succ_le_succ (Nat.zero_le _)
            · exact Nat.succ_le_succ (Nat.zero_le _)
            · exact Nat.succ_le_succ (ih _)
          · exact Nat.succ_le_succ (ih _)

theorem group_append_le (hlast : last.isEndOfFile = true) :
    group (before ++ last :: after) ≤ before.length := by
  cases before with
  | nil =>
      rw [List.nil_append, group]
      split
      · rename_i hopens
        rw [Token.isEndOfFile_of_closer? hopens] at hlast
        cases hlast
      · exact Nat.le_refl 0
  | cons token before =>
      rw [List.cons_append, group]
      split
      · exact Nat.succ_le_succ (groupRest_append_le hlast _)
      · exact Nat.zero_le _

/-- A count of tokens to skip that never gets past the end of the file. -/
def Stops (count : List Token → Nat) : Prop :=
  ∀ (before after : List Token) (last : Token), last.isEndOfFile = true →
    count (before ++ last :: after) ≤ before.length

theorem stops_untilStop (set : RecoverySet) : Stops (untilStop set) :=
  fun _ _ _ hlast => (counts_untilStop set).append_le hlast []

theorem stops_header : Stops header := fun _ _ _ hlast => counts_header.append_le hlast []

theorem stops_block : Stops block := fun _ _ _ hlast => blockRest_append_le hlast 0

theorem stops_group : Stops group := fun _ _ _ hlast => group_append_le hlast

end Skip

namespace ParserState

/-- Nothing has been reported. -/
def Silent (state : ParserState) : Prop := state.diagnostics = []

/-- The end of the file is still to come, no character is left that makes no token, and a gated
report has left its trace. -/
structure Ready (state : ParserState) : Prop where
  final : state.final.isEndOfFile = true
  ended : ∃ before, state.rest = before ++ [state.final]
  known : ∀ token ∈ state.rest, token.kind ≠ .unknown
  gate : state.Silent → state.reportedAt = none

/-- The terminals to come. -/
def coming (state : ParserState) : List Terminal := state.rest.map Token.terminal

/-- Two states between which nothing was consumed or reported. -/
structure Still (state state' : ParserState) : Prop where
  rest : state'.rest = state.rest
  final : state'.final = state.final
  position : state'.position = state.position
  diagnostics : state'.diagnostics = state.diagnostics
  reportedAt : state'.reportedAt = state.reportedAt

variable {state state' : ParserState}

theorem Still.current (hstill : Still state state') : state'.current = state.current := by
  simp only [ParserState.current, tokenAt, hstill.rest, hstill.final]

theorem Still.silent (hstill : Still state state') : state'.Silent ↔ state.Silent := by
  rw [Silent, Silent, hstill.diagnostics]

theorem Still.ready (hstill : Still state state') (hready : state.Ready) : state'.Ready where
  final := hstill.final ▸ hready.final
  ended := hstill.final ▸ hstill.rest ▸ hready.ended
  known := hstill.rest ▸ hready.known
  gate hsilent := hstill.reportedAt ▸ hready.gate (hstill.silent.mp hsilent)

theorem current_skip_one (state : ParserState) : (state.skip 1).current = state.tokenAt 1 := by
  simp [ParserState.current, tokenAt, skip]

theorem Ready.rest_eq (hready : state.Ready) :
    state.rest = state.current :: (state.skip 1).rest := by
  obtain ⟨before, hrest⟩ := hready.ended
  unfold ParserState.current tokenAt
  cases before with
  | nil => simp [hrest, skip]
  | cons token before => simp [hrest, skip]

theorem Ready.skip (hready : state.Ready) {count : Nat}
    (hcount : ∀ before, state.rest = before ++ [state.final] → count ≤ before.length) :
    (state.skip count).Ready where
  final := hready.final
  ended := by
    obtain ⟨before, hrest⟩ := hready.ended
    refine ⟨before.drop count, ?_⟩
    change state.rest.drop count = _
    rw [hrest, List.drop_append_of_le_length (hcount before hrest)]
    rfl
  known _ hmem := hready.known _ (List.mem_of_mem_drop hmem)
  gate := hready.gate

/-- A token in front of the end of the file can be consumed. -/
theorem Ready.skip_one (hready : state.Ready) (hcurrent : state.current.isEndOfFile = false) :
    (state.skip 1).Ready := by
  refine hready.skip fun before hrest => ?_
  cases before with
  | nil =>
      have hfinal : state.current = state.final := by
        simp [ParserState.current, tokenAt, hrest]
      rw [hfinal, hready.final] at hcurrent
      cases hcurrent
  | cons token before => simp

/-- Where the same terminals come, a token of the same kind is at hand. -/
theorem Ready.current_kind_eq (hready : state.Ready) (hready' : state'.Ready)
    (hcoming : state.coming = state'.coming) : state'.current.kind = state.current.kind := by
  unfold coming at hcoming
  rw [hready.rest_eq, hready'.rest_eq] at hcoming
  exact congrArg Terminal.kind (List.head_eq_of_cons_eq hcoming).symm

theorem Ready.current_kind_ne (hready : state.Ready) : state.current.kind ≠ .unknown :=
  hready.known state.current (hready.rest_eq ▸ List.mem_cons_self)

theorem not_silent_report (diagnostic : Diagnostic) : ¬(state.report diagnostic).Silent := by
  simp [Silent, report]

/-- Where the gate suppresses a report, another one has been made. -/
theorem not_silent_reportOnce (hready : state.Ready) (diagnostic : Diagnostic) :
    ¬(state.reportOnce diagnostic).Silent := by
  unfold reportOnce
  split
  · rename_i hgate
    intro hsilent
    rw [hready.gate hsilent] at hgate
    cases hgate
  · exact not_silent_report diagnostic

end ParserState

namespace Parser

open ParserState

variable {α β : Type}

/-- From `s` the parser takes tokens off the front, and if it is silent then they, and what comes
behind them, have the given form. -/
def Reads (p : Parser α) (s : ParserState) (form : α → List Terminal → List Terminal → Prop) :
    Prop :=
  s.Ready → (p s).2.Ready ∧ ∃ tokens, s.rest = tokens ++ (p s).2.rest ∧
    s.position + tokens.length ≤ (p s).2.position ∧
    ((p s).2.Silent → s.Silent ∧ form (p s).1 (tokens.map Token.terminal) (p s).2.coming)

/-- From `s` the parser takes tokens off the front and takes no report back. -/
abbrev Recovers (p : Parser α) (s : ParserState) : Prop := Reads p s fun _ _ _ => True

variable {p : Parser α} {f : α → Parser β} {s : ParserState}
  {form form' : α → List Terminal → List Terminal → Prop}
  {goal : β → List Terminal → List Terminal → Prop}

theorem Reads.mono (hp : Reads p s form)
    (himp : ∀ a ts us, s.coming = ts ++ us → form a ts us → form' a ts us) :
    Reads p s form' := by
  intro hready
  obtain ⟨hready', tokens, hrest, hposition, hsilent⟩ := hp hready
  refine ⟨hready', tokens, hrest, hposition, fun h => ?_⟩
  obtain ⟨hs, hform⟩ := hsilent h
  exact ⟨hs, himp _ _ _ (by rw [coming, hrest, List.map_append, coming]) hform⟩

theorem Reads.recovers (hp : Reads p s form) : Recovers p s := hp.mono fun _ _ _ _ _ => trivial

theorem Reads.of_ready (h : s.Ready → Reads p s form) : Reads p s form :=
  fun hready => h hready hready

theorem Reads.pure {a : α} (h : form a [] s.coming) : Reads (pure a) s form :=
  fun hready => ⟨hready, [], rfl, Nat.le_refl _, fun hs => ⟨hs, h⟩⟩

theorem Recovers.pure (a : α) : Recovers (Pure.pure a) s := Reads.pure trivial

/-- A parser at the end of a block runs like one that is followed by returning its value. -/
theorem Reads.of_bind_pure (h : Reads (p >>= Pure.pure) s form) : Reads p s form := h

/-- One parser behind another, with what lies between them. -/
theorem Reads.bind_coming (hp : Reads p s form)
    (hf : ∀ a s', s'.rest.length ≤ s.rest.length →
      Reads (f a) s' fun b us vs =>
        ∀ ts, s.coming = ts ++ s'.coming → form a ts (us ++ vs) → goal b (ts ++ us) vs) :
    Reads (p >>= f) s goal := by
  intro hready
  obtain ⟨hready₁, tokens₁, hrest₁, hposition₁, hsilent₁⟩ := hp hready
  have hlength : (p s).2.rest.length ≤ s.rest.length := by
    rw [hrest₁, List.length_append]
    omega
  obtain ⟨hready₂, tokens₂, hrest₂, hposition₂, hsilent₂⟩ := hf (p s).1 (p s).2 hlength hready₁
  have hrest : s.rest = (tokens₁ ++ tokens₂) ++ (f (p s).1 (p s).2).2.rest := by
    rw [List.append_assoc, ← hrest₂, ← hrest₁]
  have hposition : s.position + (tokens₁ ++ tokens₂).length ≤ (f (p s).1 (p s).2).2.position := by
    rw [List.length_append]
    omega
  refine ⟨hready₂, tokens₁ ++ tokens₂, hrest, hposition, fun h => ?_⟩
  obtain ⟨hs₂, hform₂⟩ := hsilent₂ h
  obtain ⟨hs₁, hform₁⟩ := hsilent₁ hs₂
  refine ⟨hs₁, ?_⟩
  rw [List.map_append]
  refine hform₂ _ (by rw [coming, hrest₁, List.map_append, coming]) ?_
  simpa only [coming, hrest₂, List.map_append] using hform₁

/-- One parser behind another. What the first has read is available in the form of the second. -/
theorem Reads.bind (hp : Reads p s form)
    (hf : ∀ a s', s'.rest.length ≤ s.rest.length →
      Reads (f a) s' fun b us vs => ∀ ts, form a ts (us ++ vs) → goal b (ts ++ us) vs) :
    Reads (p >>= f) s goal :=
  Reads.bind_coming hp fun a s' hlength =>
    (hf a s' hlength).mono fun _ _ _ _ h ts _ => h ts

theorem Reads.map {g : α → β} (hp : Reads p s form)
    (hg : ∀ a ts us, form a ts us → goal (g a) ts us) : Reads (g <$> p) s goal := by
  refine Reads.bind (f := fun a => Pure.pure (g a)) hp fun a s' _ => Reads.pure fun ts hform => ?_
  rw [List.append_nil]
  exact hg a ts s'.coming hform

theorem Recovers.bind (hp : Recovers p s) (hf : ∀ a s', Recovers (f a) s') :
    Recovers (p >>= f) s :=
  Reads.bind hp fun a s' _ => (hf a s').mono fun _ _ _ _ _ _ _ => trivial

/-- A report in front of the rest of a run leaves nothing to show but that the rest recovers. -/
theorem Reads.bind_false (hp : Reads p s fun _ _ _ => False) (hf : ∀ a s', Recovers (f a) s') :
    Reads (p >>= f) s goal :=
  Reads.bind hp fun a s' _ => (hf a s').mono fun _ _ _ _ _ _ h => h.elim

/-! ### Steps that consume and report nothing -/

theorem Reads.pure_bind {a : α} (hf : Reads (f a) s goal) : Reads (Pure.pure a >>= f) s goal := hf

theorem Reads.still (hstill : Still s (p s).2)
    (hf : ∀ s', Still s s' → Reads (f (p s).1) s' goal) : Reads (p >>= f) s goal := by
  intro hready
  obtain ⟨hready', tokens, hrest, hposition, hsilent⟩ := hf (p s).2 hstill (hstill.ready hready)
  refine ⟨hready', tokens, hstill.rest ▸ hrest, hstill.position ▸ hposition, fun h => ?_⟩
  obtain ⟨hs, hform⟩ := hsilent h
  exact ⟨hstill.silent.mp hs, hform⟩

theorem Reads.peek {f : Token → Parser β} (hf : Reads (f s.current) s goal) :
    Reads (peek >>= f) s goal := hf

theorem Reads.peekSecond {f : Token → Parser β} (hf : Reads (f (s.tokenAt 1)) s goal) :
    Reads (peekSecond >>= f) s goal := hf

theorem Reads.atPunctuation {mark : Punctuation} {f : Bool → Parser β}
    (hf : Reads (f (s.current.isPunctuation mark)) s goal) :
    Reads (atPunctuation mark >>= f) s goal := hf

theorem Reads.atEnd {f : Bool → Parser β} (hf : Reads (f s.current.isEndOfFile) s goal) :
    Reads (atEnd >>= f) s goal := hf

theorem Reads.rangeSince {start : SourceRange} {f : SourceRange → Parser β}
    (hf : ∀ range, Reads (f range) s goal) : Reads (rangeSince start >>= f) s goal :=
  hf _

theorem Reads.intern {text : String} {f : Unit → Parser β}
    (hf : ∀ s', Still s s' → Reads (f ()) s' goal) : Reads (intern text >>= f) s goal :=
  Reads.still ⟨rfl, rfl, rfl, rfl, rfl⟩ hf

theorem Reads.nameOf {token : Token} {f : Name → Parser β}
    (hf : ∀ s', Still s s' → Reads (f ⟨token.text, token.range⟩) s' goal) :
    Reads (nameOf token >>= f) s goal :=
  Reads.still (p := Parser.nameOf token) ⟨rfl, rfl, rfl, rfl, rfl⟩ hf

theorem Reads.nameOf_self {token : Token} : Reads (Parser.nameOf token) s fun name ts _ =>
    name = ⟨token.text, token.range⟩ ∧ ts = [] :=
  Reads.of_bind_pure (Reads.nameOf fun _ _ => Reads.pure ⟨rfl, rfl⟩)

theorem Reads.newExpr {range : SourceRange} {build : Origin → Expr} {f : Expr → Parser β}
    (hf : ∀ origin s', Still s s' → Reads (f (build origin)) s' goal) :
    Reads (newExpr range build >>= f) s goal :=
  Reads.still (p := Parser.newExpr range build) ⟨rfl, rfl, rfl, rfl, rfl⟩ (hf _)

theorem Reads.newType {range : SourceRange} {build : Origin → TypeExpr} {f : TypeExpr → Parser β}
    (hf : ∀ origin s', Still s s' → Reads (f (build origin)) s' goal) :
    Reads (newType range build >>= f) s goal :=
  Reads.still (p := Parser.newType range build) ⟨rfl, rfl, rfl, rfl, rfl⟩ (hf _)

theorem Reads.widenExpr {expr : Expr} {range : SourceRange} {f : Expr → Parser β}
    (hf : ∀ s', Still s s' → Reads (f (expr.withRange range)) s' goal) :
    Reads (widenExpr expr range >>= f) s goal :=
  Reads.still (p := Parser.widenExpr expr range) ⟨rfl, rfl, rfl, rfl, rfl⟩ hf

theorem Reads.newStmt {range : SourceRange} {build : Origin → Stmt} :
    Reads (newStmt range build) s fun stmt ts _ => (∃ origin, stmt = build origin) ∧ ts = [] :=
  Reads.still (p := Parser.newStmt range build) (f := Pure.pure) ⟨rfl, rfl, rfl, rfl, rfl⟩
    fun _ _ => Reads.pure ⟨⟨_, rfl⟩, rfl⟩

theorem Reads.newDecl {range : SourceRange} {build : Origin → Decl} :
    Reads (newDecl range build) s fun decl ts _ => (∃ origin, decl = build origin) ∧ ts = [] :=
  Reads.still (p := Parser.newDecl range build) (f := Pure.pure) ⟨rfl, rfl, rfl, rfl, rfl⟩
    fun _ _ => Reads.pure ⟨⟨_, rfl⟩, rfl⟩

theorem Recovers.missingExpr : Recovers missingExpr s :=
  Reads.still (p := Parser.missingExpr) ⟨rfl, rfl, rfl, rfl, rfl⟩ fun _ _ => Recovers.pure _

theorem Recovers.missingType : Recovers missingType s :=
  Reads.still (p := Parser.missingType) ⟨rfl, rfl, rfl, rfl, rfl⟩ fun _ _ => Recovers.pure _

/-! ### Reports -/

theorem Reads.report {diagnostic : Diagnostic} :
    Reads (report diagnostic) s fun _ _ _ => False :=
  fun hready => ⟨⟨hready.final, hready.ended, hready.known,
    fun h => (not_silent_report diagnostic h).elim⟩, [], rfl, Nat.le_refl _, fun h => (not_silent_report diagnostic h).elim⟩

theorem Reads.reportOnce {diagnostic : Diagnostic} :
    Reads (reportOnce diagnostic) s fun _ _ _ => False := by
  intro hready
  have hrest := rest_reportOnce s diagnostic
  have hfinal := final_reportOnce s diagnostic
  have hposition := position_reportOnce s diagnostic
  have hloud : ¬(s.reportOnce diagnostic).Silent := not_silent_reportOnce hready diagnostic
  have hready' : (s.reportOnce diagnostic).Ready :=
    ⟨hfinal ▸ hready.final, hfinal ▸ hrest ▸ hready.ended, hrest ▸ hready.known,
      fun h => (hloud h).elim⟩
  exact ⟨hready', [], hrest.symm, Nat.le_of_eq hposition.symm, fun h => (hloud h).elim⟩

theorem Reads.expected {what : String} : Reads (expected what) s fun _ _ _ => False :=
  Reads.peek Reads.reportOnce

theorem Reads.expectedWithHelp {what help : String} :
    Reads (expectedWithHelp what help) s fun _ _ _ => False :=
  Reads.peek Reads.reportOnce

/-! ### Consuming tokens -/

theorem Recovers.skip {count : List Token → Nat} (hstops : Skip.Stops count) :
    Recovers (skip count) s := by
  intro hready
  have hready' : (s.skip (count s.rest)).Ready := by
    refine hready.skip fun before hrest => ?_
    rw [hrest]
    exact hstops before [] s.final hready.final
  refine ⟨hready', s.rest.take (count s.rest), (List.take_append_drop _ _).symm, ?_,
    fun h => ⟨h, trivial⟩⟩
  have hlength := List.length_take_le (count s.rest) s.rest
  exact Nat.add_le_add_left hlength s.position

theorem Recovers.synchronize {set : RecoverySet} : Recovers (synchronize set) s :=
  Recovers.skip (Skip.stops_untilStop set)

/-- The current token is consumed unless it is the end of the file. -/
theorem Reads.advance_skip {f : Token → Parser β} (hcurrent : s.current.isEndOfFile = false)
    (hf : (s.skip 1).rest.length + 1 = s.rest.length →
      Reads (f s.current) (s.skip 1) fun b us vs => goal b (s.current.terminal :: us) vs) :
    Reads (Parser.advance >>= f) s goal := by
  intro hready
  have hrest := hready.rest_eq
  have hrun : (Parser.advance >>= f) s = f s.current (s.skip 1) := by
    change f s.current (if s.current.isEndOfFile then s else s.skip 1) = _
    rw [hcurrent]
    rfl
  obtain ⟨hready', tokens, hrest', hposition, hsilent⟩ :=
    hf (by rw [hrest, List.length_cons]) (hready.skip_one hcurrent)
  rw [hrun]
  refine ⟨hready', s.current :: tokens, by rw [hrest, hrest', List.cons_append], ?_, hsilent⟩
  have hskipped : (s.skip 1).position = s.position + 1 := rfl
  rw [List.length_cons]
  omega

theorem Reads.advance {f : Token → Parser β} (hcurrent : s.current.isEndOfFile = false)
    (hf : ∀ s', s'.rest.length + 1 = s.rest.length →
      Reads (f s.current) s' fun b us vs => goal b (s.current.terminal :: us) vs) :
    Reads (Parser.advance >>= f) s goal :=
  Reads.advance_skip hcurrent (hf (s.skip 1))

theorem Reads.advance_of {kind : TokenKind} {f : Token → Parser β} (hkind : s.current.kind = kind)
    (hend : kind ≠ .endOfFile) (hname : kind ≠ .identifier)
    (hf : ∀ s', s'.rest.length + 1 = s.rest.length →
      Reads (f s.current) s' fun b us vs => goal b (.of kind :: us) vs) :
    Reads (Parser.advance >>= f) s goal := by
  refine Reads.advance (by simp [Token.isEndOfFile, hkind, hend]) fun s' hlength => ?_
  rw [Token.terminal_eq_of hkind hname]
  exact hf s' hlength

theorem Reads.advance_name {f : Token → Parser β} (hkind : s.current.kind = .identifier)
    (hf : ∀ s', s'.rest.length + 1 = s.rest.length →
      Reads (f s.current) s' fun b us vs => goal b (.name s.current.text :: us) vs) :
    Reads (Parser.advance >>= f) s goal := by
  refine Reads.advance (by simp [Token.isEndOfFile, hkind]) fun s' hlength => ?_
  rw [Token.terminal_eq_name hkind]
  exact hf s' hlength

theorem Recovers.advance : Recovers advance s := by
  cases hcurrent : s.current.isEndOfFile with
  | true =>
      intro hready
      have hrun : Parser.advance s = (s.current, s) := by
        change (s.current, if s.current.isEndOfFile then s else s.skip 1) = _
        rw [hcurrent]
        rfl
      rw [hrun]
      exact ⟨hready, [], rfl, Nat.le_refl _, fun h => ⟨h, trivial⟩⟩
  | false => exact Reads.of_bind_pure (Reads.advance hcurrent fun s' _ => Recovers.pure _)

theorem Reads.accept {test : Token → Bool} {f : Bool → Parser β}
    (htest : ∀ token, test token = true → token.isEndOfFile = false)
    (hyes : test s.current = true → ∀ s', s'.rest.length + 1 = s.rest.length →
      Reads (f true) s' fun b us vs => goal b (s.current.terminal :: us) vs)
    (hno : test s.current = false → Reads (f false) s goal) :
    Reads (Parser.accept test >>= f) s goal := by
  have hrun : ∀ b, test s.current = b → (Parser.accept test >>= f) s =
      ((if b then (do let _ ← Parser.advance; Pure.pure true) else Pure.pure false) >>= f) s := by
    rintro b rfl
    rfl
  cases hpass : test s.current with
  | true =>
      intro hready
      have hreads : Reads (Parser.advance >>= fun _ => f true) s goal :=
        Reads.advance (htest _ hpass) fun s' hlength => hyes hpass s' hlength
      have hrun' : (Parser.accept test >>= f) s = (Parser.advance >>= fun _ => f true) s := by
        rw [hrun true hpass]
        rfl
      rw [hrun']
      exact hreads hready
  | false =>
      intro hready
      have hrun' : (Parser.accept test >>= f) s = f false s := by
        rw [hrun false hpass]
        rfl
      rw [hrun']
      exact hno hpass hready

theorem isEndOfFile_of_isPunctuation {mark : Punctuation} {token : Token}
    (h : token.isPunctuation mark = true) : token.isEndOfFile = false := by
  simp only [Token.isPunctuation, beq_iff_eq] at h
  simp [Token.isEndOfFile, h]

theorem isEndOfFile_of_isOperator {op : Operator} {token : Token}
    (h : token.isOperator op = true) : token.isEndOfFile = false := by
  simp only [Token.isOperator, beq_iff_eq] at h
  simp [Token.isEndOfFile, h]

theorem Reads.acceptPunctuation {mark : Punctuation} {f : Bool → Parser β}
    (hyes : ∀ s', s'.rest.length + 1 = s.rest.length →
      Reads (f true) s' fun b us vs => goal b (.mark mark :: us) vs)
    (hno : s.current.isPunctuation mark = false → Reads (f false) s goal) :
    Reads (acceptPunctuation mark >>= f) s goal := by
  refine Reads.accept (fun _ => isEndOfFile_of_isPunctuation) (fun h s' hlength => ?_) hno
  have hkind : s.current.kind = .punctuation mark := by
    simpa [Token.isPunctuation] using h
  rw [Token.terminal_eq_of hkind (by simp)]
  exact hyes s' hlength

theorem Reads.acceptOperator {op : Operator} {f : Bool → Parser β}
    (hyes : ∀ s', s'.rest.length + 1 = s.rest.length →
      Reads (f true) s' fun b us vs => goal b (.op op :: us) vs)
    (hno : s.current.isOperator op = false → Reads (f false) s goal) :
    Reads (acceptOperator op >>= f) s goal := by
  refine Reads.accept (fun _ => isEndOfFile_of_isOperator) (fun h s' hlength => ?_) hno
  have hkind : s.current.kind = .operator op := by
    simpa [Token.isOperator] using h
  rw [Token.terminal_eq_of hkind (by simp)]
  exact hyes s' hlength

theorem Recovers.acceptPunctuation {mark : Punctuation} : Recovers (acceptPunctuation mark) s :=
  Reads.of_bind_pure (Reads.acceptPunctuation (fun _ _ => Recovers.pure _)
    fun _ => Recovers.pure _)

theorem Recovers.acceptOperator {op : Operator} : Recovers (acceptOperator op) s :=
  Reads.of_bind_pure (Reads.acceptOperator (fun _ _ => Recovers.pure _)
    fun _ => Recovers.pure _)

/-! ### Loops -/

/-- The turns of a loop from one value to another and the terminals read in them. Behind each turn
stands what is still to come. -/
inductive Iterated (turn : α → Turn α → List Terminal → List Terminal → Prop) :
    α → α → List Terminal → List Terminal → Prop
  | done {first last ts vs} : turn first (.done last) ts vs → Iterated turn first last ts vs
  | again {first next last ts us vs} :
    turn first (.again next) ts (us ++ vs) → Iterated turn next last us vs →
    Iterated turn first last (ts ++ us) vs

section Loop

variable {body : α → Parser (Turn α)}
  {turn : α → Turn α → List Terminal → List Terminal → Prop} {bound : Nat}

/-- Each turn that asks for another one consumes a token, so the turns never run out. -/
theorem Reads.iterateAlong (hprogress : ∀ v w vs, ¬turn v (.again w) [] vs)
    (hbody : ∀ v s', s'.rest.length ≤ bound → Reads (body v) s' (turn v)) :
    ∀ (turns : List Token) (v : α) (s : ParserState), s.rest.length ≤ bound →
      Reads (iterateAlong body turns v) s fun last ts vs =>
        s.rest.length ≤ turns.length → Iterated turn v last ts vs := by
  intro turns
  induction turns with
  | nil =>
      intro v s hbound
      refine Reads.bind_coming (hbody v s hbound) fun result s' _ => ?_
      cases result with
      | again last =>
          refine Reads.pure fun ts hcoming hturn hturns => ?_
          have hempty : s.coming = [] := by
            rw [coming, List.eq_nil_of_length_eq_zero (Nat.le_zero.mp hturns), List.map_nil]
          obtain ⟨rfl, -⟩ := List.append_eq_nil_iff.mp (hcoming ▸ hempty)
          exact (hprogress v last _ hturn).elim
      | done last =>
          refine Reads.pure fun ts _ hturn _ => ?_
          rw [List.append_nil]
          exact .done hturn
  | cons token turns ih =>
      intro v s hbound
      refine Reads.bind_coming (hbody v s hbound) fun result s' hlength => ?_
      cases result with
      | again next =>
          refine (ih next s' (Nat.le_trans hlength hbound)).mono
            fun last us vs _ hrest ts hcoming hturn hturns => ?_
          have hsome : ts ≠ [] := by
            rintro rfl
            exact hprogress v next _ hturn
          have hshorter : s'.rest.length < s.rest.length := by
            have hlengths := congrArg List.length hcoming
            have hpositive := List.length_pos_iff.mpr hsome
            simp only [coming, List.length_append, List.length_map] at hlengths
            omega
          rw [List.length_cons] at hturns
          exact .again hturn (hrest (by omega))
      | done last =>
          refine Reads.pure fun ts _ hturn _ => ?_
          rw [List.append_nil]
          exact .done hturn

theorem Reads.iterate (turn : α → Turn α → List Terminal → List Terminal → Prop) {v : α}
    (hprogress : ∀ v w vs, ¬turn v (.again w) [] vs)
    (hbody : ∀ v s', s'.rest.length ≤ s.rest.length → Reads (body v) s' (turn v)) :
    Reads (iterate body v) s (Iterated turn v) :=
  (Reads.iterateAlong hprogress hbody s.rest v s (Nat.le_refl _)).mono
    fun _ _ _ _ h => h (Nat.le_refl _)

theorem Recovers.iterate {v : α} (hbody : ∀ v s', Recovers (body v) s') :
    Recovers (iterate body v) s := by
  have halong : ∀ (turns : List Token) (v : α) (s' : ParserState),
      Recovers (Parser.iterateAlong body turns v) s' := by
    intro turns
    induction turns with
    | nil =>
        intro v s'
        refine Recovers.bind (hbody v s') fun result s'' => ?_
        cases result with
        | again last => exact Recovers.pure last
        | done last => exact Recovers.pure last
    | cons token turns ih =>
        intro v s'
        refine Recovers.bind (hbody v s') fun result s'' => ?_
        cases result with
        | again next => exact ih next s''
        | done last => exact Recovers.pure last
  exact halong s.rest v s

end Loop

end Parser

end BehaviorTree
