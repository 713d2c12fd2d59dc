import BehaviorTree.Parsing.Declaration
import BehaviorTree.Proofs.Parsing.Precedence
import BehaviorTree.Proofs.Parsing.TermsWritten
import BehaviorTree.Proofs.Parsing.Terminators
import Mathlib

/-!
# Chains

A chain of operators that do not group is reported at its second operator. Each run of the loops over
the layers reports one chain at most: it remembers whether it has. So a chain goes unreported just if
another one stands in front of it, in its first operand and not in parentheses.
-/

namespace BehaviorTree

open ParserState

theorem SyntaxReport.labels_chainedComparison {second first : SourceRange}
    (hsecond : second.isLocated = true) (hfirst : first.isLocated = true) :
    (chainedComparison second first).labels =
      [⟨second, .primary, "second operator of the chain"⟩,
        ⟨first, .secondary, "first operator"⟩] := by
  simp [chainedComparison, Diagnostic.withHelp, Diagnostic.withSecondary, Diagnostic.withLabel,
    Diagnostic.withCode, Diagnostic.error, Diagnostic.new, Diagnostic.setPrimaryMessage,
    Label.isPrimary, hsecond, hfirst]

/-! ### Operators that meet -/

theorem Token.singleLayer?_eq_some_iff {token : Token} {layer : Nat} :
    token.singleLayer? = some layer ↔
      ∃ op, token.binaryOpOn? layer = some op ∧ op.operator.associativity = .none := by
  unfold singleLayer? binaryOpOn?
  simp only [Option.map_eq_some_iff, Option.filter_eq_some_iff, decide_eq_true_eq, beq_iff_eq]
  constructor
  · rintro ⟨op, ⟨hop, hnone⟩, hlayer⟩
    exact ⟨op, ⟨hop, hlayer⟩, hnone⟩
  · rintro ⟨op, ⟨hop, hlayer⟩, hnone⟩
    exact ⟨op, ⟨hop, hnone⟩, hlayer⟩

namespace Written

variable {w left right : Written} {operator next : Token} {layer : Nat} {layers : List Nat}

/-- An operator of the expression outside of parentheses, if it is one of an operator, is on one of
the layers. -/
def On (layers : List Nat) : Written → Prop
  | .binary _ operator _ => ∃ layer ∈ layers, (operator.binaryOpOn? layer).isSome = true
  | _ => True

theorem On.mono {more : List Nat} (h : w.On layers) (hmore : ∀ layer ∈ layers, layer ∈ more) :
    w.On more := by
  cases w with
  | binary left operator right =>
      obtain ⟨layer, hmem, hop⟩ := h
      exact ⟨layer, hmore layer hmem, hop⟩
  | token _ | row _ => trivial

/-- Two operators meet if they are on one layer and the first does not group. -/
theorem meets_binary_iff {op : BinaryOp} (hop : operator.binaryOpOn? layer = some op) :
    (Written.binary left operator right).meets next = true ↔
      op.operator.associativity = .none ∧ (next.binaryOpOn? layer).isSome = true := by
  have hlayer := (Token.kind_of_binaryOpOn? hop).2
  have hfirst : ∀ other : Nat, operator.singleLayer? = some other ↔
      other = layer ∧ op.operator.associativity = .none := by
    intro other
    rw [Token.singleLayer?_eq_some_iff]
    constructor
    · rintro ⟨op', hop', hnone⟩
      obtain ⟨hsame, hother⟩ := Token.binaryOpOn?_eq_some_iff.mp hop'
      have hboth := (Token.binaryOpOn?_eq_some_iff.mp hop).1.symm.trans hsame
      obtain rfl : op = op' := Option.some.inj hboth
      exact ⟨hother.symm.trans hlayer, hnone⟩
    · rintro ⟨rfl, hnone⟩
      exact ⟨op, hop, hnone⟩
  simp only [meets, Bool.and_eq_true, Option.isSome_iff_exists, beq_iff_eq]
  constructor
  · rintro ⟨⟨other, hother⟩, hsame⟩
    obtain ⟨rfl, hnone⟩ := (hfirst other).mp hother
    obtain ⟨op', hop', -⟩ := Token.singleLayer?_eq_some_iff.mp (hsame.symm.trans hother)
    exact ⟨hnone, op', hop'⟩
  · rintro ⟨hnone, op', hop'⟩
    have hboth := (hfirst layer).mpr ⟨rfl, hnone⟩
    have hnone' : op'.operator.associativity = .none := by
      rw [← hnone]
      exact Operator.associativity_eq_of_precedence_eq
        ((Token.kind_of_binaryOpOn? hop').2.trans hlayer.symm) op'.precedence_pos
    exact ⟨⟨layer, hboth⟩, hboth.trans (Token.singleLayer?_eq_some_iff.mpr ⟨op', hop', hnone'⟩).symm⟩

/-- Where no operator of the layers comes, none meets the one of the expression. -/
theorem On.not_meets (h : w.On layers) (hnext : ∀ layer ∈ layers, next.binaryOpOn? layer = none) :
    w.meets next = false := by
  cases w with
  | binary left operator right =>
      obtain ⟨layer, hmem, hop⟩ := h
      obtain ⟨op, hop⟩ := Option.isSome_iff_exists.mp hop
      rw [Bool.eq_false_iff, Ne, meets_binary_iff hop, hnext layer hmem]
      rintro ⟨-, hsome⟩
      cases hsome
  | token _ | row _ => rfl

theorem opened_binary : (Written.binary left operator right).opened next =
    if (Written.binary left operator right).meets next && !left.meets operator then
      [⟨operator, next, left.chained⟩]
    else [] := rfl

theorem opened_of_not_meets (h : w.meets next = false) : w.opened next = [] := by
  cases w with
  | binary left operator right => rw [opened_binary, h, Bool.false_and, if_neg nofun]
  | token _ | row _ => rfl

/-- Behind a chain, or where one goes on, there is no other to report. -/
theorem reportsOf_opened (h : (left.chained || left.meets operator) = true) :
    reportsOf ((Written.binary left operator right).opened next) = [] := by
  rw [opened_binary]
  cases hmeets : left.meets operator with
  | true => rw [Bool.not_true, Bool.and_false, if_neg nofun, reportsOf, List.filter_nil, List.map_nil]
  | false =>
      rw [hmeets, Bool.or_false] at h
      split <;> simp [reportsOf, h]

/-- A chain in the left operands is one of the chains. -/
theorem chains_ne_nil_of_chained : ∀ w : Written, w.chained = true → w.chains ≠ []
  | .token _, h | .row _, h => nomatch h
  | .binary left operator right, h => by
      rw [chained, Bool.or_eq_true] at h
      rw [chains]
      by_cases hchained : left.chained = true
      · exact List.append_ne_nil_of_left_ne_nil (chains_ne_nil_of_chained left hchained) _
      · have hmeets := h.resolve_right hchained
        cases left with
        | token _ | row _ => cases hmeets
        | binary start first middle =>
            have hstart : start.meets first = false := by
              rw [chained, Bool.or_eq_true, not_or] at hchained
              simpa using hchained.1
            simp [opened_binary, hmeets, hstart]

/-- A chain is not shadowed if its first operand has no chain. -/
theorem unshadowed_of_mem_opened {chain : ChainStart} (hempty : left.chains = [])
    (hmem : chain ∈ left.opened operator) : chain.shadowed = false := by
  cases left with
  | token _ | row _ => cases hmem
  | binary start first middle =>
      rw [opened_binary] at hmem
      split at hmem
      · obtain rfl := List.mem_singleton.mp hmem
        rw [Bool.eq_false_iff]
        intro hchained
        rw [chains, List.append_eq_nil_iff] at hempty
        exact chains_ne_nil_of_chained start hchained hempty.1
      · cases hmem

/-- The first chain is reported. -/
theorem reportsOf_opened_first (hchained : left.chained = false) (hold : left.meets operator = false)
    (hnew : (Written.binary left operator right).meets next = true) :
    reportsOf ((Written.binary left operator right).opened next) =
      [SyntaxReport.chainedComparison next.range operator.range] := by
  simp [opened_binary, hnew, hold, hchained, reportsOf, ChainStart.report]

mutual

/-- Of the chains in an expression one is not shadowed by another. -/
theorem exists_unshadowed : ∀ w : Written, w.chains ≠ [] →
    ∃ chain ∈ w.chains, chain.shadowed = false
  | .token _, hsome => absurd rfl hsome
  | .row parts, hsome => exists_unshadowed_of parts hsome
  | .binary left operator right, hsome => by
      have hleft := exists_unshadowed left
      have hright := exists_unshadowed right
      rw [chains] at hsome ⊢
      by_cases hempty : left.chains = []
      · rw [hempty, List.nil_append] at hsome ⊢
        cases hopened : left.opened operator with
        | nil =>
            rw [hopened, List.nil_append] at hsome
            simpa using hright hsome
        | cons chain more =>
            refine ⟨chain, List.mem_append_left _ List.mem_cons_self, ?_⟩
            exact unshadowed_of_mem_opened hempty (hopened ▸ List.mem_cons_self)
      · obtain ⟨chain, hmem, hshadowed⟩ := hleft hempty
        exact ⟨chain, List.mem_append_left _ hmem, hshadowed⟩

theorem exists_unshadowed_of : ∀ parts : List Written, chainsOf parts ≠ [] →
    ∃ chain ∈ chainsOf parts, chain.shadowed = false
  | [], hsome => absurd rfl hsome
  | part :: parts, hsome => by
      have hpart := exists_unshadowed part
      have hparts := exists_unshadowed_of parts
      rw [chainsOf] at hsome ⊢
      by_cases hempty : part.chains = []
      · rw [hempty, List.nil_append] at hsome ⊢
        exact hparts hsome
      · obtain ⟨chain, hmem, hshadowed⟩ := hpart hempty
        exact ⟨chain, List.mem_append_left _ hmem, hshadowed⟩

end

/-- Where there is a chain, there is a report. -/
theorem reportsOf_eq_nil_iff : reportsOf w.chains = [] ↔ w.chains = [] := by
  rw [reportsOf, List.map_eq_nil_iff, List.filter_eq_nil_iff]
  constructor
  · intro hall
    apply Classical.byContradiction
    intro hsome
    obtain ⟨chain, hmem, hshadowed⟩ := exists_unshadowed w hsome
    exact hall chain hmem (by rw [hshadowed]; rfl)
  · intro hempty
    rw [hempty]
    exact List.forall_mem_nil _

theorem reportsOf_append (chains later : List ChainStart) :
    reportsOf (chains ++ later) = reportsOf chains ++ reportsOf later := by
  simp [reportsOf]

end Written

/-- The left side of a chain was written so far. The chain that the next operator goes on with is
reported already, and the loop remembers if there is or was one. -/
def ChainWritten (layers : List Nat) (s : ParserState) (chain : Chain) (s' : ParserState) : Prop :=
  ∃ w : Written, w.Of chain.left ∧ w.On layers ∧
    Spent s w.tokens (Written.reportsOf (w.chains ++ w.opened s'.current)) s' ∧
    chain.reported = (w.chained || w.meets s'.current)

/-- An operator and its operands were written behind what the loop remembers. A chain that goes on
behind them is not reported yet. -/
def NodeWritten (operator : Token) (s : ParserState) (chain : Chain) (s' : ParserState) : Prop :=
  ∃ left right : Written, (Written.binary left operator right).Of chain.left ∧
    Spent s (Written.binary left operator right).tokens
      (Written.reportsOf (Written.binary left operator right).chains) s' ∧
    chain.reported = (left.chained || left.meets operator)

section States

variable {layers : List Nat} {layer : Nat} {s s' s₁ s₂ s₃ : ParserState} {chain right : Chain}
  {operator : Token} {op : BinaryOp}

theorem ChainWritten.length_le (h : ChainWritten layers s chain s') :
    s'.rest.length ≤ s.rest.length := by
  obtain ⟨w, -, -, hspent, -⟩ := h
  exact hspent.length_le

theorem ChainWritten.mono {more : List Nat} (h : ChainWritten layers s chain s')
    (hmore : ∀ layer ∈ layers, layer ∈ more) : ChainWritten more s chain s' := by
  obtain ⟨w, hof, hon, hspent, hreported⟩ := h
  exact ⟨w, hof, hon.mono hmore, hspent, hreported⟩

/-- A right operand without an operator behind it that goes on with it has no chain left open. -/
theorem ChainWritten.settled (h : ChainWritten layers s chain s')
    (hsettled : Parser.Settled layers s') :
    ∃ w : Written, w.Of chain.left ∧ Spent s w.tokens (Written.reportsOf w.chains) s' := by
  obtain ⟨w, hof, hon, hspent, -⟩ := h
  rw [Written.opened_of_not_meets (hon.not_meets hsettled), List.append_nil] at hspent
  exact ⟨w, hof, hspent⟩

/-- The next operator and its right operand come behind the left side. -/
theorem ChainWritten.node {more : List Nat} (origin : Origin) (h : ChainWritten more s chain s₁)
    (hkind : s₁.current.kind = .operator op.operator) (hoperator : Spent s₁ [s₁.current] [] s₂)
    (hright : ChainWritten layers s₂ right s₃) (hsettled : Parser.Settled layers s₃)
    (hbehind : Spent s₃ [] [] s') :
    NodeWritten s₁.current s ⟨.binary origin op chain.left right.left, chain.reported⟩ s' := by
  obtain ⟨wl, hofl, -, hspentl, hreported⟩ := h
  obtain ⟨wr, hofr, hspentr⟩ := hright.settled hsettled
  refine ⟨wl, wr, .binary origin op hofl hkind hofr, ?_, hreported⟩
  have hall := (hspentl.trans hoperator).trans (hspentr.trans hbehind)
  simpa [Written.tokens, Written.chains, Written.reportsOf_append] using hall

/-- A chain that goes on behind the node is reported if the loop remembers none. -/
theorem NodeWritten.reported (h : NodeWritten operator s chain s')
    (hop : operator.binaryOpOn? layer = some op) (hnone : op.operator.associativity = .none)
    (hfresh : chain.reported = false) (hnext : (s'.current.binaryOpOn? layer).isSome = true)
    (hreport : Spent s' [] [SyntaxReport.chainedComparison s'.current.range operator.range] s₁) :
    ChainWritten (layer :: layers) s ⟨chain.left, true⟩ s₁ := by
  obtain ⟨wl, wr, hof, hspent, hreported⟩ := h
  obtain ⟨hchained, hold⟩ : wl.chained = false ∧ wl.meets operator = false := by
    rwa [← Bool.or_eq_false_iff, ← hreported]
  have hmeets : (Written.binary wl operator wr).meets s'.current = true :=
    (Written.meets_binary_iff hop).mpr ⟨hnone, hnext⟩
  have hon : (Written.binary wl operator wr).On (layer :: layers) :=
    ⟨layer, List.mem_cons_self, by rw [hop]; rfl⟩
  refine ⟨_, hof, hon, ?_, ?_⟩
  · rw [hreport.current, Written.reportsOf_append,
      Written.reportsOf_opened_first hchained hold hmeets]
    simpa using hspent.trans hreport
  · rw [hreport.current, hmeets, Bool.or_true]

/-- Otherwise no chain goes on behind the node, or one was reported before. -/
theorem NodeWritten.unreported (h : NodeWritten operator s chain s')
    (hop : operator.binaryOpOn? layer = some op)
    (hold : ¬(op.operator.associativity = .none ∧ chain.reported = false ∧
      (s'.current.binaryOpOn? layer).isSome = true)) :
    ChainWritten (layer :: layers) s chain s' := by
  obtain ⟨wl, wr, hof, hspent, hreported⟩ := h
  have hon : (Written.binary wl operator wr).On (layer :: layers) :=
    ⟨layer, List.mem_cons_self, by rw [hop]; rfl⟩
  have hbefore : (Written.binary wl operator wr).meets s'.current = true →
      chain.reported = true := by
    intro hmeets
    obtain ⟨hnone, hnext⟩ := (Written.meets_binary_iff hop).mp hmeets
    simpa [hnone, hnext] using hold
  refine ⟨_, hof, hon, ?_, ?_⟩
  · have hnothing :
        Written.reportsOf ((Written.binary wl operator wr).opened s'.current) = [] := by
      cases hmeets : (Written.binary wl operator wr).meets s'.current with
      | false =>
          rw [Written.opened_of_not_meets hmeets]
          rfl
      | true => exact Written.reportsOf_opened (hreported.symm.trans (hbefore hmeets))
    rw [Written.reportsOf_append, hnothing, List.append_nil]
    exact hspent
  · have hchained :
        (Written.binary wl operator wr).chained = (wl.meets operator || wl.chained) := rfl
    cases hmeets : (Written.binary wl operator wr).meets s'.current with
    | false => rw [hreported, hchained, Bool.or_false, Bool.or_comm]
    | true => rw [hbefore hmeets, Bool.or_true]

end States

namespace Parser

variable {known depth layer : Nat} {layers : List Nat} {nested : Nested} {s : ParserState}

/-- One more operator and its right operand. -/
theorem Writes.extendChain {tighter : Parser Chain} {s₀ : ParserState}
    (htighter : ∀ s, Writes known tighter s fun chain s' =>
      (s.rest.length ≤ depth → ChainWritten layers s chain s') ∧ Settled layers s') (chain : Chain) :
    Writes known (extendChain layer tighter chain) s fun turn s' =>
      (s₀.rest.length ≤ depth → ChainWritten (layer :: layers) s₀ chain s) →
        s₀.rest.length ≤ depth → ChainWritten (layer :: layers) s₀ turn.value s' := by
  unfold Parser.extendChain
  refine Writes.peek ?_
  split
  · rename_i op hop
    have hkind := (Token.kind_of_binaryOpOn? hop).1
    refine Writes.advance_of hkind (by simp) fun s₁ h₁ => ?_
    refine Writes.bind (htighter s₁) fun right s₂ => ?_
    refine Writes.newExpr fun origin s₃ h₃ => Writes.peek ?_
    have hnode : (s₁.rest.length ≤ depth → ChainWritten layers s₁ right s₂) ∧ Settled layers s₂ →
        (s₀.rest.length ≤ depth → ChainWritten (layer :: layers) s₀ chain s) →
        s₀.rest.length ≤ depth → NodeWritten s.current s₀
          ⟨.binary origin op chain.left right.left, chain.reported⟩ s₃ := by
      rintro ⟨hright, hsettled⟩ hleft hdepth
      have hchain := hleft hdepth
      have hle := hchain.length_le
      have hshorter := h₁.length_lt
      exact hchain.node origin hkind h₁ (hright (by omega)) hsettled h₃
    split
    · rename_i hnew
      obtain ⟨hnone, hfresh, hnext⟩ := hnew
      refine Writes.reportChain fun s₄ h₄ => Writes.pure fun hright hleft hdepth => ?_
      exact (hnode hright hleft hdepth).reported hop hnone (by simpa using hfresh) hnext h₄
    · rename_i hold
      refine Writes.pure fun hright hleft hdepth => ?_
      exact (hnode hright hleft hdepth).unreported hop (by simpa using hold)
  · exact Writes.pure fun h => h

section Nested

variable (hwrites : NestedWrites known depth nested) (hagrees : NestedAgrees nested)

include hwrites hagrees

theorem Writes.layered (layers : List Nat) : ∀ s, Writes known (layered nested layers) s
    fun chain s' => (s.rest.length ≤ depth → ChainWritten layers s chain s') ∧ Settled layers s' := by
  induction layers with
  | nil =>
      intro s
      refine Writes.with ?_ fun hended => settled_layered hagrees [] hended
      refine Writes.bind (Writes.unary hwrites) fun operand s₁ => Writes.pure fun hrow hdepth => ?_
      obtain ⟨parts, hof, hwrote⟩ := hrow hdepth
      refine ⟨.row parts, hof, trivial, ?_, rfl⟩
      unfold Wrote at hwrote
      simpa [Written.tokens, Written.chains, Written.opened] using hwrote
  | cons layer tighter ih =>
      intro s
      refine Writes.with ?_ fun hended => settled_layered hagrees (layer :: tighter) hended
      refine Writes.bind (ih s) fun start s₁ => ?_
      refine (Writes.iterate
        (fun chain s' => s.rest.length ≤ depth → ChainWritten (layer :: tighter) s chain s')
        fun chain s' => Writes.extendChain ih chain).mono ?_
      rintro last s' hloop ⟨hstart, -⟩
      refine hloop fun hdepth => ?_
      exact (hstart hdepth).mono fun _ => List.mem_cons_of_mem _

theorem Writes.expressionIn : Writes known (expressionIn nested) s fun expr s' =>
    s.rest.length ≤ depth → ExprWritten s expr s' := by
  refine Writes.bind (Writes.layered hwrites hagrees _ s) fun chain s₁ => Writes.pure ?_
  rintro ⟨hchain, hsettled⟩ hdepth
  obtain ⟨w, hof, hspent⟩ := (hchain hdepth).settled hsettled
  refine ⟨w, hof, ?_⟩
  unfold Wrote
  simpa [Written.tokensOf, Written.chainsOf] using hspent

end Nested

/-! ### The knot -/

theorem NestedWrites.around {inner : Unit → Nested} (hwrites : NestedWrites known depth (inner ()))
    (hagrees : NestedAgrees (inner ())) : NestedWrites known (depth + 1) (around inner) where
  expression _ := (Writes.expressionIn hwrites hagrees).mono
    fun _ _ h hdepth => h (Nat.le_of_lt_succ hdepth)
  operand _ := (Writes.unary hwrites).mono fun _ _ h hdepth => (h (Nat.le_of_lt_succ hdepth)).whole
  type _ := (Writes.typeIn hwrites).mono fun _ _ h hdepth => h (Nat.le_of_lt_succ hdepth)

/-- With a level for each token the nesting never runs out. -/
theorem NestedWrites.along (levels : List Token) :
    NestedWrites known (levels.length + 1) (nestedAlong levels) := by
  induction levels with
  | nil =>
      have hnothing : NestedWrites known 0 Nested.nothing :=
        ⟨fun s => (Adds.missingExpr s).mono fun _ _ _ h => absurd h (Nat.not_lt_zero _),
          fun s => (Adds.missingExpr s).mono fun _ _ _ h => absurd h (Nat.not_lt_zero _),
          fun s => (Adds.missingType s).mono fun _ _ _ h => absurd h (Nat.not_lt_zero _)⟩
      exact NestedWrites.around hnothing NestedAgrees.nothing
  | cons token levels ih => exact NestedWrites.around ih (NestedAgrees.along levels)

theorem Writes.expression : Writes known expression s (ExprWritten s) :=
  ((NestedWrites.along s.rest).expression s).mono fun _ _ h => h (Nat.lt_succ_self _)

/-- **Chains.** If parsing an expression reports chains only, then the reports are those on the chains
of the expression as it is written, each at its second operator, in the order of these operators, but
for the chains that have another one in their first operand, not in parentheses. So there is a report
if and only if there is a chain, and one for each chain if and only if none has another in front of it
in this way. -/
theorem expression_chains (hended : s.Ended)
    (hopen : ∀ place, s.reportedAt = some place → place < s.position) {reports : List Diagnostic}
    (hreports : (expression s).2.diagnostics = s.diagnostics ++ reports)
    (honly : ∀ diagnostic ∈ reports, diagnostic.code = some Code.nonAssociativeChain) :
    ∃ w : Written, w.Of (expression s).1 ∧ s.rest = w.tokens ++ (expression s).2.rest ∧
      reports = (w.chains.filter (!·.shadowed)).map ChainStart.report ∧
      (reports = [] ↔ w.chains = []) ∧
      (reports.length = w.chains.length ↔ ∀ chain ∈ w.chains, chain.shadowed = false) ∧
      ∀ chain ∈ w.chains, chain.first.range.isLocated = true → chain.second.range.isLocated = true →
        chain.report.labels = [⟨chain.second.range, .primary, "second operator of the chain"⟩,
          ⟨chain.first.range, .secondary, "first operator"⟩] := by
  have hwatched : s.Watched s.diagnostics.length :=
    ⟨hended, Nat.le_refl _, fun _ => hopen⟩
  have hchains : (expression s).2.OnlyChains s.diagnostics.length := by
    rw [OnlyChains, hreports, List.drop_left]
    exact honly
  obtain ⟨-, hwrites⟩ := Writes.expression hwatched
  obtain ⟨-, w, hof, hwrote⟩ := hwrites hchains
  have hsame : reports = Written.reportsOf w.chains := by
    have hboth := hreports.symm.trans hwrote.diagnostics
    simpa [Written.chainsOf] using hboth
  refine ⟨w, hof, by simpa [Written.tokensOf] using hwrote.rest, hsame, ?_, ?_, ?_⟩
  · rw [hsame, Written.reportsOf_eq_nil_iff]
  · rw [hsame, Written.reportsOf, List.length_map, List.length_filter_eq_length_iff]
    simp
  · exact fun chain _ hfirst hsecond => SyntaxReport.labels_chainedComparison hsecond hfirst

/-- A line of a file. -/
def lineStart (line : String) : ParserState :=
  Parsed.initial (.registered 0) (TokenStream.ofText (.registered 0) line).tokens .empty

theorem expression_chains_of_parentheses :
    let s := lineStart "a < b < c && (d == e == f) == g;"
    s.Ended ∧ (∀ place, s.reportedAt = some place → place < s.position) ∧
      (∀ diagnostic ∈ (expression s).2.diagnostics,
        diagnostic.code = some Code.nonAssociativeChain) ∧
      ∃ w : Written, w.Of (expression s).1 ∧ s.rest = w.tokens ++ (expression s).2.rest ∧
        (w.chains.filter (!·.shadowed)).length = 2 := by
  intro s
  have hended : s.Ended := Parsed.initial_ended _
  have hopen : ∀ place, s.reportedAt = some place → place < s.position := nofun
  have honly : ∀ diagnostic ∈ (expression s).2.diagnostics,
      diagnostic.code = some Code.nonAssociativeChain := by
    decide +kernel
  have hcount : (expression s).2.diagnostics.length = 2 := by decide +kernel
  have hfresh : (expression s).2.diagnostics = s.diagnostics ++ (expression s).2.diagnostics := rfl
  obtain ⟨w, hof, hrest, hreports, -⟩ := expression_chains hended hopen hfresh honly
  rw [hreports, List.length_map] at hcount
  exact ⟨hended, hopen, honly, w, hof, hrest, hcount⟩

/-- The second of two chains is not reported where the first one is its first operand. -/
theorem chain_unreported :
    let s := lineStart "a < b < c == d == e;"
    let place (start stop : Nat) : SourceRange := ⟨.registered 0, start, stop⟩
    let name (text : String) (start : Nat) : Written :=
      .row [.token ⟨.identifier, text, place start (start + 1), false⟩]
    let less (start : Nat) : Token := ⟨.operator .lt, "<", place start (start + 1), false⟩
    let equal (start : Nat) : Token := ⟨.operator .eqEq, "==", place start (start + 2), false⟩
    let w : Written := .binary (.binary (.binary (.binary (name "a" 0) (less 2) (name "b" 4)) (less 6)
      (name "c" 8)) (equal 10) (name "d" 13)) (equal 15) (name "e" 18)
    w.Of (expression s).1 ∧ s.rest = w.tokens ++ (expression s).2.rest ∧
      w.chains = [⟨less 2, less 6, false⟩, ⟨equal 10, equal 15, true⟩] ∧
      (expression s).2.diagnostics = [SyntaxReport.chainedComparison (place 6 7) (place 2 3)] := by
  intro s place name less equal w
  let ref (id : Nat) (text : String) (start : Nat) : Expr :=
    .ref ⟨id, place start (start + 1)⟩ ⟨text, place start (start + 1)⟩
  have hname : ∀ id text start, (name text start).Of (ref id text start) :=
    fun id text start => .row false rfl (.own _ .nil)
  have htree : (expression s).1 = .binary ⟨8, place 0 19⟩ .equal (.binary ⟨6, place 0 14⟩ .equal
      (.binary ⟨4, place 0 9⟩ .less (.binary ⟨2, place 0 5⟩ .less (ref 0 "a" 0) (ref 1 "b" 4))
        (ref 3 "c" 8)) (ref 5 "d" 13)) (ref 7 "e" 18) := by
    cbv
  have hof : w.Of (expression s).1 := by
    rw [htree]
    exact .binary _ _ (.binary _ _ (.binary _ _ (.binary _ _ (hname 0 "a" 0) rfl (hname 1 "b" 4)) rfl
      (hname 3 "c" 8)) rfl (hname 5 "d" 13)) rfl (hname 7 "e" 18)
  exact ⟨hof, by decide +kernel, by decide +kernel, by decide +kernel⟩

end Parser

end BehaviorTree
