import BehaviorTree.Parsing.Expression
import BehaviorTree.Proofs.Parsing.ChainRuns

/-!
# Terms of runs with chains

What a run with no reports but on chains makes of its tokens: each type and each expression is that of
the tokens consumed for it, and the reports are those on the chains in the expressions inside it. Where
operators stand between operands, a chain can be new; that is left to the loops over the layers.
-/

namespace BehaviorTree

open ParserState

/-- The tree is that of the tokens consumed, and the chains in them were reported. -/
def ExprWritten (s : ParserState) (expr : Expr) (s' : ParserState) : Prop :=
  ∃ written : Written, written.Of expr ∧ Wrote s [written] s'

/-- The tokens consumed fill the slots, and the chains in them were reported. -/
def Filled (s : ParserState) (slots : List FrameSlot) (s' : ParserState) : Prop :=
  ∃ parts, Fills Written.Of parts slots ∧ Wrote s parts s'

/-- The same for an expression that has no operator between operands outside of parentheses. -/
def RowWritten (s : ParserState) (expr : Expr) (s' : ParserState) : Prop :=
  ∃ parts, (Written.row parts).Of expr ∧ Wrote s parts s'

section States

variable {s s₁ s₂ s₃ : ParserState} {slots more : List FrameSlot} {expr : Expr} {token : Token}

theorem RowWritten.whole (h : RowWritten s expr s₁) : ExprWritten s expr s₁ := by
  obtain ⟨parts, hof, hwrote⟩ := h
  refine ⟨.row parts, hof, ?_⟩
  unfold Wrote at hwrote ⊢
  simpa [Written.tokensOf, Written.tokens, Written.chainsOf, Written.chains] using hwrote

namespace Filled

theorem refl (s : ParserState) : Filled s [] s := ⟨[], .nil, .refl s⟩

theorem trans (hfirst : Filled s slots s₁) (hsecond : Filled s₁ more s₂) :
    Filled s (slots ++ more) s₂ := by
  obtain ⟨parts, hfills, hwrote⟩ := hfirst
  obtain ⟨later, hfills', hwrote'⟩ := hsecond
  exact ⟨parts ++ later, hfills.append hfills', hwrote.trans hwrote'⟩

theorem length_le (h : Filled s slots s₁) : s₁.rest.length ≤ s.rest.length := by
  obtain ⟨parts, -, hwrote⟩ := h
  exact hwrote.length_le

theorem before (h : Filled s slots s₁) (hbehind : Spent s₁ [] [] s₂) : Filled s slots s₂ := by
  obtain ⟨parts, hfills, hwrote⟩ := h
  exact ⟨parts, hfills, hwrote.before hbehind⟩

/-- A token that is no name. -/
theorem own {kind : TokenKind} (hkind : token.kind = kind) (hname : kind ≠ .identifier)
    (h : Spent s [token] [] s₁) : Filled s [.own (.of kind)] s₁ := by
  rw [← Token.terminal_eq_of hkind hname]
  exact ⟨[.token token], .own token .nil, h⟩

theorem name (hkind : token.kind = .identifier) (h : Spent s [token] [] s₁) :
    Filled s [.own (.name token.text)] s₁ := by
  rw [← Token.terminal_eq_name hkind]
  exact ⟨[.token token], .own token .nil, h⟩

theorem inner (h : ExprWritten s expr s₁) : Filled s [.inner expr] s₁ := by
  obtain ⟨written, hof, hwrote⟩ := h
  exact ⟨[written], .inner hof .nil, hwrote⟩

/-- The slots are those of an expression. -/
theorem row (h : Filled s slots s₁) (comma : Bool) (hframe : expr.frame? comma = some slots) :
    RowWritten s expr s₁ := by
  obtain ⟨parts, hfills, hwrote⟩ := h
  exact ⟨parts, .row comma hframe hfills, hwrote⟩

end Filled

theorem ExprWritten.length_le (h : ExprWritten s expr s₁) : s₁.rest.length ≤ s.rest.length :=
  (Filled.inner h).length_le

theorem RowWritten.after (hbefore : Spent s [] [] s₁) (h : RowWritten s₁ expr s₂) :
    RowWritten s expr s₂ := by
  obtain ⟨parts, hof, hwrote⟩ := h
  have hnothing : Wrote s [] s₁ := hbefore
  exact ⟨parts, hof, hnothing.trans hwrote⟩

theorem RowWritten.before (h : RowWritten s expr s₁) (hbehind : Spent s₁ [] [] s₂) :
    RowWritten s expr s₂ := by
  obtain ⟨parts, hof, hwrote⟩ := h
  exact ⟨parts, hof, hwrote.before hbehind⟩

theorem RowWritten.parens {opening closing : Token} (range : SourceRange)
    (hopening : opening.kind = .punctuation .lParen) (hfirst : Spent s [opening] [] s₁)
    (hinner : ExprWritten s₁ expr s₂) (hclosing : closing.kind = .punctuation .rParen)
    (hlast : Spent s₂ [closing] [] s₃) : RowWritten s (expr.withRange range) s₃ := by
  obtain ⟨written, hof, hwrote⟩ := hinner
  exact ⟨[.token opening, written, .token closing], .parens range hopening hof hclosing,
    ((Wrote.token hfirst).trans hwrote).trans (Wrote.token hlast)⟩

end States

namespace Parser

variable {known : Nat} {s : ParserState}

theorem Consumed.filled {kind : TokenKind} {s s' : ParserState} (h : Consumed kind s s')
    (hname : kind ≠ .identifier) : Filled s [.own (.of kind)] s' := by
  obtain ⟨token, hkind, hspent⟩ := h
  exact .own hkind hname hspent

/-- What the nested parsers write in front of fewer tokens than a depth. -/
structure NestedWrites (known depth : Nat) (nested : Nested) : Prop where
  expression (s : ParserState) : Writes known nested.expression s fun expr s' =>
    s.rest.length < depth → ExprWritten s expr s'
  operand (s : ParserState) : Writes known nested.operand s fun expr s' =>
    s.rest.length < depth → ExprWritten s expr s'
  type (s : ParserState) : Writes known nested.type s fun type s' =>
    s.rest.length < depth → Filled s type.frame s'

section Nested

variable {nested : Nested} {depth : Nat}

/-! ### Types -/

/-- The tokens are those of a type, wherever it is made. -/
def TypeBuilt (s : ParserState) (build : Origin → TypeExpr) (s' : ParserState) : Prop :=
  ∀ origin, Filled s (build origin).frame s'

theorem Writes.stringBound : Writes known stringBound s fun bound s' =>
    ∃ value, bound = some value ∧ Filled s [.own (.of (.int value)), .own (.op .gt)] s' := by
  unfold Parser.stringBound
  refine Writes.peek ?_
  dsimp only
  split
  · rename_i value hkind
    refine Writes.advance_of hkind (by simp) fun s₁ h₁ => ?_
    refine Writes.pure_bind (Writes.bind Writes.expectOperator fun _ s₂ => Writes.pure ?_)
    rintro ⟨-, hcloser⟩
    exact ⟨value, rfl, (Filled.own hkind (by simp) h₁).trans (hcloser.filled (by simp))⟩
  · refine Writes.fail Writes.expected fun _ => ?_
    exact Adds.bind (Adds.pure _) fun _ =>
      Adds.bind (fun _ => Writes.expectOperator.mono fun _ _ _ => trivial) fun _ => Adds.pure _

theorem Writes.stringType {word : Token} (hword : word.kind = .keyword .stringWord)
    {s₀ : ParserState} (hfirst : Spent s₀ [word] [] s) :
    Writes known stringType s fun build s' => TypeBuilt s₀ build s' := by
  have hfront : Filled s₀ [.own (.word .stringWord)] s := .own hword (by simp) hfirst
  unfold Parser.stringType
  refine Writes.acceptOperator (fun hkind s₁ h₁ => ?_) (Writes.pure fun _ => hfront)
  refine Writes.bind Writes.stringBound fun bound s₂ => Writes.pure ?_
  rintro ⟨value, rfl, hbound⟩ origin
  exact (hfront.trans (Filled.own hkind (by simp) h₁)).trans hbound

theorem Writes.vecType (hnested : NestedWrites known depth nested) {word : Token}
    (hword : word.kind = .keyword .vecWord) {s₀ : ParserState} (hfirst : Spent s₀ [word] [] s) :
    Writes known (vecType nested) s fun build s' =>
      s₀.rest.length ≤ depth → TypeBuilt s₀ build s' := by
  have hshorter := hfirst.length_lt
  unfold Parser.vecType
  refine Writes.bind Writes.expectOperator fun found s₁ => ?_
  split
  · refine Writes.bind (hnested.type s₁) fun element s₂ => ?_
    refine Writes.bind Writes.expectOperator fun _ s₃ => Writes.pure ?_
    rintro ⟨-, hcloser⟩ helement ⟨-, hopener⟩ hdepth origin
    have hopening := hopener.filled (by simp)
    have hle := hopening.length_le
    have hbehind := (helement (by omega)).trans (hcloser.filled (by simp))
    exact (Filled.own hword (by simp) hfirst).trans (hopening.trans hbehind)
  · rename_i hfound
    exact Writes.pure fun h => absurd h.1 hfound

/-- The length of an array, or the bound on it, with the bracket that closes the type. -/
theorem Writes.arrayLength (hnested : NestedWrites known depth nested) (element : TypeExpr)
    (bounded : Bool) :
    Writes known (do
      let length ← nested.expression
      let _ ← Parser.expectPunctuation .rBracket "to close the array type"
        (Stop.rBracket :: RecoverySet.statement)
      if bounded then Pure.pure (TypeExpr.boundedArray · element length)
      else Pure.pure (TypeExpr.staticArray · element length)) s fun build s' => ∃ length,
        build = (if bounded then (TypeExpr.boundedArray · element length)
          else (TypeExpr.staticArray · element length)) ∧
        (s.rest.length < depth → Filled s [.inner length, .own (.mark .rBracket)] s') := by
  refine Writes.bind (hnested.expression s) fun length s₁ => ?_
  refine Writes.bind Writes.expectPunctuation fun _ s₂ => ?_
  cases bounded with
  | true | false =>
      refine Writes.pure ?_
      rintro ⟨-, hcloser⟩ hlength
      exact ⟨length, rfl, fun hdepth => (Filled.inner (hlength hdepth)).trans
        (hcloser.filled (by simp))⟩

theorem Writes.arrayType (hnested : NestedWrites known depth nested) {opening : Token}
    (hopening : opening.kind = .punctuation .lBracket) {s₀ : ParserState}
    (hfirst : Spent s₀ [opening] [] s) :
    Writes known (arrayType nested) s fun build s' =>
      s₀.rest.length ≤ depth → TypeBuilt s₀ build s' := by
  have hshorter := hfirst.length_lt
  unfold Parser.arrayType
  dsimp only
  refine Writes.bind (hnested.type s) fun element s₁ => ?_
  refine Writes.bind Writes.expectPunctuation fun found s₂ => ?_
  split
  · -- Behind the `<=` of a bound and in front of a length the rest is the same.
    have hbehind : ∀ {between : List FrameSlot} {length : Expr} {s₃ s₄ : ParserState},
        Filled s₂ between s₃ →
        (s₃.rest.length < depth → Filled s₃ [.inner length, .own (.mark .rBracket)] s₄) →
        Consumed (.punctuation .semi) s₁ s₂ → (s.rest.length < depth → Filled s element.frame s₁) →
        s₀.rest.length ≤ depth → Filled s₀ (.own (.mark .lBracket) :: (element.frame ++
          (.own (.mark .semi) :: (between ++ [.inner length, .own (.mark .rBracket)])))) s₄ := by
      intro between length s₃ s₄ hbetween hlast hsemi helement hdepth
      have helement' := helement (by omega)
      have hsemi' := hsemi.filled (by simp)
      have hle := helement'.length_le
      have hle' := (hsemi'.trans hbetween).length_le
      exact (Filled.own hopening (by simp) hfirst).trans
        (helement'.trans (hsemi'.trans (hbetween.trans (hlast (by omega)))))
    refine Writes.acceptOperator (fun hkind s₃ h₃ => ?_) ?_
    · refine (Writes.arrayLength hnested element true).mono ?_
      rintro _ s₄ ⟨length, rfl, hlast⟩ ⟨-, hsemi⟩ helement hdepth origin
      exact hbehind (.own hkind (by simp) h₃) hlast hsemi helement hdepth
    · refine (Writes.arrayLength hnested element false).mono ?_
      rintro _ s₄ ⟨length, rfl, hlast⟩ ⟨-, hsemi⟩ helement hdepth origin
      exact hbehind (.refl s₂) hlast hsemi helement hdepth
  · rename_i hfound
    refine Writes.acceptPunctuation (fun _ _ _ => ?_) fun _ => ?_
    · exact Writes.pure fun h => absurd h.1 hfound
    · exact Writes.pure fun h => absurd h.1 hfound

theorem Writes.plainType (hnested : NestedWrites known depth nested) :
    Writes known (plainType nested) s fun result s' => s.rest.length ≤ depth →
      ∃ build, result = some build ∧ TypeBuilt s build s' := by
  unfold Parser.plainType
  refine Writes.peek ?_
  split
  · rename_i hkind
    refine Writes.advance_of hkind (by simp) fun s₁ h₁ => Writes.pure fun _ => ?_
    exact ⟨_, rfl, fun _ => .own hkind (by simp) h₁⟩
  · rename_i hkind
    refine Writes.advance_of hkind (by simp) fun s₁ h₁ => Writes.nameOf fun s₂ h₂ =>
      Writes.pure fun _ => ?_
    exact ⟨_, rfl, fun _ => (Filled.name hkind h₁).before h₂⟩
  · rename_i hkind
    refine Writes.advance_of hkind (by simp) fun s₁ h₁ => ?_
    exact Writes.map (Writes.stringType hkind h₁) fun build s₂ hbuilt _ => ⟨build, rfl, hbuilt⟩
  · rename_i hkind
    refine Writes.advance_of hkind (by simp) fun s₁ h₁ => ?_
    exact Writes.map (Writes.vecType hnested hkind h₁) fun build s₂ hbuilt hdepth =>
      ⟨build, rfl, hbuilt hdepth⟩
  · rename_i hkind
    refine Writes.advance_of hkind (by simp) fun s₁ h₁ => ?_
    exact Writes.map (Writes.arrayType hnested hkind h₁) fun build s₂ hbuilt hdepth =>
      ⟨build, rfl, hbuilt hdepth⟩
  · exact Writes.fail Writes.expected fun _ => Adds.pure _

theorem Writes.typeIn (hnested : NestedWrites known depth nested) :
    Writes known (typeIn nested) s fun type s' => s.rest.length ≤ depth → Filled s type.frame s' := by
  unfold Parser.typeIn
  refine Writes.peek (Writes.bind (Writes.plainType hnested) fun result s₁ => ?_)
  cases result with
  | none =>
      refine (Adds.missingType s₁).mono fun _ _ _ h hdepth => ?_
      obtain ⟨build, hnone, -⟩ := h hdepth
      cases hnone
  | some build =>
      refine Writes.rangeSince fun range => Writes.newType fun origin s₂ h₂ => ?_
      have htype : (s.rest.length ≤ depth → ∃ build', some build = some build' ∧
          TypeBuilt s build' s₁) → s.rest.length ≤ depth → Filled s (build origin).frame s₂ := by
        intro h hdepth
        obtain ⟨_, ⟨rfl⟩, hbuilt⟩ := h hdepth
        exact (hbuilt origin).before h₂
      refine Writes.acceptPunctuation (fun hkind s₃ h₃ => ?_) fun _ => Writes.pure htype
      refine Writes.rangeSince fun range' => Writes.of_bind_pure (Writes.newType fun origin' s₄ h₄ =>
        Writes.pure fun h hdepth => ?_)
      exact ((htype h hdepth).trans (.own hkind (by simp) h₃)).before h₄

/-! ### Operands -/

theorem Writes.literal {build : Origin → Expr} {kind : TokenKind} {terminal : Terminal}
    (hkind : s.current.kind = kind) (hend : kind ≠ .endOfFile)
    (hterminal : s.current.terminal = terminal)
    (hframe : ∀ origin, (build origin).frame? false = some [.own terminal]) :
    Writes known (literal build) s (RowWritten s) := by
  unfold Parser.literal
  refine Writes.advance_of hkind hend fun s₁ h₁ => ?_
  refine Writes.of_bind_pure (Writes.newExpr fun origin s₂ h₂ => Writes.pure ?_)
  subst hterminal
  have hfilled : Filled s [.own s.current.terminal] s₁ :=
    ⟨[.token s.current], .own s.current .nil, h₁⟩
  exact (hfilled.row false (hframe origin)).before h₂

theorem Writes.parenthesized (hnested : NestedWrites known depth nested)
    (hkind : s.current.kind = .punctuation .lParen) :
    Writes known (parenthesized nested) s fun expr s' =>
      s.rest.length ≤ depth → RowWritten s expr s' := by
  unfold Parser.parenthesized
  refine Writes.advance_of hkind (by simp) fun s₁ h₁ => ?_
  refine Writes.bind (hnested.expression s₁) fun inner s₂ => ?_
  refine Writes.bind Writes.expectPunctuation fun _ s₃ => Writes.rangeSince fun range => ?_
  refine Writes.of_bind_pure (Writes.widenExpr fun s₄ h₄ => Writes.pure ?_)
  rintro ⟨-, closing, hclosing, h₃⟩ hinner hdepth
  have hshorter := h₁.length_lt
  exact (RowWritten.parens range hkind h₁ (hinner (by omega)) hclosing h₃).before h₄

/-- Elements with commas between them, and maybe one behind them if nothing follows it. -/
def ElementsWritten (s₀ : ParserState) (elements : List Expr) (s : ParserState) : Prop :=
  ∃ comma : Bool, Filled s₀ (FrameSlot.list elements ++ if comma then [.own (.mark .comma)] else []) s ∧
    (comma = true → s.current.kind = .punctuation .rBracket) ∧ elements ≠ []

theorem FrameSlot.list_append {elements : List Expr} (hsome : elements ≠ []) (element : Expr) :
    FrameSlot.list (elements ++ [element]) =
      FrameSlot.list elements ++ [.own (.mark .comma), .inner element] := by
  cases elements with
  | nil => exact absurd rfl hsome
  | cons first more => simp [FrameSlot.list]

theorem Writes.nextElement (hnested : NestedWrites known depth nested) {s₀ : ParserState}
    (elements : List Expr) :
    Writes known (nextElement nested elements) s fun turn s' =>
      (s₀.rest.length ≤ depth → ElementsWritten s₀ elements s) →
        s₀.rest.length ≤ depth → ElementsWritten s₀ turn.value s' := by
  unfold Parser.nextElement
  refine Writes.acceptPunctuation (fun hkind s₁ h₁ => ?_) fun _ => Writes.pure fun h => h
  -- Behind a comma that nothing follows there is no other.
  have hopen : ElementsWritten s₀ elements s → elements ≠ [] ∧
      Filled s₀ (FrameSlot.list elements ++ [.own (.mark .comma)]) s₁ := by
    rintro ⟨comma, hfilled, hclosed, hsome⟩
    cases comma with
    | true =>
        have hbracket := hclosed rfl
        rw [hkind] at hbracket
        cases hbracket
    | false =>
        rw [if_neg nofun, List.append_nil] at hfilled
        exact ⟨hsome, hfilled.trans (.own hkind (by simp) h₁)⟩
  have hshorter := h₁.length_lt
  refine Writes.atPunctuation ?_
  split
  · rename_i hclosing
    refine Writes.pure fun h hdepth => ?_
    obtain ⟨hsome, hfilled⟩ := hopen (h hdepth)
    exact ⟨true, hfilled, fun _ => by simpa [Token.isPunctuation] using hclosing, hsome⟩
  · refine Writes.bind (hnested.expression s₁) fun element s₂ => Writes.pure ?_
    intro helement h hdepth
    obtain ⟨_, hbefore, -, -⟩ := h hdepth
    have hle := hbefore.length_le
    obtain ⟨hsome, hfilled⟩ := hopen (h hdepth)
    refine ⟨false, ?_, nofun, by simp [Turn.value]⟩
    rw [Turn.value, FrameSlot.list_append hsome]
    simpa using hfilled.trans (.inner (helement (by omega)))

theorem Writes.arrayExpr (hnested : NestedWrites known depth nested)
    (hkind : s.current.kind = .punctuation .lBracket) :
    Writes known (arrayExpr nested) s fun expr s' =>
      s.rest.length ≤ depth → RowWritten s expr s' := by
  unfold Parser.arrayExpr
  refine Writes.advance_of hkind (by simp) fun s₁ h₁ => ?_
  dsimp only
  have hopening : Filled s [.own (.mark .lBracket)] s₁ := .own hkind (by simp) h₁
  have hshorter := h₁.length_lt
  refine Writes.acceptPunctuation (fun hclosing s₂ h₂ => ?_) fun _ => ?_
  · refine Writes.rangeSince fun range => Writes.of_bind_pure (Writes.newExpr fun origin s₃ h₃ =>
      Writes.pure fun _ => ?_)
    exact ((hopening.trans (.own hclosing (by simp) h₂)).row false rfl).before h₃
  · refine Writes.bind (hnested.expression s₁) fun first s₂ => ?_
    refine Writes.acceptPunctuation (fun hsemi s₃ h₃ => ?_) fun _ => ?_
    · refine Writes.bind (hnested.expression s₃) fun count s₄ => ?_
      refine Writes.bind Writes.expectPunctuation fun _ s₅ => Writes.rangeSince fun range => ?_
      refine Writes.of_bind_pure (Writes.newExpr fun origin s₆ h₆ => Writes.pure ?_)
      rintro ⟨-, hcloser⟩ hcount hfirst hdepth
      have hvalue := Filled.inner (hfirst (by omega))
      have hsep : Filled s₂ [.own (.mark .semi)] s₃ := .own hsemi (by simp) h₃
      have hle := (hvalue.trans hsep).length_le
      have hall := (hopening.trans (hvalue.trans hsep)).trans
        ((Filled.inner (hcount (by omega))).trans (hcloser.filled (by simp)))
      exact (hall.row false rfl).before h₆
    · refine Writes.bind (Writes.iterate
        (fun elements s' => s₁.rest.length ≤ depth → ElementsWritten s₁ elements s')
        fun elements s' => Writes.nextElement hnested elements) fun elements s₃ => ?_
      refine Writes.bind Writes.expectPunctuation fun _ s₄ => Writes.rangeSince fun range => ?_
      refine Writes.of_bind_pure (Writes.newExpr fun origin s₅ h₅ => Writes.pure ?_)
      rintro ⟨-, hcloser⟩ helements hfirst hdepth
      have hone : Filled s₁ (FrameSlot.list [first] ++ []) s₂ := Filled.inner (hfirst (by omega))
      obtain ⟨comma, hfilled, -, -⟩ := helements (fun _ => ⟨false, hone, nofun, by simp⟩) (by omega)
      have hall := hopening.trans (hfilled.trans (hcloser.filled (by simp)))
      exact (hall.row comma rfl).before h₅

theorem Writes.vecExpr (hnested : NestedWrites known depth nested)
    (hkind : s.current.kind = .keyword .vecWord) :
    Writes known (vecExpr nested) s fun expr s' => s.rest.length ≤ depth → RowWritten s expr s' := by
  unfold Parser.vecExpr
  refine Writes.advance_of hkind (by simp) fun s₁ h₁ => ?_
  dsimp only
  refine Writes.acceptOperator (fun hbang s₂ h₂ => Writes.atPunctuation ?_) ?_
  · split
    · rename_i hbracket
      have hopening : s₂.current.kind = .punctuation .lBracket := by
        simpa [Token.isPunctuation] using hbracket
      refine Writes.bind (Writes.arrayExpr hnested hopening) fun inner s₃ =>
        Writes.rangeSince fun range => ?_
      refine Writes.of_bind_pure (Writes.newExpr fun origin s₄ h₄ => Writes.pure ?_)
      intro hinner hdepth
      have hfront := (Filled.own hkind (by simp) h₁).trans (Filled.own hbang (by simp) h₂)
      have hle := hfront.length_le
      exact ((hfront.trans (.inner (hinner (by omega)).whole)).row false rfl).before h₄
    · exact Writes.fail Writes.expected fun _ => Adds.missingExpr
  · exact Writes.fail Writes.expectedWithHelp fun _ => Adds.missingExpr

theorem Writes.primary (hnested : NestedWrites known depth nested) :
    Writes known (primary nested) s fun expr s' => s.rest.length ≤ depth → RowWritten s expr s' := by
  have hliteral : ∀ {build : Origin → Expr} {kind : TokenKind}, s.current.kind = kind →
      kind ≠ .endOfFile → kind ≠ .identifier →
      (∀ origin, (build origin).frame? false = some [.own (.of kind)]) →
      Writes known (Parser.literal build) s fun expr s' =>
        s.rest.length ≤ depth → RowWritten s expr s' :=
    fun hkind hend hname hframe =>
      (Writes.literal hkind hend (Token.terminal_eq_of hkind hname) hframe).mono fun _ _ h _ => h
  unfold Parser.primary
  refine Writes.peek ?_
  split
  case h_3 hkind =>
    refine Writes.intern fun s₁ h₁ => ?_
    rw [← h₁.current] at hkind
    refine (Writes.literal hkind (by simp) (Token.terminal_eq_of hkind (by simp)) fun _ => rfl).mono ?_
    exact fun expr s' h _ => .after h₁ h
  case h_7 hkind =>
    refine Writes.nameOf fun s₁ h₁ => ?_
    rw [← h₁.current] at hkind
    refine (Writes.literal hkind (by simp) (Token.terminal_eq_name hkind) fun _ => ?_).mono ?_
    · rw [h₁.current]
      rfl
    · exact fun expr s' h _ => .after h₁ h
  case h_8 hkind => exact Writes.parenthesized hnested hkind
  case h_9 hkind => exact Writes.arrayExpr hnested hkind
  case h_10 hkind => exact Writes.vecExpr hnested hkind
  case h_11 hkind =>
    refine Writes.missingExpr fun origin s₁ h₁ => ?_
    rw [← h₁.current] at hkind
    refine Writes.advance_of hkind (by simp) fun s₂ h₂ => Writes.pure fun _ => ?_
    exact .after h₁ ((Filled.own hkind (by simp) h₂).row false rfl)
  case h_12 => exact Writes.fail Writes.expected fun _ => Adds.missingExpr
  all_goals
    rename_i hkind
    exact hliteral hkind (by simp) (by simp) fun _ => rfl

theorem Writes.suffix (hnested : NestedWrites known depth nested) {s₀ : ParserState} (base : Expr) :
    Writes known (suffix nested base) s fun turn s' =>
      (s₀.rest.length ≤ depth → RowWritten s₀ base s) →
        s₀.rest.length ≤ depth → RowWritten s₀ turn.value s' := by
  unfold Parser.suffix
  dsimp only
  refine Writes.acceptPunctuation (fun hkind s₁ h₁ => ?_) fun _ => Writes.peek ?_
  · refine Writes.bind (hnested.expression s₁) fun position s₂ => ?_
    refine Writes.bind Writes.expectPunctuation fun _ s₃ => Writes.rangeSince fun range => ?_
    refine Writes.newExpr fun origin s₄ h₄ => Writes.pure ?_
    rintro ⟨-, hcloser⟩ hposition hbase hdepth
    have hwhole := (hbase hdepth).whole
    have hle := hwhole.length_le
    have hshorter := h₁.length_lt
    have hindex := (Filled.inner (hposition (by omega))).trans (hcloser.filled (by simp))
    have hbracket : Filled s [.own (.mark .lBracket)] s₁ := .own hkind (by simp) h₁
    exact (((Filled.inner hwhole).trans (hbracket.trans hindex)).row false rfl).before h₄
  · split
    · rename_i hword
      have hkind : s.current.kind = .keyword .asWord := by simpa [Token.isKeyword] using hword
      refine Writes.advance_of hkind (by simp) fun s₁ h₁ => ?_
      refine Writes.bind (hnested.type s₁) fun type s₂ => Writes.rangeSince fun range => ?_
      refine Writes.newExpr fun origin s₃ h₃ => Writes.pure ?_
      intro htype hbase hdepth
      have hwhole := (hbase hdepth).whole
      have hle := hwhole.length_le
      have hshorter := h₁.length_lt
      have hcast : Filled s [.own (.word .asWord)] s₁ := .own hkind (by simp) h₁
      exact (((Filled.inner hwhole).trans (hcast.trans (htype (by omega)))).row false rfl).before h₃
    · exact Writes.pure fun h => h

theorem Writes.suffixed (hnested : NestedWrites known depth nested) :
    Writes known (suffixed nested) s fun expr s' => s.rest.length ≤ depth → RowWritten s expr s' := by
  refine Writes.bind (Writes.primary hnested) fun base s₁ => ?_
  refine (Writes.iterate (fun expr s' => s.rest.length ≤ depth → RowWritten s expr s')
    fun base s' => Writes.suffix hnested base).mono ?_
  exact fun _ _ hloop hbase => hloop hbase

theorem Writes.unary (hnested : NestedWrites known depth nested) :
    Writes known (unary nested) s fun expr s' => s.rest.length ≤ depth → RowWritten s expr s' := by
  unfold Parser.unary
  refine Writes.peek ?_
  split
  · rename_i op hop
    have hkind := Token.kind_of_unaryOp? hop
    refine Writes.advance_of hkind (by simp) fun s₁ h₁ => ?_
    refine Writes.bind (hnested.operand s₁) fun operand s₂ => ?_
    refine Writes.of_bind_pure (Writes.newExpr fun origin s₃ h₃ => Writes.pure ?_)
    intro hoperand hdepth
    have hshorter := h₁.length_lt
    have hsign : Filled s [.own (.op op.operator)] s₁ := .own hkind (by simp) h₁
    exact ((hsign.trans (.inner (hoperand (by omega)))).row false rfl).before h₃
  · exact Writes.suffixed hnested

end Nested

end Parser

end BehaviorTree
