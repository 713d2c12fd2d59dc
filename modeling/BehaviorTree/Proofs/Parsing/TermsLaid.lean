import BehaviorTree.Parsing.Expression
import BehaviorTree.Proofs.Parsing.Agreement
import BehaviorTree.Proofs.Parsing.Errorless
import BehaviorTree.Proofs.Parsing.Scan
import BehaviorTree.Proofs.Syntax.Pieces

/-!
# Terms of runs without errors

A type or an expression that is parsed without errors lies over the tokens that were consumed for
it, from the first to the last, and all nodes that were made on the way are in it. An unknown
character makes a missing expression without a report. It is the only token that may not be covered.
-/

namespace BehaviorTree

open ParserState Skip

namespace ParserState

variable {s s' : ParserState} {us vs : List Token} {made : List Stamp} {start : SourceRange}

/-- The range from the start of what was consumed first to the last token that was consumed. -/
theorem Stretch.spans_rangeSince (h : Stretch s (us ++ vs) made s')
    (hstart : Regular s.file us → start.Spans us) (hregular : Regular s.file (us ++ vs)) :
    (s'.rangeSince start).Spans (us ++ vs) := by
  have hspans := hstart hregular.left
  have hsome : us ++ vs ≠ [] := fun h => hspans.isSome (List.append_eq_nil_iff.mp h).1
  obtain ⟨last, hlast⟩ := Option.isSome_iff_exists.mp (List.getLast?_isSome.mpr hsome)
  have hrange : s'.rangeSince start = ⟨s.file, start.start, max last.range.stop start.stop⟩ := by
    rw [ParserState.rangeSince, h.file, h.last, hlast]
    rfl
  rw [hrange]
  exact hspans.extend hregular hlast

/-- The range from the first consumed token to the last. -/
theorem Stretch.spans_rangeSince_cons {token : Token} (h : Stretch s (token :: vs) made s')
    (hregular : Regular s.file (token :: vs)) : (s'.rangeSince token.range).Spans (token :: vs) := by
  have hsplit : Stretch s ([token] ++ vs) made s' := h
  exact hsplit.spans_rangeSince (fun _ => .token token) hregular

end ParserState

/-- The expression lies over what was consumed between the states, and so do the nodes made there. -/
def ExprFrom (s : ParserState) (expr : Expr) (s' : ParserState) : Prop :=
  ∃ ts, Stretch s ts expr.stamps s' ∧ Laid s.file (.expr expr) ts ∧ Scans ts

def TypeFrom (s : ParserState) (type : TypeExpr) (s' : ParserState) : Prop :=
  ∃ ts, Stretch s ts type.stamps s' ∧ Laid s.file (.type type) ts ∧ Clears ts

/-- A type of its own parts, but not made yet. -/
structure BuiltFrom (s : ParserState) (build : Origin → TypeExpr) (ts : List Token)
    (made : List Stamp) (s' : ParserState) : Prop where
  stretch : Stretch s ts made s'
  clears : Clears ts
  origin : ∀ o, (build o).origin = o
  stamps : ∀ kind o, Stamp.census kind (build o).stamps =
    Stamp.census kind made + if kind = .type then 1 else 0
  along : ∀ o, LaidAlong s.file (build o).pieces ts

namespace Parser

variable {s : ParserState}

/-- What the nested parsers deliver in front of fewer tokens than a depth. -/
structure NestedDelivers (depth : Nat) (nested : Nested) : Prop where
  expression (s : ParserState) :
    Delivers nested.expression s fun expr s' => s.rest.length < depth → ExprFrom s expr s'
  operand (s : ParserState) :
    Delivers nested.operand s fun expr s' => s.rest.length < depth → ExprFrom s expr s'
  type (s : ParserState) :
    Delivers nested.type s fun type s' => s.rest.length < depth → TypeFrom s type s'

section Nested

variable {nested : Nested} {depth : Nat}

/-! ### Types -/

theorem Delivers.stringBound : Delivers stringBound s fun _ s' =>
    ∃ ts, Stretch s ts [] s' ∧ Clears ts := by
  unfold Parser.stringBound
  refine Delivers.peek ?_
  dsimp only
  split
  · rename_i value hkind
    refine Delivers.advance_of hkind (by simp) fun s₁ h₁ => ?_
    refine Delivers.pure_bind (Delivers.bind Delivers.expectOperator fun _ s₂ => Delivers.pure ?_)
    rintro ⟨-, closer, hcloser, h₂⟩
    exact ⟨_, h₁.trans h₂, .cons (.of_kind hkind rfl) (.single (.of_kind hcloser rfl))⟩
  · refine Delivers.fail Delivers.expected fun _ => ?_
    exact Retains.bind (Retains.pure _) fun _ =>
      Retains.bind (fun _ => Delivers.expectOperator.retains) fun _ => Retains.pure _

/-- Behind the word `string`. -/
theorem Delivers.stringType {word : Token} (hword : word.kind = .keyword .stringWord)
    {s₀ : ParserState} (hfirst : Stretch s₀ [word] [] s) :
    Delivers stringType s fun build s' => ∃ us made, BuiltFrom s₀ build (word :: us) made s' := by
  unfold Parser.stringType
  refine Delivers.acceptOperator (fun hkind s₁ h₁ => ?_) fun _ => Delivers.pure ?_
  · refine Delivers.bind Delivers.stringBound fun bound s₂ => Delivers.pure ?_
    rintro ⟨ts, h₂, hts⟩
    refine ⟨_, [], ?_, .cons (.of_kind hword rfl) (.cons (.of_kind hkind rfl) hts), fun _ => rfl, ?_,
      fun _ => .nil _⟩
    · exact (hfirst.trans h₁).trans h₂
    · intro kind o
      simp [eq_comm]
  · refine ⟨_, _, hfirst, .single (.of_kind hword rfl), fun _ => rfl, ?_, fun _ => .nil _⟩
    intro kind o
    simp [eq_comm]

theorem Delivers.vecType (hnested : NestedDelivers depth nested) {word : Token}
    (hword : word.kind = .keyword .vecWord) {s₀ : ParserState} (hfirst : Stretch s₀ [word] [] s) :
    Delivers (vecType nested) s fun build s' => s₀.rest.length ≤ depth →
      ∃ us made, BuiltFrom s₀ build (word :: us) made s' := by
  unfold Parser.vecType
  refine Delivers.bind Delivers.expectOperator fun found s₁ => ?_
  split
  · refine Delivers.bind (hnested.type s₁) fun element s₂ => ?_
    refine Delivers.bind Delivers.expectOperator fun _ s₃ => Delivers.pure ?_
    rintro ⟨-, closer, hcloser, h₃⟩ helement ⟨-, opener, hopener, h₁⟩ hdepth
    have hlength := (hfirst.trans h₁).length_eq
    obtain ⟨ts, h₂, hlaid, hclears⟩ := helement (by simp at hlength; omega)
    have hfile : s₁.file = s₀.file := (hfirst.trans h₁).file
    rw [hfile] at hlaid
    refine ⟨opener :: (ts ++ [closer]), element.stamps, ?_, ?_, fun _ => rfl, ?_, ?_⟩
    · exact ((hfirst.trans h₁).trans (h₂.trans h₃)).as (by simp) (by simp)
    · exact .cons (.of_kind hword rfl) (.cons (.of_kind hopener rfl)
        (hclears.append (.single (.of_kind hcloser rfl))))
    · intro kind o
      simp [eq_comm]
    · intro o
      exact ((LaidAlong.single hlaid).before [closer]).behind [word, opener]
  · rename_i hfound
    exact Delivers.pure fun h => absurd h.1 hfound

/-- An array type is put together of an opening bracket, the element, what lies in front of the
length, the length and a closing bracket. -/
theorem BuiltFrom.array {s₀ s₁ s₂ s₃ s₄ s₅ : ParserState} {build : Origin → TypeExpr}
    {element : TypeExpr} {length : Expr} {opening closing : Token} {between : List Token}
    (hopening : opening.kind = .punctuation .lBracket) (hfirst : Stretch s₀ [opening] [] s₁)
    (helement : TypeFrom s₁ element s₂) (hbetween : Stretch s₂ between [] s₃)
    (hneutral : Clears between) (hlength : ExprFrom s₃ length s₄)
    (hclosing : closing.kind = .punctuation .rBracket) (hlast : Stretch s₄ [closing] [] s₅)
    (horigin : ∀ o, (build o).origin = o)
    (hstamps : ∀ o, (build o).stamps = .node .type o.id :: (element.stamps ++ length.stamps))
    (hpieces : ∀ o, (build o).pieces = [.type element, .expr length]) :
    ∃ us made, BuiltFrom s₀ build (opening :: us) made s₅ := by
  obtain ⟨es, h₂, helaid, heclears⟩ := helement
  obtain ⟨ls, h₄, hllaid, hlscans⟩ := hlength
  rw [hfirst.file] at helaid
  rw [((hfirst.trans h₂).trans hbetween).file] at hllaid
  refine ⟨(es ++ (between ++ ls)) ++ [closing], element.stamps ++ length.stamps, ?_, ?_, horigin, ?_, ?_⟩
  · exact (hfirst.trans (h₂.trans (hbetween.trans (h₄.trans hlast)))).as (by simp) (by simp)
  · exact .bracketed hopening (heclears.append (hneutral.append hlscans.clears)) hclosing
  · intro kind o
    rw [hstamps]
    simp [eq_comm]
  · intro o
    rw [hpieces]
    exact ((LaidAlong.single helaid).append
      ((LaidAlong.single hllaid).behind between)).before [closing] |>.behind [opening]

theorem Delivers.arrayType (hnested : NestedDelivers depth nested) {opening : Token}
    (hopening : opening.kind = .punctuation .lBracket) {s₀ : ParserState}
    (hfirst : Stretch s₀ [opening] [] s) :
    Delivers (arrayType nested) s fun build s' => s₀.rest.length ≤ depth →
      ∃ us made, BuiltFrom s₀ build (opening :: us) made s' := by
  unfold Parser.arrayType
  dsimp only
  refine Delivers.bind (hnested.type s) fun element s₁ => ?_
  refine Delivers.bind Delivers.expectPunctuation fun found s₂ => ?_
  split
  · have hrest : ∀ (bounded : Bool) (between : List Token) (s₃ : ParserState),
        Stretch s₂ between [] s₃ → Clears between →
        Delivers (do
          let length ← nested.expression
          let _ ← Parser.expectPunctuation .rBracket "to close the array type"
            (Stop.rBracket :: RecoverySet.statement)
          if bounded then Pure.pure (.boundedArray · element length)
          else Pure.pure (.staticArray · element length)) s₃ fun build s' =>
            (found = true ∧ Took (.punctuation .semi) s₁ s₂) →
              (s.rest.length < depth → TypeFrom s element s₁) → s₀.rest.length ≤ depth →
                ∃ us made, BuiltFrom s₀ build (opening :: us) made s' := by
      intro bounded between s₃ hbetween hclears
      refine Delivers.bind (hnested.expression s₃) fun length s₄ => ?_
      refine Delivers.bind Delivers.expectPunctuation fun closed s₅ => ?_
      have hbuilt : ∀ {build : Origin → TypeExpr}, (∀ o, (build o).origin = o) →
          (∀ o, (build o).stamps = .node .type o.id :: (element.stamps ++ length.stamps)) →
          (∀ o, (build o).pieces = [.type element, .expr length]) →
          (closed = true ∧ Took (.punctuation .rBracket) s₄ s₅) →
          (s₃.rest.length < depth → ExprFrom s₃ length s₄) →
          (found = true ∧ Took (.punctuation .semi) s₁ s₂) →
          (s.rest.length < depth → TypeFrom s element s₁) → s₀.rest.length ≤ depth →
            ∃ us made, BuiltFrom s₀ build (opening :: us) made s₅ := by
        rintro build horigin hstamps hpieces ⟨-, closing, hclosing, h₅⟩ hlength
          ⟨-, semi, hsemi, h₂⟩ helement hdepth
        have hlengths := hfirst.length_eq
        have helement' := helement (by simp at hlengths; omega)
        have hmore := helement'.choose_spec.1.length_eq
        have hmore' := (h₂.trans hbetween).length_eq
        simp at hlengths hmore'
        exact BuiltFrom.array hopening hfirst helement' (h₂.trans hbetween)
          (Clears.cons (.of_kind hsemi rfl) hclears) (hlength (by omega)) hclosing h₅ horigin hstamps
          hpieces
      split
      · exact Delivers.pure (hbuilt (fun _ => rfl) (fun _ => rfl) fun _ => rfl)
      · exact Delivers.pure (hbuilt (fun _ => rfl) (fun _ => rfl) fun _ => rfl)
    refine Delivers.acceptOperator (fun hkind s₃ h₃ => ?_) fun _ => ?_
    · exact hrest true _ s₃ h₃ (.single (.of_kind hkind rfl))
    · exact hrest false [] s₂ (.refl s₂) .nil
  · rename_i hfound
    refine Delivers.acceptPunctuation (fun _ _ _ => ?_) fun _ => ?_
    · exact Delivers.pure fun h => absurd h.1 hfound
    · exact Delivers.pure fun h => absurd h.1 hfound

theorem Delivers.plainType (hnested : NestedDelivers depth nested) :
    Delivers (plainType nested) s fun result s' => s.rest.length ≤ depth →
      ∃ build us made, result = some build ∧ BuiltFrom s build (s.current :: us) made s' := by
  unfold Parser.plainType
  refine Delivers.peek ?_
  split
  · rename_i hkind
    refine Delivers.advance_of hkind (by simp) fun s₁ h₁ => Delivers.pure fun _ => ?_
    refine ⟨_, _, _, rfl, h₁, .single (.of_kind hkind rfl), fun _ => rfl, ?_, fun _ => .nil _⟩
    intro kind o
    simp [eq_comm]
  · rename_i hkind
    refine Delivers.advance_of hkind (by simp) fun s₁ h₁ => Delivers.nameOf fun s₂ h₂ =>
      Delivers.pure fun _ => ?_
    refine ⟨_, _, _, rfl, h₁.trans h₂, .single (.of_kind hkind rfl), fun _ => rfl, ?_, fun _ => .nil _⟩
    intro kind o
    simp [eq_comm]
  · rename_i hkind
    refine Delivers.advance_of hkind (by simp) fun s₁ h₁ => ?_
    refine Delivers.map (Delivers.stringType hkind h₁) fun build s₂ hbuilt _ => ?_
    obtain ⟨us, made, hbuilt⟩ := hbuilt
    exact ⟨build, us, made, rfl, hbuilt⟩
  · rename_i hkind
    refine Delivers.advance_of hkind (by simp) fun s₁ h₁ => ?_
    refine Delivers.map (Delivers.vecType hnested hkind h₁) fun build s₂ hbuilt hdepth => ?_
    obtain ⟨us, made, hbuilt⟩ := hbuilt hdepth
    exact ⟨build, us, made, rfl, hbuilt⟩
  · rename_i hkind
    refine Delivers.advance_of hkind (by simp) fun s₁ h₁ => ?_
    refine Delivers.map (Delivers.arrayType hnested hkind h₁) fun build s₂ hbuilt hdepth => ?_
    obtain ⟨us, made, hbuilt⟩ := hbuilt hdepth
    exact ⟨build, us, made, rfl, hbuilt⟩
  · exact Delivers.fail Delivers.expected fun _ => Retains.pure _

theorem Delivers.typeIn (hnested : NestedDelivers depth nested) :
    Delivers (typeIn nested) s fun type s' => s.rest.length ≤ depth → TypeFrom s type s' := by
  unfold Parser.typeIn
  refine Delivers.peek (Delivers.bind (Delivers.plainType hnested) fun result s₁ => ?_)
  cases result with
  | none =>
      refine (Retains.missingType s₁).mono fun _ _ _ h hdepth => ?_
      obtain ⟨build, us, made, hnone, -⟩ := h hdepth
      cases hnone
  | some build =>
      refine Delivers.rangeSince (Delivers.newType fun id s₂ h₂ => ?_)
      -- The type without a question mark lies over the tokens up to here.
      have htype : (s.rest.length ≤ depth → ∃ build' us made, some build = some build' ∧
          BuiltFrom s build' (s.current :: us) made s₁) → s.rest.length ≤ depth →
          ∃ us, Stretch s (s.current :: us) (build ⟨id, s₁.rangeSince s.current.range⟩).stamps s₂ ∧
            Laid s.file (.type (build ⟨id, s₁.rangeSince s.current.range⟩)) (s.current :: us) ∧
            Clears (s.current :: us) := by
        intro h hdepth
        obtain ⟨_, us, made, ⟨rfl⟩, hbuilt⟩ := h hdepth
        refine ⟨us, ?_, .mk (fun hregular => ?_) (hbuilt.along _), hbuilt.clears⟩
        · refine (hbuilt.stretch.trans h₂).as (by simp) fun kind => ?_
          rw [hbuilt.stamps]
          simp [eq_comm]
        · show (build _).origin.range.Spans _
          rw [hbuilt.origin]
          exact hbuilt.stretch.spans_rangeSince_cons hregular
      refine Delivers.acceptPunctuation (fun hkind s₃ h₃ => ?_) fun _ => Delivers.pure ?_
      · refine Delivers.rangeSince (Delivers.of_bind_pure (Delivers.newType fun id' s₄ h₄ =>
          Delivers.pure fun h hdepth => ?_))
        obtain ⟨us, hstretch, hlaid, hclears⟩ := htype h hdepth
        refine ⟨(s.current :: us) ++ [s₂.current], ?_, .mk (fun hregular => ?_) ?_, ?_⟩
        · exact (hstretch.trans (h₃.trans h₄)).as (by simp) (by simp)
        · exact (hstretch.trans h₃).spans_rangeSince_cons hregular
        · exact (LaidAlong.single hlaid).before _
        · exact hclears.append (.single (.of_kind hkind rfl))
      · intro h hdepth
        obtain ⟨us, hstretch, hlaid, hclears⟩ := htype h hdepth
        exact ⟨_, hstretch, hlaid, hclears⟩

/-! ### Operands -/

end Nested

end Parser

theorem ExprFrom.some_left {s s' : ParserState} {expr : Expr} (h : ExprFrom s expr s') :
    s'.rest.length < s.rest.length := by
  obtain ⟨ts, hstretch, -, hscans⟩ := h
  obtain ⟨first, hfirst, -⟩ := hscans.opens
  have hpositive := List.length_pos_of_mem (List.mem_of_mem_head? hfirst)
  have hlength := hstretch.length_eq
  omega

/-- An expression of one token. -/
theorem ExprFrom.atom {s s' : ParserState} {expr : Expr} {token : Token}
    (hstretch : Stretch s [token] expr.stamps s') (hneutral : Neutral token)
    (hopens : token.kind.breaksOff = false)
    (hrange : Regular s.file [token] → expr.range.Spans [token]) (hpieces : expr.pieces = []) :
    ExprFrom s expr s' := by
  refine ⟨_, hstretch, .mk hrange ?_, .single hneutral hopens⟩
  show LaidAlong s.file expr.pieces _
  rw [hpieces]
  exact .nil _

/-- What goes before an expression without a token leaves no trace. -/
theorem ExprFrom.after {s s₁ s₂ : ParserState} {expr : Expr} (h : Stretch s [] [] s₁)
    (hexpr : ExprFrom s₁ expr s₂) : ExprFrom s expr s₂ := by
  obtain ⟨ts, hstretch, hlaid, hscans⟩ := hexpr
  rw [h.file] at hlaid
  exact ⟨ts, h.trans hstretch, hlaid, hscans⟩

/-- An array is put together of its opening bracket, what lies in it and its closing bracket. -/
theorem ExprFrom.array {s₀ s₁ s₂ s₃ s₄ : ParserState} {opening closing : Token} {ts : List Token}
    {made : List Stamp} {expr : Expr} {id : Nat}
    (hopening : opening.kind = .punctuation .lBracket) (hfirst : Stretch s₀ [opening] [] s₁)
    (hinside : Stretch s₁ ts made s₂) (hclears : Clears ts)
    (hclosing : closing.kind = .punctuation .rBracket) (hlast : Stretch s₂ [closing] [] s₃)
    (hnew : Stretch s₃ [] [.node .expr id] s₄) (hrange : expr.range = s₃.rangeSince opening.range)
    (hstamps : ∀ kind, Stamp.census kind expr.stamps = Stamp.census kind (.node .expr id :: made))
    (hlaid : LaidAlong s₀.file expr.pieces ts) : ExprFrom s₀ expr s₄ := by
  have hstretch : Stretch s₀ (opening :: (ts ++ [closing])) made s₃ :=
    (hfirst.trans (hinside.trans hlast)).as (by simp) (by simp)
  refine ⟨_, (hstretch.trans hnew).as (List.append_nil _) fun kind => ?_, .mk (fun hregular => ?_) ?_,
    .cons (by simp [hopening]) (by rw [hopening]; rfl) (.bracketed hopening hclears hclosing)⟩
  · rw [hstamps]
    simp
  · show expr.range.Spans _
    rw [hrange]
    exact hstretch.spans_rangeSince_cons hregular
  · exact (hlaid.before [closing]).behind [opening]

namespace Parser

variable {s : ParserState}

section Nested

variable {nested : Nested} {depth : Nat}

theorem Delivers.literal {build : Origin → Expr} {kind : TokenKind} (hkind : s.current.kind = kind)
    (hend : kind ≠ .endOfFile) (hneutral : kind.isNeutral = true) (hopens : kind.breaksOff = false)
    (horigin : ∀ o, (build o).origin = o) (hpieces : ∀ o, (build o).pieces = [])
    (hstamps : ∀ node o, Stamp.census node (build o).stamps = if .expr = node then 1 else 0) :
    Delivers (literal build) s (ExprFrom s) := by
  unfold Parser.literal
  refine Delivers.advance_of hkind hend fun s₁ h₁ => ?_
  refine Delivers.of_bind_pure (Delivers.newExpr fun id s₂ h₂ => Delivers.pure ?_)
  refine .atom ((h₁.trans h₂).as rfl fun node => ?_) (.of_kind hkind hneutral)
    (by rw [hkind, hopens]) (fun _ => ?_) (hpieces _)
  · rw [hstamps]
    simp
  · rw [Expr.range, horigin]
    exact .token _

theorem Delivers.parenthesized (hnested : NestedDelivers depth nested)
    (hkind : s.current.kind = .punctuation .lParen) :
    Delivers (parenthesized nested) s fun expr s' => s.rest.length ≤ depth → ExprFrom s expr s' := by
  unfold Parser.parenthesized
  refine Delivers.advance_of hkind (by simp) fun s₁ h₁ => ?_
  refine Delivers.bind (hnested.expression s₁) fun inner s₂ => ?_
  refine Delivers.bind Delivers.expectPunctuation fun _ s₃ => Delivers.rangeSince ?_
  refine Delivers.of_bind_pure (Delivers.widenExpr fun s₄ h₄ => Delivers.pure ?_)
  rintro ⟨-, closing, hclosing, h₃⟩ hinner hdepth
  have hlength := h₁.length_eq
  obtain ⟨ts, h₂, hlaid, hscans⟩ := hinner (by simp at hlength; omega)
  rw [h₁.file] at hlaid
  have hstretch : Stretch s (s.current :: (ts ++ [closing])) inner.stamps s₃ :=
    (h₁.trans (h₂.trans h₃)).as (by simp) (by simp)
  refine ⟨_, (hstretch.trans h₄).as (List.append_nil _) (by simp), ?_, ?_⟩
  · have hsplit : s.current :: (ts ++ [closing]) = [s.current] ++ (ts ++ [closing]) := rfl
    exact hlaid.widen (fun h => hstretch.spans_rangeSince_cons h) hsplit
  · refine .cons (by simp [hkind]) (by rw [hkind]; rfl) (.cons (.of_kind hkind rfl) ?_)
    exact hscans.clears.append (.single (.of_kind hclosing rfl))

/-- Elements with what stands between them, behind an opening bracket. -/
def ElementsFrom (s₀ : ParserState) (elements : List Expr) (s : ParserState) : Prop :=
  ∃ ts, Stretch s₀ ts (Expr.stampsAll elements) s ∧
    LaidAlong s₀.file (elements.map .expr) ts ∧ Clears ts

theorem Delivers.nextElement (hnested : NestedDelivers depth nested) {s₀ : ParserState}
    (elements : List Expr) :
    Delivers (nextElement nested elements) s fun turn s' =>
      (s₀.rest.length ≤ depth → ElementsFrom s₀ elements s) →
        s₀.rest.length ≤ depth → ElementsFrom s₀ turn.value s' := by
  unfold Parser.nextElement
  refine Delivers.acceptPunctuation (fun hkind s₁ h₁ => ?_) fun _ => Delivers.pure fun h => h
  have hcomma : Clears [s.current] := .single (.of_kind hkind rfl)
  refine Delivers.atPunctuation ?_
  split
  · refine Delivers.pure fun h hdepth => ?_
    obtain ⟨ts, hstretch, hlaid, hclears⟩ := h hdepth
    exact ⟨_, (hstretch.trans h₁).as rfl (by simp [Turn.value]), hlaid.before _, hclears.append hcomma⟩
  · refine Delivers.bind (hnested.expression s₁) fun element s₂ => Delivers.pure ?_
    intro helement h hdepth
    obtain ⟨ts, hstretch, hlaid, hclears⟩ := h hdepth
    have hlength := (hstretch.trans h₁).length_eq
    obtain ⟨es, h₂, hlaid', hscans⟩ := helement (by simp at hlength; omega)
    rw [(hstretch.trans h₁).file] at hlaid'
    refine ⟨_, ((hstretch.trans h₁).trans h₂).as rfl ?_, ?_, ?_⟩
    · simp [Turn.value, Expr.stampsAll_eq_flatMap]
    · rw [Turn.value, List.map_append]
      exact (hlaid.before _).append (.single hlaid')
    · exact (hclears.append hcomma).append hscans.clears

theorem Delivers.arrayExpr (hnested : NestedDelivers depth nested)
    (hkind : s.current.kind = .punctuation .lBracket) :
    Delivers (arrayExpr nested) s fun expr s' => s.rest.length ≤ depth → ExprFrom s expr s' := by
  unfold Parser.arrayExpr
  refine Delivers.advance_of hkind (by simp) fun s₁ h₁ => ?_
  dsimp only
  refine Delivers.acceptPunctuation (fun hclosing s₂ h₂ => ?_) fun _ => ?_
  · refine Delivers.rangeSince (Delivers.of_bind_pure (Delivers.newExpr fun id s₃ h₃ =>
      Delivers.pure fun _ => ?_))
    exact .array hkind h₁ (.refl s₁) .nil hclosing h₂ h₃ rfl (by simp) (.nil [])
  · refine Delivers.bind (hnested.expression s₁) fun first s₂ => ?_
    refine Delivers.acceptPunctuation (fun hsemi s₃ h₃ => ?_) fun _ => ?_
    · refine Delivers.bind (hnested.expression s₃) fun count s₄ => ?_
      refine Delivers.bind Delivers.expectPunctuation fun _ s₅ => Delivers.rangeSince ?_
      refine Delivers.of_bind_pure (Delivers.newExpr fun id s₆ h₆ => Delivers.pure ?_)
      rintro ⟨-, closing, hclosing, h₅⟩ hcount hfirst hdepth
      have hlength := h₁.length_eq
      obtain ⟨fs, h₂, hflaid, hfscans⟩ := hfirst (by simp at hlength; omega)
      have hlength' := ((h₁.trans h₂).trans h₃).length_eq
      obtain ⟨cs, h₄, hclaid, hcscans⟩ := hcount (by simp at hlength'; omega)
      rw [h₁.file] at hflaid
      rw [((h₁.trans h₂).trans h₃).file] at hclaid
      refine .array hkind h₁ (h₂.trans (h₃.trans h₄)) ?_ hclosing h₅ h₆ rfl (by simp) ?_
      · exact hfscans.clears.append (.cons (.of_kind hsemi rfl) hcscans.clears)
      · exact (LaidAlong.single hflaid).append ((LaidAlong.single hclaid).behind [s₂.current])
    · refine Delivers.bind (Delivers.iterate
        (fun elements s' => s₁.rest.length ≤ depth → ElementsFrom s₁ elements s')
        fun elements s' => Delivers.nextElement hnested elements) fun elements s₃ => ?_
      refine Delivers.bind Delivers.expectPunctuation fun _ s₄ => Delivers.rangeSince ?_
      refine Delivers.of_bind_pure (Delivers.newExpr fun id s₅ h₅ => Delivers.pure ?_)
      rintro ⟨-, closing, hclosing, h₄⟩ helements hfirst hdepth
      have hlength := h₁.length_eq
      simp at hlength
      obtain ⟨ts, h₃, hlaid, hclears⟩ := helements (fun _ => by
        obtain ⟨fs, h₂, hflaid, hfscans⟩ := hfirst (by omega)
        exact ⟨fs, h₂.as rfl (by simp), .single hflaid, hfscans.clears⟩) (by omega)
      rw [h₁.file] at hlaid
      exact .array hkind h₁ h₃ hclears hclosing h₄ h₅ rfl (by simp) hlaid

theorem Delivers.vecExpr (hnested : NestedDelivers depth nested)
    (hkind : s.current.kind = .keyword .vecWord) :
    Delivers (vecExpr nested) s fun expr s' => s.rest.length ≤ depth → ExprFrom s expr s' := by
  unfold Parser.vecExpr
  refine Delivers.advance_of hkind (by simp) fun s₁ h₁ => ?_
  dsimp only
  refine Delivers.acceptOperator (fun hbang s₂ h₂ => Delivers.atPunctuation ?_) fun _ => ?_
  · split
    · rename_i hbracket
      have hopening : s₂.current.kind = .punctuation .lBracket := by
        simpa [Token.isPunctuation] using hbracket
      refine Delivers.bind (Delivers.arrayExpr hnested hopening) fun inner s₃ => Delivers.rangeSince ?_
      refine Delivers.of_bind_pure (Delivers.newExpr fun id s₄ h₄ => Delivers.pure ?_)
      intro hinner hdepth
      have hlength := (h₁.trans h₂).length_eq
      obtain ⟨ts, h₃, hlaid, hscans⟩ := hinner (by simp at hlength; omega)
      rw [(h₁.trans h₂).file] at hlaid
      have hstretch := (h₁.trans h₂).trans h₃
      refine ⟨_, (hstretch.trans h₄).as (List.append_nil _) (by simp), .mk (fun hregular => ?_) ?_, ?_⟩
      · exact hstretch.spans_rangeSince_cons hregular
      · exact (LaidAlong.single hlaid).behind [s.current, s₁.current]
      · exact .cons (by simp [hkind]) (by rw [hkind]; rfl)
          (.cons (.of_kind hkind rfl) (.cons (.of_kind hbang rfl) hscans.clears))
    · exact Delivers.fail Delivers.expected fun _ => Retains.missingExpr
  · exact Delivers.fail Delivers.expectedWithHelp fun _ => Retains.missingExpr

theorem Delivers.primary (hnested : NestedDelivers depth nested) :
    Delivers (primary nested) s fun expr s' => s.rest.length ≤ depth → ExprFrom s expr s' := by
  have hliteral : ∀ {build : Origin → Expr} {kind : TokenKind} {s : ParserState},
      s.current.kind = kind → kind ≠ .endOfFile → kind.isNeutral = true → kind.breaksOff = false →
      (∀ o, (build o).origin = o) → (∀ o, (build o).pieces = []) →
      (∀ node o, Stamp.census node (build o).stamps = if .expr = node then 1 else 0) →
      Delivers (Parser.literal build) s fun expr s' => s.rest.length ≤ depth → ExprFrom s expr s' :=
    fun hkind hend hneutral hopens horigin hpieces hstamps =>
      (Delivers.literal hkind hend hneutral hopens horigin hpieces hstamps).mono fun _ _ h _ => h
  unfold Parser.primary
  refine Delivers.peek ?_
  split
  case h_3 hkind =>
    refine Delivers.intern fun s₁ h₁ => ?_
    rw [← h₁.current] at hkind
    refine (hliteral hkind (by simp) rfl rfl (fun _ => rfl) (fun _ => rfl) (by simp)).mono ?_
    intro expr s' h hdepth
    have hlength := h₁.length_eq
    exact .after h₁ (h (by simp at hlength; omega))
  case h_7 hkind =>
    refine Delivers.nameOf fun s₁ h₁ => ?_
    rw [← h₁.current] at hkind
    refine (hliteral hkind (by simp) rfl rfl (fun _ => rfl) (fun _ => rfl) (by simp)).mono ?_
    intro expr s' h hdepth
    have hlength := h₁.length_eq
    exact .after h₁ (h (by simp at hlength; omega))
  case h_8 hkind => exact Delivers.parenthesized hnested hkind
  case h_9 hkind => exact (Delivers.arrayExpr hnested hkind)
  case h_10 hkind => exact Delivers.vecExpr hnested hkind
  case h_11 hkind =>
    refine Delivers.missingExpr fun origin s₁ h₁ => ?_
    have hkind₁ := hkind
    rw [← h₁.current] at hkind₁
    refine Delivers.advance_of hkind₁ (by simp) fun s₂ h₂ => Delivers.pure fun _ => ?_
    rw [h₁.current] at h₂
    refine .atom ((h₁.trans h₂).as rfl (by simp)) (.of_kind hkind rfl) (by rw [hkind]; rfl)
      (fun hregular => ?_) rfl
    exact absurd hkind (hregular.known s.current (by simp))
  case h_12 => exact Delivers.fail Delivers.expected fun _ => Retains.missingExpr
  all_goals
    rename_i hkind
    exact hliteral hkind (by simp) rfl rfl (fun _ => rfl) (fun _ => rfl) (by simp)

theorem Delivers.suffix (hnested : NestedDelivers depth nested) {s₀ : ParserState} (base : Expr) :
    Delivers (suffix nested base) s fun turn s' =>
      (s₀.rest.length ≤ depth → ExprFrom s₀ base s) →
        s₀.rest.length ≤ depth → ExprFrom s₀ turn.value s' := by
  unfold Parser.suffix
  dsimp only
  refine Delivers.acceptPunctuation (fun hkind s₁ h₁ => ?_) fun _ => Delivers.peek ?_
  · refine Delivers.bind (hnested.expression s₁) fun position s₂ => ?_
    refine Delivers.bind Delivers.expectPunctuation fun _ s₃ => Delivers.rangeSince ?_
    refine Delivers.newExpr fun id s₄ h₄ => Delivers.pure ?_
    rintro ⟨-, closing, hclosing, h₃⟩ hposition hbase hdepth
    obtain ⟨bs, h₀, hblaid, hbscans⟩ := hbase hdepth
    have hleft := ExprFrom.some_left ⟨bs, h₀, hblaid, hbscans⟩
    have hlength := h₁.length_eq
    obtain ⟨ps, h₂, hplaid, hpscans⟩ := hposition (by simp at hlength; omega)
    rw [(h₀.trans h₁).file] at hplaid
    have hstretch : Stretch s₀ (bs ++ s.current :: (ps ++ [closing]))
        (base.stamps ++ position.stamps) s₃ :=
      (h₀.trans (h₁.trans (h₂.trans h₃))).as (by simp) (by simp)
    refine ⟨_, (hstretch.trans h₄).as (List.append_nil _) (by simp [Turn.value, Nat.add_assoc]),
      .mk (fun hregular => ?_) ?_, hbscans.indexed hkind hpscans.clears hclosing⟩
    · exact hstretch.spans_rangeSince hblaid.spans hregular
    · exact (LaidAlong.single hblaid).append
        (((LaidAlong.single hplaid).before [closing]).behind [s.current])
  · split
    · rename_i hword
      have hkind : s.current.kind = .keyword .asWord := by simpa [Token.isKeyword] using hword
      refine Delivers.advance_of hkind (by simp) fun s₁ h₁ => ?_
      refine Delivers.bind (hnested.type s₁) fun type s₂ => Delivers.rangeSince ?_
      refine Delivers.newExpr fun id s₃ h₃ => Delivers.pure ?_
      intro htype hbase hdepth
      obtain ⟨bs, h₀, hblaid, hbscans⟩ := hbase hdepth
      have hleft := ExprFrom.some_left ⟨bs, h₀, hblaid, hbscans⟩
      have hlength := h₁.length_eq
      obtain ⟨ts, h₂, htlaid, htclears⟩ := htype (by simp at hlength; omega)
      rw [(h₀.trans h₁).file] at htlaid
      have hstretch : Stretch s₀ (bs ++ s.current :: ts) (base.stamps ++ type.stamps) s₂ :=
        (h₀.trans (h₁.trans h₂)).as (by simp) (by simp)
      refine ⟨_, (hstretch.trans h₃).as (List.append_nil _) (by simp [Turn.value, Nat.add_assoc]),
        .mk (fun hregular => ?_) ?_, ?_⟩
      · exact hstretch.spans_rangeSince hblaid.spans hregular
      · exact (LaidAlong.single hblaid).append ((LaidAlong.single htlaid).behind [s.current])
      · exact hbscans.append_cons (.of_kind hkind rfl)
          ⟨by simp [Token.isPunctuation, hkind], by simp [Token.isPunctuation, hkind]⟩ htclears
    · exact Delivers.pure fun h => h

theorem Delivers.suffixed (hnested : NestedDelivers depth nested) :
    Delivers (suffixed nested) s fun expr s' => s.rest.length ≤ depth → ExprFrom s expr s' := by
  refine Delivers.bind (Delivers.primary hnested) fun base s₁ => ?_
  refine (Delivers.iterate (fun expr s' => s.rest.length ≤ depth → ExprFrom s expr s')
    fun base s' => Delivers.suffix hnested base).mono ?_
  exact fun _ _ hloop hbase => hloop hbase

theorem Delivers.unary (hnested : NestedDelivers depth nested) :
    Delivers (unary nested) s fun expr s' => s.rest.length ≤ depth → ExprFrom s expr s' := by
  unfold Parser.unary
  refine Delivers.peek ?_
  split
  · rename_i op hop
    have hkind := Token.kind_of_unaryOp? hop
    have hneutral : (TokenKind.operator op.operator).isNeutral = true := by cases op <;> rfl
    refine Delivers.advance_of hkind (by simp) fun s₁ h₁ => ?_
    refine Delivers.bind (hnested.operand s₁) fun operand s₂ => ?_
    refine Delivers.of_bind_pure (Delivers.newExpr fun id s₃ h₃ => Delivers.pure ?_)
    intro hoperand hdepth
    have hlength := h₁.length_eq
    obtain ⟨ts, h₂, hlaid, hscans⟩ := hoperand (by simp at hlength; omega)
    rw [h₁.file] at hlaid
    refine ⟨_, ((h₁.trans h₂).trans h₃).as (List.append_nil _) (by simp), .mk (fun hregular => ?_) ?_, ?_⟩
    · have hsplit : Regular s.file ([s.current] ++ ts) := hregular
      exact SourceRange.Spans.merge [] (.token s.current) (hlaid.spans hsplit.right) hregular
    · exact (LaidAlong.single hlaid).behind [s.current]
    · exact .cons (by simp [hkind]) (by rw [hkind]; rfl) (.cons (.of_kind hkind hneutral) hscans.clears)
  · exact Delivers.suffixed hnested

/-! ### Chains -/

theorem Delivers.extendChain {layer : Nat} {tighter : Parser Chain} {s₀ : ParserState}
    (htighter : ∀ s, Delivers tighter s fun chain s' =>
      s.rest.length ≤ depth → ExprFrom s chain.left s') (chain : Chain) :
    Delivers (extendChain layer tighter chain) s fun turn s' =>
      (s₀.rest.length ≤ depth → ExprFrom s₀ chain.left s) →
        s₀.rest.length ≤ depth → ExprFrom s₀ turn.value.left s' := by
  unfold Parser.extendChain
  refine Delivers.peek ?_
  split
  · rename_i op hop
    obtain ⟨hkind, -⟩ := Token.kind_of_binaryOpOn? hop
    have hneutral : (TokenKind.operator op.operator).isNeutral = true := by cases op <;> rfl
    refine Delivers.advance_of hkind (by simp) fun s₁ h₁ => ?_
    refine Delivers.bind (htighter s₁) fun right s₂ => ?_
    refine Delivers.newExpr fun id s₃ h₃ => Delivers.peek ?_
    split
    · have herror : (SyntaxReport.chainedComparison s₃.current.range s.current.range).isError = true := by
        rw [Diagnostic.isError, SyntaxReport.severity_chainedComparison]
        rfl
      exact Delivers.fail (Delivers.report herror) fun _ => Retains.pure _
    · refine Delivers.pure fun hright hleft hdepth => ?_
      obtain ⟨ls, h₀, hllaid, hlscans⟩ := hleft hdepth
      have hsome := ExprFrom.some_left ⟨ls, h₀, hllaid, hlscans⟩
      have hlength := h₁.length_eq
      obtain ⟨rs, h₂, hrlaid, hrscans⟩ := hright (by simp at hlength; omega)
      rw [(h₀.trans h₁).file] at hrlaid
      refine ⟨ls ++ s.current :: rs, ?_, .mk (fun hregular => ?_) ?_, ?_⟩
      · exact (h₀.trans (h₁.trans (h₂.trans h₃))).as (by simp) (by simp [Turn.value, Nat.add_assoc])
      · have hsplit : Regular s₀.file ([s.current] ++ rs) := hregular.right
        exact SourceRange.Spans.merge [s.current] (hllaid.spans hregular.left)
          (hrlaid.spans hsplit.right) hregular
      · exact (LaidAlong.single hllaid).append ((LaidAlong.single hrlaid).behind [s.current])
      · exact hlscans.append_cons (.of_kind hkind hneutral)
          ⟨by simp [Token.isPunctuation, hkind], by simp [Token.isPunctuation, hkind]⟩ hrscans.clears
  · exact Delivers.pure fun h => h

theorem Delivers.layered (hnested : NestedDelivers depth nested) (layers : List Nat) :
    ∀ s, Delivers (layered nested layers) s fun chain s' =>
      s.rest.length ≤ depth → ExprFrom s chain.left s' := by
  induction layers with
  | nil =>
      intro s
      exact Delivers.bind (Delivers.unary hnested) fun operand s₁ => Delivers.pure fun h => h
  | cons layer tighter ih =>
      intro s
      refine Delivers.bind (ih s) fun start s₁ => ?_
      refine (Delivers.iterate (fun chain s' => s.rest.length ≤ depth → ExprFrom s chain.left s')
        fun chain s' => Delivers.extendChain ih chain).mono ?_
      exact fun _ _ hloop hstart => hloop hstart

theorem Delivers.expressionIn (hnested : NestedDelivers depth nested) :
    Delivers (expressionIn nested) s fun expr s' => s.rest.length ≤ depth → ExprFrom s expr s' :=
  Delivers.bind (Delivers.layered hnested _ s) fun _ _ => Delivers.pure fun h => h

end Nested

/-! ### The knot -/

theorem NestedDelivers.around {depth : Nat} {inner : Unit → Nested}
    (hinner : NestedDelivers depth (inner ())) : NestedDelivers (depth + 1) (around inner) where
  expression _ := (Delivers.expressionIn hinner).mono fun _ _ h hdepth => h (Nat.le_of_lt_succ hdepth)
  operand _ := (Delivers.unary hinner).mono fun _ _ h hdepth => h (Nat.le_of_lt_succ hdepth)
  type _ := (Delivers.typeIn hinner).mono fun _ _ h hdepth => h (Nat.le_of_lt_succ hdepth)

/-- With a level for each token the nesting never runs out. -/
theorem NestedDelivers.along (levels : List Token) :
    NestedDelivers (levels.length + 1) (nestedAlong levels) := by
  induction levels with
  | nil =>
      have hnothing : NestedDelivers 0 Nested.nothing :=
        ⟨fun s => (Retains.missingExpr s).mono fun _ _ _ h => absurd h (Nat.not_lt_zero _),
          fun s => (Retains.missingExpr s).mono fun _ _ _ h => absurd h (Nat.not_lt_zero _),
          fun s => (Retains.missingType s).mono fun _ _ _ h => absurd h (Nat.not_lt_zero _)⟩
      exact NestedDelivers.around hnothing
  | cons token levels ih => exact NestedDelivers.around ih

/-- **An expression lies over its tokens.** -/
theorem Delivers.expression : Delivers expression s (ExprFrom s) :=
  ((NestedDelivers.along s.rest).expression s).mono fun _ _ h => h (Nat.lt_succ_self _)

theorem Delivers.typeExpr : Delivers typeExpr s (TypeFrom s) :=
  ((NestedDelivers.along s.rest).type s).mono fun _ _ h => h (Nat.lt_succ_self _)

end Parser

end BehaviorTree
