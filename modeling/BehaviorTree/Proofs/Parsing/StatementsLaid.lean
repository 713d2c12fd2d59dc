import BehaviorTree.Parsing.Statement
import BehaviorTree.Proofs.Parsing.TermsLaid

/-!
# Statements of runs without errors

Arguments, preconditions, statements and blocks that are parsed without errors lie over the tokens
that were consumed for them, and all nodes that were made on the way are in them. Documentation in
front of a statement does not belong to it; its first precondition does.
-/

namespace BehaviorTree

open ParserState

/-- The pieces lie along what was consumed between the states, and as many nodes were made as the
stamps are of. -/
def PartsFrom (s : ParserState) (pieces : List Piece) (made : List Stamp) (s' : ParserState) : Prop :=
  ∃ ts, Stretch s ts made s' ∧ LaidAlong s.file pieces ts

namespace PartsFrom

variable {s s₁ s₂ : ParserState} {pieces more : List Piece} {made made' : List Stamp}

theorem gap {ts : List Token} (h : Stretch s ts [] s₁) : PartsFrom s [] [] s₁ := ⟨ts, h, .nil ts⟩

theorem trans (hfirst : PartsFrom s pieces made s₁) (hsecond : PartsFrom s₁ more made' s₂) :
    PartsFrom s (pieces ++ more) (made ++ made') s₂ := by
  obtain ⟨ts, hstretch, hlaid⟩ := hfirst
  obtain ⟨us, hstretch', hlaid'⟩ := hsecond
  rw [hstretch.file] at hlaid'
  exact ⟨ts ++ us, hstretch.trans hstretch', hlaid.append hlaid'⟩

theorem as (h : PartsFrom s pieces made s₁) (hpieces : pieces = more)
    (hcount : ∀ kind, Stamp.census kind made = Stamp.census kind made') :
    PartsFrom s more made' s₁ := by
  obtain ⟨ts, hstretch, hlaid⟩ := h
  exact ⟨ts, hstretch.as rfl hcount, hpieces ▸ hlaid⟩

/-- What is consumed behind the pieces. -/
theorem past (h : PartsFrom s pieces made s₁) (hgap : PartsFrom s₁ [] [] s₂) :
    PartsFrom s pieces made s₂ :=
  (h.trans hgap).as (List.append_nil _) (by simp)

theorem before {ts : List Token} (h : PartsFrom s pieces made s₁) (hgap : Stretch s₁ ts [] s₂) :
    PartsFrom s pieces made s₂ :=
  h.past (gap hgap)

theorem length_le (h : PartsFrom s pieces made s₁) : s₁.rest.length ≤ s.rest.length := by
  obtain ⟨ts, hstretch, -⟩ := h
  have hlength := hstretch.length_eq
  omega

/-- One more item. -/
theorem snoc {α : Type} {piece : α → Piece} {stamps : α → List Stamp} {items : List α} {item : α}
    (h : PartsFrom s (items.map piece) (items.flatMap stamps) s₁)
    (hitem : PartsFrom s₁ [piece item] (stamps item) s₂) :
    PartsFrom s ((items ++ [item]).map piece) ((items ++ [item]).flatMap stamps) s₂ := by
  simpa using h.trans hitem

end PartsFrom

/-- The piece lies over what was consumed between the states, which is not nothing. -/
def PieceFrom (s : ParserState) (piece : Piece) (made : List Stamp) (s' : ParserState) : Prop :=
  ∃ ts, ts ≠ [] ∧ Stretch s ts made s' ∧ Laid s.file piece ts

variable {s s₁ s₂ : ParserState} {made : List Stamp}

theorem PieceFrom.parts {piece : Piece} (h : PieceFrom s piece made s₁) : PartsFrom s [piece] made s₁ := by
  obtain ⟨ts, -, hstretch, hlaid⟩ := h
  exact ⟨ts, hstretch, .single hlaid⟩

theorem ExprFrom.piece {expr : Expr} (h : ExprFrom s expr s₁) :
    PieceFrom s (.expr expr) expr.stamps s₁ := by
  obtain ⟨ts, hstretch, hlaid, hscans⟩ := h
  refine ⟨ts, ?_, hstretch, hlaid⟩
  rintro rfl
  obtain ⟨first, hfirst, -⟩ := hscans.opens
  cases hfirst

theorem ExprFrom.parts {expr : Expr} (h : ExprFrom s expr s₁) :
    PartsFrom s [.expr expr] expr.stamps s₁ :=
  h.piece.parts

theorem TypeFrom.parts {type : TypeExpr} (h : TypeFrom s type s₁) :
    PartsFrom s [.type type] type.stamps s₁ := by
  obtain ⟨ts, hstretch, hlaid, -⟩ := h
  exact ⟨ts, hstretch, .single hlaid⟩

/-- A piece whose range is that from the first consumed token to the last. -/
theorem PartsFrom.piece {piece : Piece} (h : PartsFrom s piece.parts made s₁)
    (hleft : s₁.rest.length < s.rest.length)
    (hrange : piece.range = s₁.rangeSince s.current.range) : PieceFrom s piece made s₁ := by
  obtain ⟨ts, hstretch, hlaid⟩ := h
  cases ts with
  | nil =>
      have hlength := hstretch.length_eq
      rw [List.length_nil] at hlength
      omega
  | cons first ts =>
      have hfirst : s.current = first := by
        simp [ParserState.current, ParserState.tokenAt, hstretch.rest]
      refine ⟨first :: ts, by simp, hstretch, .mk (fun hregular => ?_) hlaid⟩
      rw [hrange, hfirst]
      exact hstretch.spans_rangeSince_cons hregular

namespace Parser

variable {s : ParserState}

theorem Took.gap {kind : TokenKind} {s s' : ParserState} (h : Took kind s s') :
    PartsFrom s [] [] s' := by
  obtain ⟨token, -, hstretch⟩ := h
  exact .gap hstretch

theorem Took.left {kind : TokenKind} {s s' : ParserState} (h : Took kind s s') :
    s'.rest.length < s.rest.length := by
  obtain ⟨token, -, hstretch⟩ := h
  have hlength := hstretch.length_eq
  rw [List.length_singleton] at hlength
  omega

theorem Took.kind_eq {kind : TokenKind} {s s' : ParserState} (h : Took kind s s') :
    s.current.kind = kind := by
  obtain ⟨token, hkind, hstretch⟩ := h
  simp [ParserState.current, ParserState.tokenAt, hstretch.rest, hkind]

/-! ### Parts of items -/

theorem Delivers.docComments : Delivers docComments s fun _ s' => PartsFrom s [] [] s' := by
  have hturn : ∀ docs s', Delivers (docTurn docs) s' fun _ s'' =>
      PartsFrom s [] [] s' → PartsFrom s [] [] s'' := by
    intro docs s'
    unfold Parser.docTurn
    refine Delivers.peek ?_
    split
    · rename_i hkind
      exact Delivers.advance_of hkind (by simp) fun s₁ h₁ => Delivers.pure fun h => h.before h₁
    · rename_i hkind
      refine Delivers.warn fun s₁ h₁ => ?_
      rw [← h₁.current] at hkind
      exact Delivers.advance_of hkind (by simp) fun s₂ h₂ => Delivers.pure fun h =>
        h.before (h₁.trans h₂)
    · exact Delivers.pure fun h => h
  exact (Delivers.iterate (fun _ s' => PartsFrom s [] [] s') hturn).mono fun _ _ h =>
    h (.gap (.refl s))

theorem Delivers.direction : Delivers direction s fun _ s' => PartsFrom s [] [] s' := by
  unfold Parser.direction
  refine Delivers.peek ?_
  split
  · rename_i direction hdirection
    obtain ⟨word, hword, -⟩ := Option.bind_eq_some_iff.mp hdirection
    have hkind := Token.kind_of_keyword? hword
    exact Delivers.advance_of hkind (by simp) fun s₁ h₁ => Delivers.pure (.gap h₁)
  · exact Delivers.pure (.gap (.refl s))

theorem Delivers.unclosedList {context : String} :
    Delivers (unclosedList context) s fun _ _ => False :=
  Delivers.fail Delivers.missing fun _ => Retains.pure _

theorem Delivers.listBreaksOff {β : Type} {inBody : Bool} {f : Bool → Parser β}
    {goal : β → ParserState → Prop} (hf : ∀ breaks, Delivers (f breaks) s goal) :
    Delivers (listBreaksOff inBody >>= f) s goal :=
  hf (s.current.isEndOfFile || s.startsConstruct inBody)

theorem Delivers.listGoesOn {context : String} {inBody : Bool} :
    Delivers (listGoesOn context inBody) s fun goesOn s' =>
      goesOn = true ∧ s' = s ∨ goesOn = false ∧ Took (.punctuation .rParen) s s' := by
  unfold Parser.listGoesOn
  refine Delivers.acceptPunctuation (fun hkind s₁ h₁ => Delivers.pure (.inr ⟨rfl, _, hkind, h₁⟩))
    fun _ => ?_
  rw [if_neg Bool.false_ne_true]
  refine Delivers.listBreaksOff fun breaks => ?_
  split
  · exact Delivers.fail Delivers.unclosedList fun _ => Retains.pure _
  · exact Delivers.pure (.inl ⟨rfl, rfl⟩)

/-- Behind an item of a list comes a comma or the end of the list. -/
theorem Delivers.listContinues {context what : String} {inBody : Bool} {set : RecoverySet} :
    Delivers (listContinues context what inBody set) s fun _ s' =>
      Took (.punctuation .comma) s s' ∨ Took (.punctuation .rParen) s s' := by
  unfold Parser.listContinues
  refine Delivers.acceptPunctuation (fun hkind s₁ h₁ => Delivers.pure (.inl ⟨_, hkind, h₁⟩))
    fun _ => ?_
  refine Delivers.bind Delivers.listGoesOn fun goesOn s₁ => ?_
  split
  · refine Delivers.fail Delivers.expected fun _ => Retains.bind (Retains.synchronize set) fun _ => ?_
    refine Retains.bind (Retains.acceptPunctuation _) fun comma => ?_
    split
    · exact Retains.pure _
    · exact Retains.bind (Retains.acceptPunctuation _) fun _ => Retains.pure _
  · rename_i hends
    refine Delivers.pure ?_
    rintro (⟨hgoes, -⟩ | ⟨-, hclosed⟩)
    · exact absurd hgoes hends
    · exact .inr hclosed

/-- An item of a list and what comes behind it. -/
theorem partsFrom_listed {α : Type} {piece : α → Piece} {stamps : α → List Stamp} {items : List α}
    {item : α} {goesOn : Bool} {s₀ s₁ s₂ s₃ : ParserState}
    (h : PartsFrom s₀ (items.map piece) (items.flatMap stamps) s) (hgoesOn : goesOn = true)
    (hopen : goesOn = true ∧ s₁ = s ∨ goesOn = false ∧ Took (.punctuation .rParen) s s₁)
    (hitem : PartsFrom s₁ [piece item] (stamps item) s₂)
    (hbehind : Took (.punctuation .comma) s₂ s₃ ∨ Took (.punctuation .rParen) s₂ s₃) :
    PartsFrom s₀ ((items ++ [item]).map piece) ((items ++ [item]).flatMap stamps) s₃ := by
  obtain ⟨-, rfl⟩ := hopen.resolve_right fun hends => by simp [hgoesOn] at hends
  exact (h.snoc hitem).past (hbehind.elim Took.gap Took.gap)

theorem Delivers.declaredType : Delivers declaredType s fun type s' =>
    PartsFrom s (typedPieces type none) (stampsOfType type) s' := by
  unfold Parser.declaredType
  refine Delivers.acceptPunctuation (fun hkind s₁ h₁ => ?_) fun _ => Delivers.pure (.gap (.refl s))
  refine Delivers.map Delivers.typeExpr fun type s₂ htype => ?_
  exact ((PartsFrom.gap h₁).trans htype.parts).as rfl (by simp)

theorem Delivers.initializer : Delivers initializer s fun init s' =>
    PartsFrom s (typedPieces none init) (stampsOfExpr init) s' := by
  unfold Parser.initializer
  refine Delivers.acceptOperator (fun hkind s₁ h₁ => ?_) fun _ => Delivers.pure (.gap (.refl s))
  refine Delivers.map Delivers.expression fun init s₂ hinit => ?_
  exact ((PartsFrom.gap h₁).trans hinit.parts).as rfl (by simp)

theorem Delivers.varParts {set : RecoverySet} (hcurrent : s.current.isEndOfFile = false) :
    Delivers (varParts set) s fun parts s' => s'.rest.length < s.rest.length ∧
      ∃ name type init, parts = some ⟨name, type, init⟩ ∧
        PartsFrom s (typedPieces type init) (stampsOfType type ++ stampsOfExpr init) s' := by
  unfold Parser.varParts
  refine Delivers.advance hcurrent fun s₁ h₁ => ?_
  refine Delivers.bind Delivers.expectName fun name s₂ => ?_
  cases name with
  | none =>
      refine (Retains.bind (Retains.acceptPunctuation _) fun _ => Retains.pure _ : Retains _) _ |>.mono
        fun _ _ _ h => ?_
      obtain ⟨token, -, hnone, -⟩ := h
      cases hnone
  | some name =>
      refine Delivers.bind Delivers.declaredType fun type s₃ => ?_
      refine Delivers.bind Delivers.initializer fun init s₄ => ?_
      refine Delivers.bind Delivers.expectSemi fun _ s₅ => Delivers.pure ?_
      rintro hsemi hinit htype ⟨token, -, -, h₂⟩
      have hlength := h₁.length_eq
      have hparts := (((PartsFrom.gap (h₁.trans h₂)).trans htype).trans hinit).trans hsemi.gap
      refine ⟨?_, name, type, init, rfl, hparts.as ?_ (by simp)⟩
      · have hlengths := ((PartsFrom.gap h₂).trans (htype.trans (hinit.trans hsemi.gap))).length_le
        rw [List.length_singleton] at hlength
        omega
      · simp [typedPieces]

theorem Delivers.constParts {set : RecoverySet} (hcurrent : s.current.isEndOfFile = false) :
    Delivers (constParts set) s fun parts s' => s'.rest.length < s.rest.length ∧
      ∃ name type value, parts = some ⟨name, type, value⟩ ∧
        PartsFrom s (typedPieces type (some value)) (stampsOfType type ++ value.stamps) s' := by
  unfold Parser.constParts
  refine Delivers.advance hcurrent fun s₁ h₁ => ?_
  refine Delivers.bind Delivers.expectName fun name s₂ => ?_
  cases name with
  | none =>
      refine (Retains.bind (Retains.acceptPunctuation _) fun _ => Retains.pure _ : Retains _) _ |>.mono
        fun _ _ _ h => ?_
      obtain ⟨token, -, hnone, -⟩ := h
      cases hnone
  | some name =>
      refine Delivers.bind Delivers.declaredType fun type s₃ => ?_
      refine Delivers.bind Delivers.expectOperator fun equals s₄ => ?_
      dsimp only
      split
      · refine Delivers.bind Delivers.expression fun value s₅ => ?_
        refine Delivers.bind Delivers.expectSemi fun _ s₆ => Delivers.pure ?_
        rintro hsemi hvalue ⟨-, hequals⟩ htype ⟨token, -, -, h₂⟩
        have hlength := h₁.length_eq
        have hparts := ((((PartsFrom.gap (h₁.trans h₂)).trans htype).trans hequals.gap).trans
          hvalue.parts).trans hsemi.gap
        refine ⟨?_, name, type, value, rfl, hparts.as ?_ (by simp)⟩
        · have hlengths := ((PartsFrom.gap h₂).trans (htype.trans (hequals.gap.trans
            (hvalue.parts.trans hsemi.gap)))).length_le
          rw [List.length_singleton] at hlength
          omega
        · simp [typedPieces]
      · rename_i hfound
        refine (Retains.bind Retains.missingExpr fun _ => Retains.bind
          (fun _ => Delivers.expectSemi.retains) fun _ => Retains.pure _ : Retains _) _ |>.mono
          fun _ _ _ h => absurd h.1 hfound

/-- What is stepped over belongs to no piece. -/
theorem Delivers.orStepOver {α : Type} {p : Parser α} {exempt : Token → Bool}
    {pieces : α → List Piece} {made : α → List Stamp}
    (hp : Delivers p s fun a s' => PartsFrom s (pieces a) (made a) s') :
    Delivers (orStepOver p exempt) s fun a s' => PartsFrom s (pieces a) (made a) s' := by
  intro hguarded
  obtain ⟨hguarded', h⟩ := hp hguarded
  have hrun : Parser.orStepOver p exempt s =
      if (p s).2.position = s.position ∧ !exempt (p s).2.current then
        ((p s).1, (Parser.advance (p s).2).2)
      else p s := rfl
  rw [hrun]
  split
  · obtain ⟨hguarded'', hkept⟩ := Retains.advance (p s).2 hguarded'
    refine ⟨hguarded'', fun herrorless => ?_⟩
    obtain ⟨hbefore, hparts⟩ := h (hkept herrorless).1
    refine ⟨hbefore, ?_⟩
    show PartsFrom s (pieces (p s).1) (made (p s).1)
      (if (p s).2.current.isEndOfFile then (p s).2 else (p s).2.skip 1)
    split
    · exact hparts
    · rename_i hcurrent
      exact hparts.before (hguarded'.stretch_skip (by simpa using hcurrent))
  · exact ⟨hguarded', h⟩

/-! ### Preconditions -/

end Parser

/-- The preconditions lie along what was consumed between the states, from the first token on. -/
def PreconditionsFrom (s : ParserState) (found : List Precondition) (s' : ParserState) : Prop :=
  ∃ ts, Stretch s ts (found.flatMap Precondition.stamps) s' ∧
    LaidAlong s.file (found.map .precondition) ts ∧ (found = [] → ts = []) ∧
    ∀ first ∈ found.head?, ∃ us vs, ts = us ++ vs ∧ Laid s.file (.precondition first) us

theorem PreconditionsFrom.nil (s : ParserState) : PreconditionsFrom s [] s :=
  ⟨[], .refl s, .nil _, fun _ => rfl, by simp⟩

theorem PreconditionsFrom.snoc {found : List Precondition} {precondition : Precondition}
    (h : PreconditionsFrom s found s₁)
    (hlast : PieceFrom s₁ (.precondition precondition) precondition.stamps s₂) :
    PreconditionsFrom s (found ++ [precondition]) s₂ := by
  obtain ⟨ts, hstretch, hlaid, hnone, hfirst⟩ := h
  obtain ⟨us, -, hstretch', hlaid'⟩ := hlast
  rw [hstretch.file] at hlaid'
  refine ⟨ts ++ us, (hstretch.trans hstretch').as rfl (by simp), ?_, by simp, ?_⟩
  · simpa using hlaid.append (.single hlaid')
  · cases found with
    | nil =>
        rintro first hmem
        obtain rfl : precondition = first := by simpa using hmem
        exact ⟨us, [], by simp [hnone rfl], hlaid'⟩
    | cons first rest =>
        intro first' hmem
        obtain ⟨vs, ws, rfl, hlaid''⟩ := hfirst first' (by simpa using hmem)
        exact ⟨vs, ws ++ us, by simp, hlaid''⟩

namespace Parser

variable {s : ParserState}

theorem Retains.preconditionBehind (found : List Precondition) (start : SourceRange)
    (kind : Option PreconditionKind) : Retains (preconditionBehind found start kind) := by
  unfold Parser.preconditionBehind Parser.preconditionClosed
  dsimp only
  refine Retains.bind (fun _ => Delivers.expectPunctuation.retains) fun opened => ?_
  split
  · refine Retains.bind (fun _ => Delivers.expression.retains) fun condition => ?_
    refine Retains.bind (fun _ => Delivers.expectPunctuation.retains) fun _ => ?_
    cases kind with
    | none => exact fun _ => Delivers.rangeSince (Delivers.pure trivial)
    | some kind => exact fun _ => Delivers.rangeSince (Delivers.pure trivial)
  · exact Retains.pure _

/-- A precondition of a known kind lies along what was consumed since it started. -/
theorem Delivers.preconditionBehind (found : List Precondition) {start : ParserState}
    (kind : PreconditionKind) :
    Delivers (preconditionBehind found start.current.range (some kind)) s fun turn s' =>
      ∀ s₀, PartsFrom start [] [] s → PreconditionsFrom s₀ found start →
        PreconditionsFrom s₀ turn.value s' := by
  unfold Parser.preconditionBehind Parser.preconditionClosed
  refine Delivers.bind Delivers.expectPunctuation fun opened s₁ => ?_
  split
  · refine Delivers.bind Delivers.expression fun condition s₂ => ?_
    refine Delivers.bind Delivers.expectPunctuation fun _ s₃ => ?_
    refine Delivers.rangeSince (Delivers.pure ?_)
    rintro ⟨-, hclosed⟩ hcondition ⟨-, hopened⟩ s₀ hname hfound
    have hopening := (hname.trans hopened.gap).trans hcondition.parts
    have hparts := hopening.past hclosed.gap
    refine hfound.snoc (PartsFrom.piece (hparts.as (by simp [Piece.parts]) (by simp)) ?_ rfl)
    have hlength := hopening.length_le
    have hleft := hclosed.left
    omega
  · rename_i hopened
    exact Delivers.pure fun h => absurd h.1 hopened

theorem Delivers.preconditionTurn (found : List Precondition) :
    Delivers (preconditionTurn found) s fun turn s' =>
      ∀ s₀, PreconditionsFrom s₀ found s → PreconditionsFrom s₀ turn.value s' := by
  unfold Parser.preconditionTurn
  dsimp only
  refine Delivers.peek (Delivers.acceptPunctuation (fun hat s₁ h₁ => ?_) fun _ => ?_)
  · refine Delivers.bind Delivers.expectName fun name s₂ => ?_
    cases name with
    | none =>
        refine (Retains.bind (Retains.acceptPunctuation _) fun _ => Retains.pure _ : Retains _) _ |>.mono
          fun _ _ _ h => ?_
        obtain ⟨token, -, hnone, -⟩ := h
        cases hnone
    | some name =>
        dsimp only
        cases hkind : PreconditionKind.ofSpelling? name.text with
        | none =>
            rw [if_pos rfl]
            exact Delivers.fail (Delivers.report rfl) fun _ => Retains.preconditionBehind found _ _
        | some kind =>
            rw [if_neg (by simp)]
            refine (Delivers.preconditionBehind found kind).mono fun turn s' hturn => ?_
            rintro ⟨token, -, -, h₂⟩ s₀ hfound
            exact hturn s₀ (.gap (h₁.trans h₂)) hfound
  · exact Delivers.pure fun _ h => h

theorem Delivers.preconditions : Delivers preconditions s (PreconditionsFrom s) :=
  (Delivers.iterate (fun found s' => PreconditionsFrom s found s') fun found _ =>
    (Delivers.preconditionTurn found).mono fun _ _ h => h s).mono fun _ _ h => h (.nil s)

/-! ### Arguments -/

theorem Delivers.argumentName : Delivers argumentName s fun name s' =>
    PartsFrom s [] (name.toList.map .name) s' := by
  unfold Parser.argumentName
  refine Delivers.peek (Delivers.peekSecond ?_)
  split
  · rename_i hboth
    obtain ⟨hname, hcolon⟩ := Bool.and_eq_true_iff.mp hboth
    have hkind : s.current.kind = .identifier := by simpa [Token.isIdentifier] using hname
    refine Delivers.advance_of hkind (by simp) fun s₁ h₁ => ?_
    have hkind₁ : s₁.current.kind = .punctuation .colon := by
      rw [h₁.current_of_cons]
      simpa [Token.isPunctuation] using hcolon
    refine Delivers.advance_of hkind₁ (by simp) fun s₂ h₂ => ?_
    refine Delivers.nameOf (f := fun name => Pure.pure (some name)) fun s₃ h₃ => Delivers.pure ?_
    exact (PartsFrom.gap (h₁.trans (h₂.trans h₃))).as rfl fun _ => (Stamp.census_name _ _).symm
  · exact Delivers.pure (.gap (.refl s))

theorem Delivers.argument : Delivers argument s fun argument s' =>
    PieceFrom s (.argument argument) argument.stamps s' := by
  unfold Parser.argument
  refine Delivers.peek (Delivers.bind Delivers.argumentName fun name s₁ => ?_)
  refine Delivers.bind Delivers.direction fun direction s₂ => ?_
  refine Delivers.bind Delivers.expression fun value s₃ => ?_
  refine Delivers.rangeSince (Delivers.pure fun hvalue hdirection hname => ?_)
  have hparts := (hname.trans hdirection).trans hvalue.parts
  refine PartsFrom.piece (hparts.as rfl (by simp)) ?_ rfl
  have hlength := (hname.trans hdirection).length_le
  have hleft := hvalue.some_left
  omega

theorem Delivers.argumentTurn (arguments : List Argument) :
    Delivers (argumentTurn arguments) s fun turn s' =>
      ∀ s₀, PartsFrom s₀ (arguments.map .argument) (arguments.flatMap Argument.stamps) s →
        PartsFrom s₀ (turn.value.map .argument) (turn.value.flatMap Argument.stamps) s' := by
  unfold Parser.argumentTurn
  dsimp only
  refine Delivers.bind Delivers.listGoesOn fun goesOn s₁ => ?_
  split
  · refine Delivers.bind Delivers.argument fun argument s₂ => ?_
    refine Delivers.bind Delivers.listContinues fun continues s₃ => ?_
    rename_i hgoesOn
    split
    · exact Delivers.pure fun hbehind hitem hgoes s₀ h => partsFrom_listed h hgoesOn hgoes hitem.parts hbehind
    · exact Delivers.pure fun hbehind hitem hgoes s₀ h => partsFrom_listed h hgoesOn hgoes hitem.parts hbehind
  · rename_i hends
    refine Delivers.pure ?_
    rintro (⟨hgoesOn, -⟩ | ⟨-, hclosed⟩) s₀ h
    · exact absurd hgoesOn hends
    · exact h.past hclosed.gap

theorem Delivers.arguments : Delivers arguments s fun arguments s' =>
    PartsFrom s ((arguments.getD []).map .argument)
      ((arguments.getD []).flatMap Argument.stamps) s' := by
  unfold Parser.arguments
  refine Delivers.acceptPunctuation (fun hkind s₁ h₁ => ?_) fun _ => Delivers.pure (.gap (.refl s))
  refine Delivers.map (Delivers.iterate (fun arguments s' => PartsFrom s (arguments.map .argument)
    (arguments.flatMap Argument.stamps) s') fun arguments s' =>
      (Delivers.argumentTurn arguments).mono fun _ _ h => h s) fun arguments s₂ h => ?_
  exact h (.gap h₁)

/-! ### Bare statements -/

theorem Delivers.indexTurn (indices : List Expr) :
    Delivers (indexTurn indices) s fun turn s' =>
      ∀ s₀, PartsFrom s₀ (indices.map .expr) (indices.flatMap Expr.stamps) s →
        PartsFrom s₀ (turn.value.map .expr) (turn.value.flatMap Expr.stamps) s' := by
  unfold Parser.indexTurn
  dsimp only
  refine Delivers.acceptPunctuation (fun _ s₁ h₁ => ?_) fun _ => Delivers.pure fun _ h => h
  refine Delivers.bind Delivers.expression fun index s₂ => ?_
  have hturn : ∀ {s₃}, PartsFrom s₂ [] [] s₃ → ExprFrom s₁ index s₂ → ∀ s₀,
      PartsFrom s₀ (indices.map .expr) (indices.flatMap Expr.stamps) s →
        PartsFrom s₀ ((indices ++ [index]).map .expr)
          ((indices ++ [index]).flatMap Expr.stamps) s₃ := by
    intro s₃ hgap hindex s₀ h
    have hlast := ((PartsFrom.gap h₁).trans hindex.parts).trans hgap
    exact h.snoc (hlast.as (by simp) (by simp))
  refine Delivers.acceptPunctuation (fun _ s₃ h₃ => Delivers.pure (hturn (.gap h₃))) fun _ => ?_
  refine Delivers.peek ?_
  split
  · exact Delivers.fail Delivers.expected fun _ => Retains.pure _
  · exact Delivers.bind Delivers.expectPunctuation fun _ s₃ => Delivers.pure fun h => hturn h.2.gap

end Parser

/-- A statement in want of its head lies along what was consumed between the states. -/
def BareFrom (s : ParserState) (build : StmtHead → Stmt) (s' : ParserState) : Prop :=
  s'.rest.length < s.rest.length ∧ ∃ pieces made, PartsFrom s pieces made s' ∧
    ∀ head, (build head).head = head ∧ (build head).pieces = head.pieces ++ pieces ∧
      (build head).stamps = head.stamps ++ made

namespace Parser

variable {s : ParserState}

theorem Retains.abandonStatement : Retains abandonStatement :=
  Retains.bind (Retains.synchronize _) fun _ =>
    Retains.bind (Retains.acceptPunctuation _) fun _ => Retains.pure _

theorem Delivers.assignment (hcurrent : s.current.isEndOfFile = false) :
    Delivers assignment s fun result s' => ∃ build, result = some build ∧ BareFrom s build s' := by
  unfold Parser.assignment
  refine Delivers.advance hcurrent fun s₁ h₁ => Delivers.nameOf fun s₂ h₂ => ?_
  refine Delivers.bind (Delivers.iterate (fun indices s' => PartsFrom s (indices.map .expr)
    (indices.flatMap Expr.stamps) s') fun indices s' =>
      (Delivers.indexTurn indices).mono fun _ _ h => h s) fun indices s₃ => ?_
  refine Delivers.peek ?_
  split
  · rename_i op hop
    obtain ⟨word, hword, -⟩ := Option.bind_eq_some_iff.mp hop
    have hkind := Token.kind_of_operator? hword
    refine Delivers.advance_of hkind (by simp) fun s₄ h₄ => ?_
    refine Delivers.bind Delivers.expression fun value s₅ => ?_
    refine Delivers.bind Delivers.expectSemi fun _ s₆ => Delivers.pure fun hsemi hvalue hindices => ?_
    have hbefore := hindices (.gap (h₁.trans h₂))
    have hparts := (hbefore.trans (PartsFrom.gap h₄)).trans (hvalue.parts.trans hsemi.gap)
    refine ⟨_, rfl, ?_, _, _, hparts.as (by simp) (by simp), fun head => ⟨rfl, rfl, rfl⟩⟩
    have hlength := (hbefore.trans ((PartsFrom.gap h₄).trans hvalue.parts)).length_le
    have hleft := hsemi.left
    omega
  · refine Delivers.fail Delivers.expected fun _ => ?_
    exact Retains.bind Retains.abandonStatement fun _ => Retains.pure _

theorem Delivers.semicolonAfterBlock :
    Delivers semicolonAfterBlock s fun _ s' => PartsFrom s [] [] s' := by
  unfold Parser.semicolonAfterBlock
  refine Delivers.peek (Delivers.acceptPunctuation (fun _ s₁ h₁ => ?_) fun _ => Delivers.pure (.gap (.refl s)))
  exact Delivers.mono (Delivers.report rfl) fun _ _ h => h.elim

/-- What a parser for the block of a node delivers. -/
def BlockDelivers (block : Parser (List Stmt)) : Prop :=
  ∀ s, s.current.isEndOfFile = false → Delivers block s fun stmts s' =>
    PartsFrom s (stmts.map .stmt) (stmts.flatMap Stmt.stamps) s'

section Block

variable {block : Parser (List Stmt)}

theorem Delivers.leafBehind (callee : Name) (arguments : Option (List Argument)) :
    Delivers (leafBehind callee arguments) s fun result s' => ∀ s₀,
      PartsFrom s₀ ((arguments.getD []).map .argument) ((arguments.getD []).flatMap Argument.stamps) s →
        ∃ build, result = some build ∧ BareFrom s₀ build s' := by
  unfold Parser.leafBehind
  cases arguments with
  | some arguments =>
      refine Delivers.bind Delivers.expectSemi fun _ s₁ => Delivers.pure fun hsemi s₀ harguments => ?_
      have hparts := harguments.past hsemi.gap
      refine ⟨_, rfl, ?_, _, _, hparts.as (by simp) (by simp), fun head => ⟨rfl, rfl, rfl⟩⟩
      have hlength := harguments.length_le
      have hleft := hsemi.left
      omega
  | none =>
      refine Delivers.fail Delivers.expectedWithHelp fun _ => ?_
      exact Retains.bind Retains.abandonStatement fun _ => Retains.pure _

theorem Delivers.node (hblock : BlockDelivers block) (hcurrent : s.current.isEndOfFile = false) :
    Delivers (node block) s fun result s' => ∃ build, result = some build ∧ BareFrom s build s' := by
  unfold Parser.node
  refine Delivers.advance hcurrent fun s₁ h₁ => Delivers.nameOf fun s₂ h₂ => ?_
  have hname : PartsFrom s [] [] s₂ := .gap (h₁.trans h₂)
  refine Delivers.bind Delivers.arguments fun arguments s₃ => Delivers.atPunctuation ?_
  split
  · rename_i hopens
    have hcurrent₃ : s₃.current.isEndOfFile = false := by
      have hkind : s₃.current.kind = .punctuation .lBrace := by simpa [Token.isPunctuation] using hopens
      simp [Token.isEndOfFile, hkind]
    refine Delivers.bind (hblock s₃ hcurrent₃) fun children s₄ => ?_
    refine Delivers.bind Delivers.semicolonAfterBlock fun _ s₅ => Delivers.pure ?_
    intro hsemi hchildren harguments
    have hbehind := harguments.trans (hchildren.trans hsemi)
    refine ⟨_, rfl, ?_, _, _, (hname.trans hbehind).as (by simp) (by simp [Stmt.stampsAll_eq_flatMap]),
      fun head => ⟨rfl, rfl, rfl⟩⟩
    have hlength := hbehind.length_le
    have hleft := (h₁.trans h₂).length_eq
    rw [List.append_nil, List.length_singleton] at hleft
    omega
  · refine (Delivers.leafBehind _ arguments).mono fun result s' hbuilt harguments => ?_
    exact hbuilt s ((hname.trans harguments).as (by simp) (by simp))

theorem Retains.foreignPart (shape : ForeignShape) (again : Unit) :
    Retains (foreignPart shape again) := by
  unfold Parser.foreignPart
  refine Retains.bind (Retains.skip _) fun _ => Retains.atPunctuation fun opened => ?_
  split
  · refine Retains.bind (Retains.skip _) fun _ => Retains.peek fun next => ?_
    split
    · exact Retains.bind Retains.advance fun _ => Retains.pure _
    · exact Retains.pure _
  · exact Retains.bind (Retains.acceptPunctuation _) fun _ => Retains.pure _

theorem Delivers.skipForeign {word : ForeignWord} :
    Delivers (skipForeign word) s fun _ _ => False :=
  Delivers.peek (Delivers.fail (Delivers.reportOnce rfl) fun _ =>
    Retains.bind Retains.advance fun _ => Retains.iterate (Retains.foreignPart _))

theorem Delivers.danglingDocs {range : Option SourceRange} :
    Delivers (danglingDocs range) s fun _ s' => Stretch s [] [] s' := by
  unfold Parser.danglingDocs
  cases range with
  | none => exact Delivers.pure (.refl s)
  | some range => exact Delivers.of_bind_pure (Delivers.warn fun s₁ h₁ => Delivers.pure h₁)

/-- Without an error nothing stands in front of no statement but documentation. -/
theorem Delivers.unattached (preconditions : List Precondition) (docs : Docs) :
    Delivers (unattached preconditions docs) s fun _ s' => preconditions = [] ∧ Stretch s [] [] s' := by
  unfold Parser.unattached
  cases preconditions with
  | cons first rest => exact Delivers.mono (Delivers.report rfl) fun _ _ h => h.elim
  | nil => exact Delivers.danglingDocs.mono fun _ _ h => ⟨rfl, h⟩

theorem Delivers.bareStatement (hblock : BlockDelivers block) (preconditions : List Precondition)
    (docs : Docs) :
    Delivers (bareStatement block preconditions docs) s fun result s' =>
      result = none ∧ preconditions = [] ∧ Stretch s [] [] s' ∨
        ∃ build, result = some build ∧ BareFrom s build s' := by
  unfold Parser.bareStatement
  refine Delivers.peek ?_
  split
  · rename_i hkind
    refine Delivers.bind (Delivers.varParts (by simp [Token.isEndOfFile, hkind])) fun parts s₁ =>
      Delivers.pure ?_
    rintro ⟨hleft, name, type, init, rfl, hparts⟩
    exact .inr ⟨_, rfl, hleft, _, _, hparts.as rfl (by simp), fun head => ⟨rfl, rfl, rfl⟩⟩
  · rename_i hkind
    refine Delivers.bind (Delivers.constParts (by simp [Token.isEndOfFile, hkind])) fun parts s₁ =>
      Delivers.pure ?_
    rintro ⟨hleft, name, type, value, rfl, hparts⟩
    exact .inr ⟨_, rfl, hleft, _, _, hparts.as rfl (by simp), fun head => ⟨rfl, rfl, rfl⟩⟩
  · rename_i hkind
    have hcurrent : s.current.isEndOfFile = false := by simp [Token.isEndOfFile, hkind]
    split
    · exact Delivers.fail Delivers.skipForeign fun _ => Retains.pure _
    · have hturn : ∀ isAssignment : Bool, Delivers
          (if isAssignment = true then Parser.assignment else Parser.node block) s fun result s' =>
            result = none ∧ preconditions = [] ∧ Stretch s [] [] s' ∨
              ∃ build, result = some build ∧ BareFrom s build s' := by
        intro isAssignment
        split
        · exact (Delivers.assignment hcurrent).mono fun _ _ h => .inr h
        · exact (Delivers.node hblock hcurrent).mono fun _ _ h => .inr h
      exact hturn (Skip.assignmentFollows 0 (s.rest.drop 1))
  · refine Delivers.bind (Delivers.unattached preconditions docs) fun _ s₁ => Delivers.pure ?_
    exact fun h => .inl ⟨rfl, h⟩
  · refine Delivers.bind (Delivers.unattached preconditions docs) fun _ s₁ => Delivers.pure ?_
    exact fun h => .inl ⟨rfl, h⟩
  · split
    · refine Delivers.bind (Delivers.unattached preconditions docs) fun _ s₁ => Delivers.pure ?_
      exact fun h => .inl ⟨rfl, h⟩
    · refine Delivers.fail Delivers.expectedWithHelp fun _ => ?_
      exact Retains.bind Retains.abandonStatement fun _ => Retains.pure _

end Block

end Parser

/-- A statement lies over its preconditions and what follows them. -/
theorem BareFrom.statement {found : List Precondition} {build : StmtHead → Stmt} {docs : List String}
    {id : Nat} {range : SourceRange} {s₃ : ParserState} (hfound : PreconditionsFrom s found s₁)
    (hbare : BareFrom s₁ build s₂) (hnew : Stretch s₂ [] [.node .stmt id] s₃)
    (hrange : range = s₂.rangeSince ((found.head?.map Precondition.range).getD s₁.current.range)) :
    PieceFrom s (.stmt (build ⟨⟨id, range⟩, docs, found⟩))
      (build ⟨⟨id, range⟩, docs, found⟩).stamps s₃ := by
  obtain ⟨ts, hstretch, hlaid, hnone, hfirst⟩ := hfound
  obtain ⟨hleft, pieces, made, ⟨us, hstretch', hlaid'⟩, hbuild⟩ := hbare
  obtain ⟨hhead, hpieces, hstamps⟩ := hbuild ⟨⟨id, range⟩, docs, found⟩
  have hlength := hstretch'.length_eq
  have hwhole := hstretch.trans hstretch'
  rw [hstretch.file] at hlaid'
  refine ⟨ts ++ us, ?_, (hwhole.trans hnew).as (List.append_nil _) fun kind => ?_, .mk (fun hregular => ?_) ?_⟩
  · rintro hnil
    rw [(List.append_eq_nil_iff.mp hnil).2, List.length_nil] at hlength
    omega
  · rw [hstamps]
    simp
    omega
  · rw [Piece.range, Stmt.range, hhead, hrange]
    cases found with
    | nil =>
        cases us with
        | nil =>
            rw [List.length_nil] at hlength
            omega
        | cons token us =>
            have hcurrent : s₁.current = token := by
              simp [ParserState.current, ParserState.tokenAt, hstretch'.rest]
            rw [hnone rfl] at hwhole hregular ⊢
            show (s₂.rangeSince s₁.current.range).Spans _
            rw [hcurrent]
            exact hwhole.spans_rangeSince_cons hregular
    | cons first rest =>
        obtain ⟨vs, ws, rfl, hlaidFirst⟩ := hfirst first rfl
        rw [List.append_assoc] at hwhole hregular ⊢
        exact hwhole.spans_rangeSince hlaidFirst.spans hregular
  · show LaidAlong s.file (build _).pieces _
    rw [hpieces]
    exact hlaid.append hlaid'

namespace Parser

variable {s : ParserState}

/-! ### Statements and blocks -/

theorem Delivers.statement {block : Parser (List Stmt)} (hblock : BlockDelivers block) :
    Delivers (statement block) s fun stmt s' =>
      PartsFrom s (stmt.toList.map .stmt) (stmt.toList.flatMap Stmt.stamps) s' := by
  unfold Parser.statement
  refine Delivers.bind Delivers.docComments fun docs s₁ => ?_
  refine Delivers.bind Delivers.preconditions fun preconditions s₂ => Delivers.peek ?_
  refine Delivers.bind (Delivers.bareStatement hblock preconditions docs) fun result s₃ => ?_
  cases result with
  | none =>
      refine Delivers.pure ?_
      rintro (⟨-, hnone, hbare⟩ | ⟨build, hbuild, -⟩) ⟨ts, hstretch, -⟩ hdocs
      · subst hnone
        exact hdocs.past (.gap (hstretch.trans hbare))
      · cases hbuild
  | some build =>
      refine Delivers.rangeSince (Delivers.newStmt (f := fun stmt => Pure.pure (some stmt))
        fun id s₄ h₄ => Delivers.pure ?_)
      rintro (⟨hnone, -⟩ | ⟨build, ⟨rfl⟩, hbare⟩) hpreconditions hdocs
      · cases hnone
      · exact (hdocs.trans (hbare.statement hpreconditions h₄ rfl).parts).as rfl (by simp)

theorem Delivers.blockTurn {statement : Parser (Option Stmt)} {opening : SourceRange}
    (hstatement : ∀ s, Delivers statement s fun stmt s' =>
      PartsFrom s (stmt.toList.map .stmt) (stmt.toList.flatMap Stmt.stamps) s')
    (stmts : List Stmt) :
    Delivers (blockTurn statement opening stmts) s fun turn s' =>
      ∀ s₀, PartsFrom s₀ (stmts.map .stmt) (stmts.flatMap Stmt.stamps) s →
        PartsFrom s₀ (turn.value.map .stmt) (turn.value.flatMap Stmt.stamps) s' := by
  unfold Parser.blockTurn
  refine Delivers.acceptPunctuation (fun _ s₁ h₁ => Delivers.pure fun _ h => h.before h₁) fun _ => ?_
  refine Delivers.peek ?_
  split
  · have herror : (SyntaxReport.unclosedBlock s.current opening).isError = true := by
      rw [Diagnostic.isError, SyntaxReport.severity_unclosedBlock]
      rfl
    exact Delivers.fail (Delivers.reportOnce herror) fun _ => Retains.pure _
  · refine Delivers.bind (Delivers.orStepOver (hstatement s)) fun stmt s₁ => Delivers.pure ?_
    intro hstmt s₀ h
    exact (h.trans hstmt).as (by simp [Turn.value]) (by simp [Turn.value])

theorem BlockDelivers.of_statement {statement : Parser (Option Stmt)}
    (hstatement : ∀ s, Delivers statement s fun stmt s' =>
      PartsFrom s (stmt.toList.map .stmt) (stmt.toList.flatMap Stmt.stamps) s') :
    BlockDelivers (blockOf statement) := by
  intro s hcurrent
  unfold Parser.blockOf
  refine Delivers.advance hcurrent fun s₁ h₁ => ?_
  refine (Delivers.iterate (fun stmts s' => PartsFrom s (stmts.map .stmt)
    (stmts.flatMap Stmt.stamps) s') fun stmts s' =>
      (Delivers.blockTurn hstatement stmts).mono fun _ _ h => h s).mono fun _ _ h => h (.gap h₁)

/-- A parser that gives up nesting delivers too: nothing was consumed for what it leaves out. -/
theorem BlockDelivers.along (levels : List Token) : BlockDelivers (blockAlong levels) := by
  induction levels with
  | nil =>
      refine .of_statement fun s => Delivers.statement fun s' _ => ?_
      exact Delivers.pure (.gap (.refl s'))
  | cons token levels ih => exact .of_statement fun s => Delivers.statement ih

/-- **The statements of a block lie along its tokens.** -/
theorem BlockDelivers.block : BlockDelivers block :=
  fun s hcurrent => BlockDelivers.along s.rest s hcurrent

end Parser

end BehaviorTree
