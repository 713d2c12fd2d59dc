import BehaviorTree.Proofs.Parsing.Omission
import BehaviorTree.Proofs.Parsing.TermsAgree

/-!
# Terms in front of a missing terminator

Expectations, types and expressions. In a silent run they end in front of the `;`, and without it
they end in the same place.
-/

namespace BehaviorTree

namespace Parser

open ParserState

variable {α β : Type} {o : Omission} {level level' bound : Nat}
  {post : β → β → ParserState → ParserState → Prop}

/-! ### Expectations -/

/-- What an expectation does that is not met. -/
theorem Grows.recovery (mark : Punctuation) (set : RecoverySet) (recovery : Recovery) :
    Grows (match recovery with
      | .insert => Pure.pure false
      | .skip => do
        Parser.synchronize set
        Parser.acceptPunctuation mark) := by
  cases recovery with
  | insert => exact Grows.pure false
  | skip => exact (Grows.synchronize set).bind fun _ => Grows.acceptPunctuation mark

theorem Mirrors.expectPunctuation {mark : Punctuation} {context : String} {set : RecoverySet}
    {f g : Bool → Parser β} (fewer : Nat) (hfewer : bound ≤ fewer + 1)
    (hmark : level = 0 → (TokenKind.punctuation mark).endsTerm = false)
    (hlevel : level' + (TokenKind.punctuation mark).closing =
      level + (TokenKind.punctuation mark).opening)
    (hyes : Mirrors (o.Within level' fewer) (f true) (g true) post) (hgrows : Grows (f false)) :
    Mirrors (o.Within level bound) (Parser.expectPunctuation mark context set >>= f)
      (Parser.expectPunctuation mark context set >>= g) post := by
  have hfound : Mirrors (o.Within level bound) (Parser.expectPunctuation mark context set)
      (Parser.expectPunctuation mark context set)
      (Both fun found s t => found = true ∧ o.Within level' fewer s t) := by
    refine Mirrors.acceptPunctuation fewer hfewer hmark hlevel
      (Mirrors.pure fun s t hwithin => ⟨rfl, rfl, hwithin⟩) ?_
    exact Mirrors.loud ((Grows.missing _ _ _).bind (Grows.recovery mark set))
      (Loud.missing_bind (Grows.recovery mark set) _ _ _)
  apply Mirrors.next hfound
  rintro (_ | _)
  · exact ⟨hgrows, fun _ _ _ hfalse => nomatch hfalse.1⟩
  · exact hyes.weaken fun _ _ htrue => htrue.2

theorem Mirrors.expectOperator {op : Operator} {context : String} {set : RecoverySet}
    {f g : Bool → Parser β} (fewer : Nat) (hfewer : bound ≤ fewer + 1)
    (hyes : Mirrors (o.Within level fewer) (f true) (g true) post) (hgrows : Grows (f false)) :
    Mirrors (o.Within level bound) (Parser.expectOperator op context set >>= f)
      (Parser.expectOperator op context set >>= g) post := by
  have hfound : Mirrors (o.Within level bound) (Parser.expectOperator op context set)
      (Parser.expectOperator op context set)
      (Both fun found s t => found = true ∧ o.Within level fewer s t) := by
    refine Mirrors.acceptOperator fewer hfewer
      (Mirrors.pure fun s t hwithin => ⟨rfl, rfl, hwithin⟩) ?_
    have hrecovers : ∀ _ : Recovery, Grows (do
        Parser.synchronize set
        Parser.acceptOperator op) := fun _ =>
      (Grows.synchronize set).bind fun _ => (Same.acceptOperator op).grows
    exact Mirrors.loud ((Grows.missing _ _ _).bind hrecovers) (Loud.missing_bind hrecovers _ _ _)
  apply Mirrors.next hfound
  rintro (_ | _)
  · exact ⟨hgrows, fun _ _ _ hfalse => nomatch hfalse.1⟩
  · exact hyes.weaken fun _ _ htrue => htrue.2

theorem Refuses.expectName (what : String) (set : RecoverySet) : Refuses (expectName what set) := by
  apply Refuses.peek
  intro text range line
  exact (Loud.expected_bind (fun _ => (Grows.synchronize set).bind fun _ => Grows.pure none) _).refuses

/-- A name, which is there in a silent run. -/
theorem Mirrors.expectName {what : String} {set : RecoverySet} {f g : Option Name → Parser β}
    (fewer : Nat) (hfewer : bound ≤ fewer + 1)
    (hsome : ∀ name, Mirrors (o.Within level fewer) (f (some name)) (g (some name)) post)
    (hgrows : Grows (f none)) :
    Mirrors (o.Within level bound) (Parser.expectName what set >>= f)
      (Parser.expectName what set >>= g) post := by
  have hskips : ∀ _ : Unit, Grows (do
      Parser.synchronize set
      Pure.pure (none : Option Name)) := fun _ =>
    (Grows.synchronize set).bind fun _ => Grows.pure none
  have hfound : Mirrors (o.Within level bound) (Parser.expectName what set)
      (Parser.expectName what set)
      (Both fun found s t => found.isSome = true ∧ o.Within level fewer s t) := by
    refine Mirrors.peek_refusing ?_ fun _ _ _ => (Loud.expected_bind hskips _).refuses
    rintro ⟨kind, text, range, line⟩
    split
    · rename_i hname
      obtain rfl : kind = .identifier := by simpa [Token.isIdentifier] using hname
      refine Mirrors.advance fewer hfewer rfl fun _ => ?_
      exact Mirrors.next (Mirrors.nameOf _) fun name => Mirrors.pure fun s t hwithin =>
        ⟨rfl, rfl, hwithin⟩
    · split
      · have htakes : ∀ _ : Unit, Grows (if line then (do
            Parser.synchronize set
            Pure.pure none)
          else (do
            let _ ← Parser.advance
            return some (← Parser.nameOf ⟨kind, text, range, line⟩))) := by
          intro _
          split
          · exact hskips ()
          · exact Grows.advance.bind fun _ => (Grows.nameOf _).bind fun _ => Grows.pure _
        exact Mirrors.loud ((Grows.expectedWithHelp _ _).bind htakes)
          (Loud.expectedWithHelp_bind htakes _ _)
      · exact Mirrors.loud ((Grows.expected _).bind hskips) (Loud.expected_bind hskips _)
  apply Mirrors.next hfound
  rintro (_ | name)
  · exact ⟨hgrows, fun _ _ _ hfalse => nomatch hfalse.1⟩
  · exact (hsome name).weaken fun _ _ htrue => htrue.2

/-! ### Types -/

/-- What is nested in a term keeps in front of the omission, if fewer tokens come than the bound
says. -/
structure NestedMirrors (o : Omission) (bound : Nat) (nested nested' : Nested) : Prop where
  expression : ∀ fewer ≤ bound, ∀ level,
    Follows o level fewer nested.expression nested'.expression
  operand : ∀ fewer ≤ bound, ∀ level, Follows o level fewer nested.operand nested'.operand
  type : ∀ fewer ≤ bound, ∀ level, Follows o level fewer nested.type nested'.type

theorem Mirrors.stringBound : Follows o level bound stringBound stringBound := by
  have hgrows : ∀ _ : Unit, Grows (do
      let bound ← Pure.pure none
      let _ ← Parser.expectOperator .gt "to close `string<N>`" .type
      Pure.pure bound : Parser (Option Nat)) := fun _ =>
    (Same.expectOperator _ _ _).grows.bind fun _ => Grows.pure none
  refine Mirrors.peek_refusing ?_ fun _ _ _ => (Loud.expected_bind hgrows _).refuses
  rintro ⟨kind, text, range, line⟩
  dsimp only
  split
  · refine Mirrors.advance bound (Nat.le_succ _) rfl fun _ => Mirrors.pure_bind ?_
    refine Mirrors.expectOperator bound (Nat.le_succ _) ?_ (Grows.pure _)
    exact Mirrors.pure fun s t hwithin => ⟨rfl, hwithin⟩
  · exact Mirrors.loud ((Grows.expected _).bind hgrows) (Loud.expected_bind hgrows _)

theorem Mirrors.stringType : Follows o level bound stringType stringType := by
  refine Mirrors.acceptOperator bound (Nat.le_succ _) ?_ ?_
  · exact Mirrors.next Mirrors.stringBound fun _ => Mirrors.pure fun s t hwithin => ⟨rfl, hwithin⟩
  · exact Mirrors.pure fun s t hwithin => ⟨rfl, hwithin⟩

section Nested

variable {nested nested' : Nested}

theorem Mirrors.vecType (hnested : NestedMirrors o bound nested nested') :
    Follows o level bound (vecType nested) (vecType nested') := by
  refine Mirrors.expectOperator bound (Nat.le_succ _) ?_ (Grows.pure _)
  apply Mirrors.next (hnested.type bound (Nat.le_refl _) level)
  intro element
  refine Mirrors.expectOperator bound (Nat.le_succ _) ?_ (Grows.pure _)
  exact Mirrors.pure fun s t hwithin => ⟨rfl, hwithin⟩

/-- Inside the brackets, so that the `;` of the array is not the omission. -/
theorem Mirrors.arrayType (hnested : NestedMirrors o bound nested nested') :
    Mirrors (o.Within (level + 1) bound) (arrayType nested) (arrayType nested')
      (Both fun _ => o.Within level bound) := by
  apply Mirrors.next (hnested.type bound (Nat.le_refl _) (level + 1))
  intro element
  have hclose : ∀ (bounded : Bool) length, Mirrors (o.Within (level + 1) bound) (do
        let _ ← Parser.expectPunctuation .rBracket "to close the array type"
          (Stop.rBracket :: RecoverySet.statement)
        if bounded then Pure.pure (TypeExpr.boundedArray · element length)
        else Pure.pure (TypeExpr.staticArray · element length)) (do
        let _ ← Parser.expectPunctuation .rBracket "to close the array type"
          (Stop.rBracket :: RecoverySet.statement)
        if bounded then Pure.pure (TypeExpr.boundedArray · element length)
        else Pure.pure (TypeExpr.staticArray · element length))
      (Both fun _ => o.Within level bound) := by
    intro bounded length
    refine Mirrors.expectPunctuation bound (Nat.le_succ _) (fun _ => rfl) rfl ?_ ?_
    · split
      · exact Mirrors.pure fun s t hwithin => ⟨rfl, hwithin⟩
      · exact Mirrors.pure fun s t hwithin => ⟨rfl, hwithin⟩
    · split
      · exact Grows.pure _
      · exact Grows.pure _
  refine Mirrors.expectPunctuation bound (Nat.le_succ _) nofun rfl ?_ ?_
  · refine Mirrors.acceptOperator bound (Nat.le_succ _) ?_ ?_
    · exact Mirrors.next (hnested.expression bound (Nat.le_refl _) (level + 1)) (hclose true)
    · exact Mirrors.next (hnested.expression bound (Nat.le_refl _) (level + 1)) (hclose false)
  · exact (Grows.acceptPunctuation _).bind fun _ => Grows.pure _

theorem Mirrors.plainType (hnested : NestedMirrors o bound nested nested') :
    Mirrors (o.Within level (bound + 1)) (plainType nested) (plainType nested')
      (Both fun build s t => build.isSome = true ∧ o.Within level (bound + 1) s t) := by
  have hnone : ∀ _ : Unit, Grows (Pure.pure none : Parser (Option (Origin → TypeExpr))) :=
    fun _ => Grows.pure none
  refine Mirrors.peek_refusing ?_ fun _ _ _ => (Loud.expected_bind hnone _).refuses
  rintro ⟨kind, text, range, line⟩
  dsimp only
  split
  · refine Mirrors.advance bound (Nat.le_refl _) rfl fun _ => ?_
    exact Mirrors.pure fun s t hwithin => ⟨rfl, rfl, hwithin.mono (Nat.le_succ _)⟩
  · refine Mirrors.advance bound (Nat.le_refl _) rfl fun _ => ?_
    apply Mirrors.next (Mirrors.nameOf _)
    intro name
    exact Mirrors.pure fun s t hwithin => ⟨rfl, rfl, hwithin.mono (Nat.le_succ _)⟩
  · refine Mirrors.advance bound (Nat.le_refl _) rfl fun _ => ?_
    exact Mirrors.map Mirrors.stringType fun build s t hwithin =>
      ⟨rfl, hwithin.mono (Nat.le_succ _)⟩
  · refine Mirrors.advance bound (Nat.le_refl _) rfl fun _ => ?_
    exact Mirrors.map (Mirrors.vecType hnested) fun build s t hwithin =>
      ⟨rfl, hwithin.mono (Nat.le_succ _)⟩
  · refine Mirrors.advance bound (Nat.le_refl _) rfl fun _ => ?_
    exact Mirrors.map (Mirrors.arrayType hnested) fun build s t hwithin =>
      ⟨rfl, hwithin.mono (Nat.le_succ _)⟩
  · exact Mirrors.loud ((Grows.expected _).bind hnone) (Loud.expected_bind hnone _)

theorem Refuses.plainType (nested : Nested) : Refuses (plainType nested) :=
  Refuses.peek fun _ _ _ => (Loud.expected_bind (fun _ => Grows.pure none) _).refuses

theorem Mirrors.typeIn (hnested : NestedMirrors o bound nested nested') :
    Follows o level (bound + 1) (typeIn nested) (typeIn nested') := by
  have hplain : Mirrors (o.Within level (bound + 1)) (Parser.plainType nested)
      (Parser.plainType nested') _ := Mirrors.plainType hnested
  refine Mirrors.peek_refusing ?_ ?_
  · intro token
    apply Mirrors.next (hplain.weaken fun _ _ => Omission.At.within)
    rintro (_ | build)
    · exact ⟨Agrees.missingType.grows, fun _ _ _ hfalse => nomatch hfalse.1⟩
    · refine Mirrors.weaken ?_ fun _ _ htrue => htrue.2
      apply Mirrors.rangeSince
      intro range
      apply Mirrors.next (Mirrors.newType _ _)
      intro type
      refine Mirrors.acceptPunctuation (bound + 1) (Nat.le_succ _) (fun _ => rfl) rfl ?_ ?_
      · apply Mirrors.rangeSince
        intro range
        exact Mirrors.newType _ _
      · exact Mirrors.pure fun s t hwithin => ⟨rfl, hwithin⟩
  · intro text range line
    refine (Refuses.plainType nested).bind hplain.1 ?_
    rintro (_ | build)
    · exact Agrees.missingType.grows
    · refine (Grows.rangeSince _).bind fun _ => (Grows.newType _ _).bind fun type => ?_
      refine (Grows.acceptPunctuation _).bind fun question => ?_
      split
      · exact (Grows.rangeSince _).bind fun _ => Grows.newType _ _
      · exact Grows.pure type

/-! ### Expressions -/

/-- A token that is no square bracket is a literal. -/
theorem Mirrors.literal {token : Token} {build : Origin → Expr}
    (hlevel : level + token.kind.closing = level + token.kind.opening) :
    Mirrors (o.At level bound token) (literal build) (literal build)
      (Both fun _ => o.Within level bound) :=
  Mirrors.advance bound (Nat.le_succ _) hlevel fun _ => Mirrors.newExpr _ _

variable {text : String} {range : SourceRange} {line : Bool}

theorem Mirrors.parenthesized (hnested : NestedMirrors o bound nested nested') :
    Mirrors (o.At level (bound + 1) ⟨.punctuation .lParen, text, range, line⟩)
      (parenthesized nested) (parenthesized nested') (Both fun _ => o.Within level (bound + 1)) := by
  refine Mirrors.advance bound (Nat.le_refl _) rfl fun _ => ?_
  apply Mirrors.next (hnested.expression bound (Nat.le_refl _) level)
  intro inner
  have hwiden : ∀ start, Follows o level (bound + 1)
      (do Parser.widenExpr inner (← Parser.rangeSince start))
      (do Parser.widenExpr inner (← Parser.rangeSince start)) := fun start =>
    Mirrors.rangeSince fun _ => Mirrors.widenExpr _ _
  exact Mirrors.expectPunctuation (bound + 1) (by omega) (fun _ => rfl) rfl (hwiden _) (hwiden _).1

theorem Mirrors.nextElement (hnested : NestedMirrors o bound nested nested')
    (elements : List Expr) :
    Mirrors (o.Within level (bound + 1)) (nextElement nested elements)
      (nextElement nested' elements) (Both (o.Turned level bound)) := by
  refine Mirrors.acceptPunctuation bound (Nat.le_refl _) (fun _ => rfl) rfl ?_ ?_
  · refine Mirrors.atPunctuation (fun _ => rfl) ?_ ?_
    · intro text range line
      exact Mirrors.pure fun s t hat => ⟨rfl, hat.within.mono (Nat.le_succ _)⟩
    · apply Mirrors.next (hnested.expression bound (Nat.le_refl _) level)
      intro element
      exact Mirrors.pure fun s t hwithin => ⟨rfl, hwithin⟩
  · exact Mirrors.pure fun s t hwithin => ⟨rfl, hwithin⟩

theorem NestedMirrors.mono {fewer : Nat} (hnested : NestedMirrors o bound nested nested')
    (hfewer : fewer ≤ bound) : NestedMirrors o fewer nested nested' where
  expression less hless := hnested.expression less (Nat.le_trans hless hfewer)
  operand less hless := hnested.operand less (Nat.le_trans hless hfewer)
  type less hless := hnested.type less (Nat.le_trans hless hfewer)

theorem Mirrors.arrayExpr (hnested : NestedMirrors o bound nested nested') :
    Mirrors (o.At level (bound + 1) ⟨.punctuation .lBracket, text, range, line⟩)
      (arrayExpr nested) (arrayExpr nested') (Both fun _ => o.Within level (bound + 1)) := by
  refine Mirrors.advance bound (Nat.le_refl _) rfl fun opening => ?_
  dsimp only
  have hmake : ∀ build : Origin → Expr, Follows o level (bound + 1)
      (do Parser.newExpr (← Parser.rangeSince opening.range) build)
      (do Parser.newExpr (← Parser.rangeSince opening.range) build) := fun build =>
    Mirrors.rangeSince fun _ => Mirrors.newExpr _ _
  refine Mirrors.acceptPunctuation (bound + 1) (by omega) (fun _ => rfl) (by rfl) (hmake _) ?_
  apply Mirrors.next (hnested.expression bound (Nat.le_refl _) (level + 1))
  intro first
  refine Mirrors.acceptPunctuation bound (Nat.le_succ _) nofun rfl ?_ ?_
  · apply Mirrors.next (hnested.expression bound (Nat.le_refl _) (level + 1))
    intro count
    exact Mirrors.expectPunctuation (bound + 1) (by omega) (fun _ => rfl) rfl (hmake _) (hmake _).1
  · have hloop : Follows o (level + 1) (bound + 1)
        (Parser.iterate (Parser.nextElement nested) [first])
        (Parser.iterate (Parser.nextElement nested') [first]) :=
      Mirrors.iterate fun fewer hfewer => Mirrors.nextElement (hnested.mono hfewer)
    apply Mirrors.next (hloop.weaken fun _ _ hwithin => hwithin.mono (Nat.le_succ _))
    intro elements
    exact Mirrors.expectPunctuation (bound + 1) (Nat.le_succ _) (fun _ => rfl) rfl (hmake _)
      (hmake _).1

theorem Mirrors.vecExpr (hnested : NestedMirrors o bound nested nested') :
    Mirrors (o.At level (bound + 1) ⟨.keyword .vecWord, text, range, line⟩)
      (vecExpr nested) (vecExpr nested') (Both fun _ => o.Within level (bound + 1)) := by
  have hmissing : ∀ _ : Unit, Grows Parser.missingExpr := fun _ => Agrees.missingExpr.grows
  refine Mirrors.advance bound (Nat.le_refl _) rfl fun opening => ?_
  dsimp only
  refine Mirrors.acceptOperator bound (Nat.le_succ _) ?_ ?_
  · refine Mirrors.atPunctuation (fun _ => rfl) ?_ ?_
    · intro text range line
      apply Mirrors.next ((Mirrors.arrayExpr hnested).weaken fun _ _ hat => hat.mono (Nat.le_succ _))
      intro inner
      apply Mirrors.rangeSince
      intro range
      exact Mirrors.newExpr _ _
    · exact Mirrors.loud ((Grows.expected _).bind hmissing) (Loud.expected_bind hmissing _)
  · exact Mirrors.loud ((Grows.expectedWithHelp _ _).bind hmissing)
      (Loud.expectedWithHelp_bind hmissing _ _)

theorem Refuses.primary (nested : Nested) : Refuses (primary nested) :=
  Refuses.peek fun _ _ _ => (Loud.expected_bind (fun _ => Agrees.missingExpr.grows) _).refuses

theorem Mirrors.missingExpr {token : Token} :
    Mirrors (o.At level bound token) missingExpr missingExpr (Both fun _ => o.At level bound token) := by
  refine ⟨Agrees.missingExpr.grows, fun s t hhonest hat hsilent => ?_⟩
  obtain ⟨coming, hbound, hfaces⟩ := hat
  have hrange : ∀ state : ParserState, state.current = token →
      Parser.missingExpr state = Parser.newExpr (.emptyAt state.file token.range.start) .missing state := by
    rintro state rfl
    rfl
  have hfile : t.file = s.file := by rw [hfaces.same]
  rw [hrange s hfaces.current] at hsilent ⊢
  rw [hrange t hfaces.current', hfile]
  exact (Mirrors.newExpr _ _).2 s t hhonest ⟨coming, hbound, hfaces⟩ hsilent

theorem Mirrors.primary (hnested : NestedMirrors o bound nested nested') :
    Follows o level (bound + 1) (primary nested) (primary nested') := by
  have hmissing : ∀ _ : Unit, Grows Parser.missingExpr := fun _ => Agrees.missingExpr.grows
  refine Mirrors.peek_refusing ?_ fun _ _ _ => (Loud.expected_bind hmissing _).refuses
  rintro ⟨kind, text, range, line⟩
  dsimp only
  split
  case h_3 => exact Mirrors.next (Mirrors.intern _) fun _ => Mirrors.literal rfl
  case h_7 => exact Mirrors.next (Mirrors.nameOf _) fun _ => Mirrors.literal rfl
  case h_8 => exact Mirrors.parenthesized hnested
  case h_9 => exact Mirrors.arrayExpr hnested
  case h_10 => exact Mirrors.vecExpr hnested
  case h_11 =>
    apply Mirrors.next Mirrors.missingExpr
    intro missing
    refine Mirrors.advance (bound + 1) (Nat.le_succ _) rfl fun _ => ?_
    exact Mirrors.pure fun s t hwithin => ⟨rfl, hwithin⟩
  case h_12 => exact Mirrors.loud ((Grows.expected _).bind hmissing) (Loud.expected_bind hmissing _)
  all_goals exact Mirrors.literal rfl

theorem Mirrors.suffix (hnested : NestedMirrors o bound nested nested') (base : Expr) :
    Mirrors (o.Within level (bound + 1)) (suffix nested base) (suffix nested' base)
      (Both (o.Turned level bound)) := by
  have hagain : ∀ build : Origin → Expr, ∀ start, Mirrors (o.Within level bound)
      (do return .again (← Parser.newExpr (← Parser.rangeSince start) build))
      (do return .again (← Parser.newExpr (← Parser.rangeSince start) build))
      (Both (o.Turned level bound)) := fun build start =>
    Mirrors.rangeSince fun _ => Mirrors.next (Mirrors.newExpr _ _) fun _ =>
      Mirrors.pure fun s t hwithin => ⟨rfl, hwithin⟩
  refine Mirrors.acceptPunctuation bound (Nat.le_refl _) (fun _ => rfl) rfl ?_ ?_
  · apply Mirrors.next (hnested.expression bound (Nat.le_refl _) (level + 1))
    intro position
    exact Mirrors.expectPunctuation bound (Nat.le_succ _) (fun _ => rfl) rfl (hagain _ _)
      (hagain _ _).1
  · refine Mirrors.choice (·.isKeyword .asWord) ⟨.keyword .asWord, "", .none, false⟩ rfl
      ?_ ?_ ?_
    · rintro - ⟨kind, text, range, line⟩ hends
      cases hword : Token.isKeyword ⟨kind, text, range, line⟩ .asWord with
      | false => rfl
      | true =>
          rw [Token.isKeyword, beq_iff_eq] at hword
          cases hword
          cases hends
    · rintro ⟨kind, text, range, line⟩ hword
      rw [Token.isKeyword, beq_iff_eq] at hword
      cases hword
      refine Mirrors.advance bound (Nat.le_refl _) rfl fun _ => ?_
      apply Mirrors.next (hnested.type bound (Nat.le_refl _) level)
      intro type
      exact hagain _ _
    · exact Mirrors.pure fun s t hwithin => ⟨rfl, hwithin⟩

theorem Mirrors.suffixed (hnested : NestedMirrors o bound nested nested') :
    Follows o level (bound + 1) (suffixed nested) (suffixed nested') := by
  apply Mirrors.next (Mirrors.primary hnested)
  intro base
  exact Mirrors.iterate fun fewer hfewer => Mirrors.suffix (hnested.mono hfewer)

theorem Refuses.suffixed (hnested : NestedAgrees nested) : Refuses (suffixed nested) :=
  (Refuses.primary nested).bind (Agrees.primary hnested).grows fun _ =>
    (Agrees.loop fun _ _ => Agrees.suffix hnested).grows

theorem Mirrors.unary (hnested : NestedMirrors o bound nested nested') (hagrees : NestedAgrees nested) :
    Follows o level (bound + 1) (unary nested) (unary nested') := by
  refine Mirrors.peek_refusing ?_ fun _ _ _ => Refuses.suffixed hagrees
  rintro ⟨kind, text, range, line⟩
  split
  · rename_i op hop
    obtain ⟨found, rfl⟩ : ∃ found, kind = .operator found := by
      cases kind <;> first | exact ⟨_, rfl⟩ | cases hop
    refine Mirrors.advance bound (Nat.le_refl _) rfl fun opening => ?_
    apply Mirrors.next (hnested.operand bound (Nat.le_refl _) level)
    intro operand
    exact (Mirrors.newExpr _ _).mono fun _ _ _ _ hwithin =>
      ⟨hwithin.1, hwithin.2.mono (Nat.le_succ _)⟩
  · exact (Mirrors.suffixed hnested).weaken fun _ _ => Omission.At.within

theorem Refuses.unary (hnested : NestedAgrees nested) : Refuses (unary nested) :=
  Refuses.peek fun _ _ _ => Refuses.suffixed hnested

theorem binaryOpOn?_of_endsTerm {token : Token} (layer : Nat)
    (hends : token.kind.endsTerm = true) : token.binaryOpOn? layer = none := by
  have hop : token.operator? = none := TokenKind.operator?_of_endsTerm hends
  rw [Token.binaryOpOn?, hop]
  rfl

theorem Mirrors.extendChain {layer : Nat} {tighter tighter' : Parser Chain}
    (htighter : Follows o level bound tighter tighter') (chain : Chain) :
    Mirrors (o.Within level (bound + 1)) (extendChain layer tighter chain)
      (extendChain layer tighter' chain) (Both (o.Turned level bound)) := by
  apply Mirrors.peek
  · rintro ⟨kind, text, range, line⟩
    split
    · rename_i op hop
      obtain ⟨found, rfl⟩ : ∃ found, kind = .operator found := by
        cases kind <;> first | exact ⟨_, rfl⟩ | cases hop
      refine Mirrors.advance bound (Nat.le_refl _) rfl fun first => ?_
      apply Mirrors.next htighter
      intro right
      apply Mirrors.next (Mirrors.newExpr _ _)
      intro whole
      have hagain : ∀ reported, Mirrors (o.Within level bound)
          (Pure.pure (Turn.again (Chain.mk whole reported)))
          (Pure.pure (Turn.again (Chain.mk whole reported))) (Both (o.Turned level bound)) :=
        fun reported => Mirrors.pure fun s t hwithin => ⟨rfl, hwithin⟩
      apply Mirrors.peek
      · intro next
        split
        · exact Mirrors.loud ((Same.report _ _ rfl).grows.bind fun _ => Grows.pure _)
            (Loud.report_bind (fun _ => Grows.pure _) _)
        · exact (hagain _).weaken fun _ _ => Omission.At.within
      · intro text range line resumed hresumed
        rw [binaryOpOn?_of_endsTerm layer hresumed,
          show Token.binaryOpOn? ⟨.punctuation .semi, text, range, line⟩ layer = none from
            binaryOpOn?_of_endsTerm layer rfl]
        split
        · rename_i hsome
          cases hsome.2.2
        · exact (hagain _).weaken fun _ _ => Omission.AtEnd.within
    · exact Mirrors.pure fun s t hat => ⟨rfl, hat.within⟩
  · intro text range line resumed hresumed
    rw [binaryOpOn?_of_endsTerm layer hresumed]
    exact Mirrors.pure fun s t hend => ⟨rfl, hend.within⟩

theorem Mirrors.layered (hnested : NestedMirrors o bound nested nested') (hagrees : NestedAgrees nested)
    (layers : List Nat) :
    ∀ fewer ≤ bound, Follows o level (fewer + 1) (layered nested layers) (layered nested' layers) := by
  induction layers with
  | nil =>
      intro fewer hfewer
      apply Mirrors.next (Mirrors.unary (hnested.mono hfewer) hagrees)
      intro operand
      exact Mirrors.pure fun s t hwithin => ⟨rfl, hwithin⟩
  | cons layer tighter ih =>
      intro fewer hfewer
      apply Mirrors.next (ih fewer hfewer)
      intro start
      exact Mirrors.iterate fun less hless =>
        Mirrors.extendChain (Mirrors.upTo ih less (by omega))

theorem Mirrors.expressionIn (hnested : NestedMirrors o bound nested nested')
    (hagrees : NestedAgrees nested) :
    Follows o level (bound + 1) (expressionIn nested) (expressionIn nested') := by
  apply Mirrors.next (Mirrors.layered hnested hagrees _ bound (Nat.le_refl _))
  intro chain
  exact Mirrors.pure fun s t hwithin => ⟨rfl, hwithin⟩

theorem Refuses.layered (hnested : NestedAgrees nested) (layers : List Nat) :
    Refuses (layered nested layers) := by
  induction layers with
  | nil => exact (Refuses.unary hnested).bind (Agrees.unary hnested).grows fun _ => Grows.pure _
  | cons layer tighter ih =>
      have htighter := Agrees.layered hnested tighter
      exact ih.bind htighter.grows fun _ =>
        (Agrees.loop fun _ _ => Agrees.extendChain htighter).grows

end Nested

/-! ### The knot -/

/-- Where no token is in front of the omission nothing is asked of what is nested. -/
theorem NestedMirrors.zero {nested nested' : Nested} (hnested : NestedAgrees nested) :
    NestedMirrors o 0 nested nested' where
  expression fewer hfewer level := by
    obtain rfl := Nat.le_zero.mp hfewer
    exact ⟨hnested.expression.grows, fun _ _ _ ⟨_, hlength, _⟩ => nomatch hlength⟩
  operand fewer hfewer level := by
    obtain rfl := Nat.le_zero.mp hfewer
    exact ⟨hnested.operand.grows, fun _ _ _ ⟨_, hlength, _⟩ => nomatch hlength⟩
  type fewer hfewer level := by
    obtain rfl := Nat.le_zero.mp hfewer
    exact ⟨hnested.type.grows, fun _ _ _ ⟨_, hlength, _⟩ => nomatch hlength⟩

theorem NestedMirrors.around {inner inner' : Unit → Nested}
    (hinner : NestedMirrors o bound (inner ()) (inner' ())) (hagrees : NestedAgrees (inner ())) :
    NestedMirrors o (bound + 1) (around inner) (around inner') where
  expression fewer hfewer _ := Mirrors.upTo
    (fun _ hless => Mirrors.expressionIn (hinner.mono hless) hagrees) fewer hfewer
  operand fewer hfewer _ := Mirrors.upTo
    (fun _ hless => Mirrors.unary (hinner.mono hless) hagrees) fewer hfewer
  type fewer hfewer _ := Mirrors.upTo
    (fun _ hless => Mirrors.typeIn (hinner.mono hless)) fewer hfewer

/-- Levels of nesting for the tokens in front of the omission are enough. -/
theorem NestedMirrors.along (levels levels' : List Token) (hlevels : bound ≤ levels.length)
    (hlevels' : bound ≤ levels'.length) :
    NestedMirrors o (bound + 1) (nestedAlong levels) (nestedAlong levels') := by
  induction levels generalizing levels' bound with
  | nil =>
      obtain rfl : bound = 0 := Nat.le_zero.mp hlevels
      cases levels' with
      | nil => exact NestedMirrors.around (NestedMirrors.zero NestedAgrees.nothing) NestedAgrees.nothing
      | cons _ _ =>
          exact NestedMirrors.around (NestedMirrors.zero NestedAgrees.nothing) NestedAgrees.nothing
  | cons token levels ih =>
      have hagrees := NestedAgrees.along levels
      cases bound with
      | zero =>
          cases levels' with
          | nil => exact NestedMirrors.around (NestedMirrors.zero hagrees) hagrees
          | cons _ _ => exact NestedMirrors.around (NestedMirrors.zero hagrees) hagrees
      | succ bound =>
          cases levels' with
          | nil => cases hlevels'
          | cons token' levels' =>
              exact NestedMirrors.around (ih levels' (Nat.le_of_succ_le_succ hlevels)
                (Nat.le_of_succ_le_succ hlevels')) hagrees

/-- In front of the omission there are as many levels of nesting as the parsers need. -/
theorem NestedMirrors.here {s t : ParserState} {coming : List Token}
    (hfaces : o.Faces level coming s t) :
    NestedMirrors o (coming.length + 1) (nestedAlong s.rest) (nestedAlong t.rest) := by
  apply NestedMirrors.along
  · simp [hfaces.rest]
  · simp [hfaces.same]

theorem Mirrors.expression : Follows o level bound expression expression := by
  refine ⟨Agrees.expression.grows, fun s t hhonest hwithin hsilent => ?_⟩
  obtain ⟨coming, hcoming, hfaces⟩ := hwithin
  obtain ⟨hsame, hwithin⟩ := ((NestedMirrors.here hfaces).expression _ (Nat.le_refl _) level).2
    s t hhonest ⟨coming, Nat.lt_succ_self _, hfaces⟩ hsilent
  exact ⟨hsame, hwithin.mono hcoming⟩

theorem Mirrors.typeExpr : Follows o level bound typeExpr typeExpr := by
  refine ⟨Agrees.typeExpr.grows, fun s t hhonest hwithin hsilent => ?_⟩
  obtain ⟨coming, hcoming, hfaces⟩ := hwithin
  obtain ⟨hsame, hwithin⟩ := ((NestedMirrors.here hfaces).type _ (Nat.le_refl _) level).2
    s t hhonest ⟨coming, Nat.lt_succ_self _, hfaces⟩ hsilent
  exact ⟨hsame, hwithin.mono hcoming⟩

theorem Refuses.expression : Refuses expression := by
  have haround : ∀ inner : Unit → Nested, NestedAgrees (inner ()) →
      Refuses (Parser.around inner).expression := fun inner hinner =>
    (Refuses.layered hinner _).bind (Agrees.layered hinner _).grows fun _ => Grows.pure _
  have halong : ∀ levels, Refuses (Parser.nestedAlong levels).expression := by
    intro levels
    cases levels with
    | nil => exact haround _ NestedAgrees.nothing
    | cons token levels => exact haround _ (NestedAgrees.along levels)
  exact fun s hhonest hsemi => halong s.rest s hhonest hsemi

end Parser

end BehaviorTree
