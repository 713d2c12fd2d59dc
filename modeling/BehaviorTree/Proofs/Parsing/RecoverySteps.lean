import BehaviorTree.Proofs.Parsing.Advance

/-!
# Skipping step by step

Recovery counts the tokens to skip and skips them at once. Here it goes from token to token and from
group to group, as one who does not see ahead has to: a step looks at the current token and stops,
skips the group that starts there, or consumes it. Both ways lead to the same place.
-/

namespace BehaviorTree

namespace Skip

variable {stops : Token → Bool} {countIn : List Punctuation → List Token → Nat}

/-- Inside a group the scan goes on behind it, or behind the part of it that was not broken off. -/
theorem Counts.behind_group (h : Counts stops countIn) (pending : List Punctuation)
    (tokens : List Token) :
    countIn pending tokens =
      groupRest pending tokens + countIn [] (tokens.drop (groupRest pending tokens)) := by
  induction tokens generalizing pending with
  | nil => simp [groupRest, h.nil]
  | cons token rest ih =>
      rw [h.cons, groupRest]
      split
      · rename_i hend
        simp [h.cons, hend]
      · rename_i hgoes
        cases hpending : pendingBehind? pending token with
        | some behind =>
            simp only [List.drop_succ_cons]
            rw [ih behind]
            omega
        | none =>
            simp only [List.drop_zero, Nat.zero_add]
            rw [h.cons, if_neg hgoes, pendingBehind?_nil]

/-- What a count over the coming tokens says that scans up to a token of some kind and takes groups
as a whole. -/
structure Scan (stops : Token → Bool) (count : List Token → Nat) : Prop where
  ended : ∀ token, token.isEndOfFile = true → stops token = true
  stopped : ∀ token rest, stops token = true → count (token :: rest) = 0
  grouped : ∀ token rest, stops token = false → token.closer?.isSome = true →
    count (token :: rest) = group (token :: rest) + count ((token :: rest).drop (group (token :: rest)))
  passed : ∀ token rest, stops token = false → token.closer? = none →
    count (token :: rest) = 1 + count rest

theorem Counts.scan (h : Counts stops countIn) : Scan stops (countIn []) where
  ended := h.ended
  stopped token rest hstops := by simp [h.cons, hstops]
  grouped token rest hgoes hopens := by
    obtain ⟨closer, hcloser⟩ := Option.isSome_iff_exists.mp hopens
    have hgroup : group (token :: rest) = groupRest [closer] rest + 1 := by simp [group, hcloser]
    have hstep : countIn [] (token :: rest) = countIn [closer] rest + 1 := by
      simp [h.cons, Token.isEndOfFile_of_closer? hcloser, hgoes, hcloser]
    rw [hstep, h.behind_group, hgroup, List.drop_succ_cons]
    omega
  passed token rest hgoes hplain := by
    have hend : token.isEndOfFile = false := by
      cases hend : token.isEndOfFile with
      | false => rfl
      | true => rw [h.ended token hend] at hgoes; cases hgoes
    simp [h.cons, hend, hgoes, hplain, Nat.add_comm]

theorem scan_untilStop (set : RecoverySet) : Scan set.stopsAt (untilStop set) :=
  (counts_untilStop set).scan

theorem scan_header : Scan endsHeader header := counts_header.scan

end Skip

namespace Parser

open ParserState

variable {s : ParserState}

/-! ### Steps -/

/-- One step of a skip: it stops at the current token, skips the group that the token opens, or
consumes it. -/
def scanTurn (stops : Token → Bool) (_ : Unit) : Parser (Turn Unit) := do
  let token ← peek
  if stops token then pure (.done ())
  else if token.closer?.isSome then
    skip Skip.group
    pure (.again ())
  else
    let _ ← advance
    pure (.again ())

/-- One step inside a group in which the given closers are pending, innermost first. Before the
first step none are. -/
def groupTurn (pending : List Punctuation) : Parser (Turn (List Punctuation)) := do
  let token ← peek
  if token.isEndOfFile then pure (.done pending)
  else match token.closer?, token.closing? with
    | some closer, _ =>
      let _ ← advance
      pure (.again (closer :: pending))
    | none, some closer =>
      if pending.head? = some closer then
        let _ ← advance
        if pending.tail = [] then pure (.done []) else pure (.again pending.tail)
      else pure (.done pending)
    | none, none =>
      let _ ← advance
      pure (.again pending)

theorem group_pos {token : Token} (rest : List Token) (hopens : token.closer?.isSome = true) :
    0 < Skip.group (token :: rest) := by
  obtain ⟨closer, hcloser⟩ := Option.isSome_iff_exists.mp hopens
  simp [Skip.group, hcloser]

variable {stops : Token → Bool}

theorem Driven.scanTurn (hended : ∀ token, token.isEndOfFile = true → stops token = true) :
    Driven (scanTurn stops) := by
  intro value s
  have hgroup : Runs (Parser.skip Skip.group) := .ofRespects fun _ => .skip Skip.stops_group
  unfold Parser.scanTurn
  refine .peek ?_
  split
  · exact .pure id
  · rename_i hgoes
    split
    · rename_i hopens
      refine ⟨hgroup s, fun hsealed _ => ?_⟩
      have hpositive := group_pos (s.rest.drop 1) hopens
      rw [← hsealed.rest_eq] at hpositive
      exact Nat.lt_add_of_pos_right hpositive
    · refine .advance ?_ fun _ => .pure _
      cases hend : s.current.isEndOfFile with
      | false => rfl
      | true => exact absurd (hended _ hend) hgoes

/-- **Skipping step by step.** A scan skips as many tokens as its count says. -/
theorem iterate_scanTurn {count : List Token → Nat} (hscan : Skip.Scan stops count)
    (hsealed : s.Sealed) : iterate (scanTurn stops) () s = skip count s := by
  have hdriven : Driven (scanTurn stops) := .scanTurn hscan.ended
  induction hlength : s.rest.length using Nat.strongRecOn generalizing s with
  | ind length ih =>
      have hnext : ∀ n, (scanTurn stops () s).1 = .again () → (scanTurn stops () s).2 = s.skip n →
          iterate (scanTurn stops) () (s.skip n) = skip count (s.skip n) := by
        intro n hagain hstate
        have hreached := (hdriven () s).reached
        have hadvances := hdriven.advances hsealed hagain
        rw [hstate] at hreached hadvances
        exact ih _ (hlength ▸ hadvances.length_lt) (hreached.sealed hsealed) rfl
      have hskips : ∀ n, count s.rest = n + count (s.rest.drop n) →
          skip count (s.skip n) = skip count s := by
        intro n hcount
        show ((), (s.skip n).skip (count (s.rest.drop n))) = ((), s.skip (count s.rest))
        rw [hcount, skip_skip]
      rw [iterate_eq hdriven hsealed]
      cases hstops : stops s.current with
      | true =>
          have hturn : scanTurn stops () s = (.done (), s) := by
            show (if stops s.current then _ else _ : Parser (Turn Unit)) s = _
            rw [if_pos hstops]
            rfl
          have hcount : count s.rest = 0 := by
            rw [hsealed.rest_eq]
            exact hscan.stopped _ _ hstops
          rw [hturn]
          show ((), s) = ((), s.skip (count s.rest))
          rw [hcount]
          simp [ParserState.skip]
      | false =>
          cases hopens : s.current.closer?.isSome with
          | true =>
              have hturn : scanTurn stops () s = (.again (), s.skip (Skip.group s.rest)) := by
                show (if stops s.current then _ else _ : Parser (Turn Unit)) s = _
                rw [if_neg (by simp [hstops]), if_pos hopens]
                rfl
              rw [hturn]
              refine (hnext _ (congrArg Prod.fst hturn) (congrArg Prod.snd hturn)).trans
                (hskips _ ?_)
              rw [hsealed.rest_eq]
              exact hscan.grouped _ _ hstops hopens
          | false =>
              have hgoes : s.current.isEndOfFile = false := by
                cases hend : s.current.isEndOfFile with
                | false => rfl
                | true => exact absurd (hscan.ended _ hend) (by simp [hstops])
              have hturn : scanTurn stops () s = (.again (), s.skip 1) := by
                show (if stops s.current then _ else _ : Parser (Turn Unit)) s = _
                rw [if_neg (by simp [hstops]), if_neg (by simp [hopens])]
                exact advance_bind hgoes _
              rw [hturn]
              refine (hnext 1 (congrArg Prod.fst hturn) (congrArg Prod.snd hturn)).trans
                (hskips 1 ?_)
              rw [hsealed.rest_eq]
              exact hscan.passed _ _ hstops (by simpa using hopens)

/-! ### Groups -/

theorem Driven.groupTurn : Driven groupTurn := by
  intro pending s
  unfold Parser.groupTurn
  refine .peek ?_
  split
  · exact .pure id
  · rename_i hgoes
    have hgoes : s.current.isEndOfFile = false := by simpa using hgoes
    split
    · exact .advance hgoes fun _ => .pure _
    · split
      · refine .advance hgoes fun _ => ?_
        split
        · exact .pure _
        · exact .pure _
      · exact .pure id
    · exact .advance hgoes fun _ => .pure _

theorem groupRest_nil (tokens : List Token) : Skip.groupRest [] tokens = 0 := by
  cases tokens with
  | nil => rfl
  | cons token rest => simp [Skip.groupRest]

/-- What a step does in a group: it breaks the group off, or leaves as many closers pending as the
count goes on with. -/
theorem groupTurn_eq (innermost : Punctuation) (outer : List Punctuation) (s : ParserState) :
    groupTurn (innermost :: outer) s =
      if s.current.isEndOfFile then (.done (innermost :: outer), s)
      else match Skip.pendingBehind? (innermost :: outer) s.current with
        | none => (.done (innermost :: outer), s)
        | some [] => (.done [], s.skip 1)
        | some behind => (.again behind, s.skip 1) := by
  show (if s.current.isEndOfFile then _ else _ : Parser (Turn (List Punctuation))) s = _
  split
  · rfl
  · rename_i hgoes
    have hgoes : s.current.isEndOfFile = false := by simpa using hgoes
    cases hcloser : s.current.closer? with
    | some closer =>
        simp only [Skip.pendingBehind?, hcloser]
        exact advance_bind hgoes _
    | none =>
        cases hclosing : s.current.closing? with
        | none =>
            simp only [Skip.pendingBehind?, hcloser, hclosing]
            exact advance_bind hgoes _
        | some closer =>
            simp only [Skip.pendingBehind?, hcloser, hclosing]
            have hhead : (innermost :: outer).head? = some closer ↔ closer = innermost := by
              rw [List.head?_cons, Option.some.injEq, eq_comm]
            by_cases hsame : closer = innermost
            · rw [if_pos (hhead.mpr hsame), if_pos hsame]
              refine (advance_bind hgoes _).trans ?_
              cases outer with
              | nil => rfl
              | cons next outer => rfl
            · rw [if_neg (mt hhead.mp hsame), if_neg hsame]
              rfl

/-- Inside a group the steps lead as far as the count says. -/
theorem iterate_groupTurn (innermost : Punctuation) (outer : List Punctuation) (hsealed : s.Sealed) :
    (iterate groupTurn (innermost :: outer) s).2 =
      s.skip (Skip.groupRest (innermost :: outer) s.rest) := by
  induction hlength : s.rest.length using Nat.strongRecOn generalizing s innermost outer with
  | ind length ih =>
      rw [iterate_eq .groupTurn hsealed, groupTurn_eq]
      have hcount : Skip.groupRest (innermost :: outer) s.rest =
          if s.current.isEndOfFile then 0
          else (Skip.pendingBehind? (innermost :: outer) s.current).elim 0 fun behind =>
            Skip.groupRest behind (s.rest.drop 1) + 1 := by
        refine (congrArg (Skip.groupRest (innermost :: outer)) hsealed.rest_eq).trans ?_
        rw [Skip.groupRest]
        cases Skip.pendingBehind? (innermost :: outer) s.current <;> rfl
      have hnothing : s.skip 0 = s := by simp [ParserState.skip]
      rw [hcount]
      split
      · exact hnothing.symm
      · rename_i hgoes
        have hgoes : s.current.isEndOfFile = false := by simpa using hgoes
        cases hbehind : Skip.pendingBehind? (innermost :: outer) s.current with
        | none => exact hnothing.symm
        | some behind =>
            have hskip : ∀ n, s.skip (n + 1) = (s.skip 1).skip n := by
              intro n
              rw [skip_skip, Nat.add_comm]
            cases behind with
            | nil =>
                show s.skip 1 = s.skip (Skip.groupRest [] (s.rest.drop 1) + 1)
                rw [groupRest_nil]
            | cons next outer =>
                have hshorter : (s.skip 1).rest.length < length := by
                  have hpositive := List.length_pos_iff.mpr hsealed.rest_ne_nil
                  show (s.rest.drop 1).length < length
                  rw [List.length_drop]
                  omega
                refine Eq.trans ?_ (hskip _).symm
                exact ih _ hshorter next outer (hsealed.skip (passes_one hgoes)) rfl

/-- **Groups step by step.** A group is skipped through the bracket that closes it, or up to what
breaks it off. -/
theorem iterate_groupTurn_nil (hsealed : s.Sealed) (hopens : s.current.closer?.isSome = true) :
    (iterate groupTurn [] s).2 = (skip Skip.group s).2 := by
  obtain ⟨closer, hcloser⟩ := Option.isSome_iff_exists.mp hopens
  have hgoes := Token.isEndOfFile_of_closer? hcloser
  have hturn : groupTurn [] s = (.again [closer], s.skip 1) := by
    show (if s.current.isEndOfFile then _ else _ : Parser (Turn (List Punctuation))) s = _
    rw [if_neg (by simp [hgoes]), hcloser]
    exact advance_bind hgoes _
  have hcount : Skip.group s.rest = 1 + Skip.groupRest [closer] (s.rest.drop 1) := by
    rw [hsealed.rest_eq, Skip.group, hcloser, Nat.add_comm]
    rfl
  rw [iterate_eq .groupTurn hsealed, hturn]
  show (iterate Parser.groupTurn [closer] (s.skip 1)).2 = s.skip (Skip.group s.rest)
  rw [iterate_groupTurn closer [] (hsealed.skip (passes_one hgoes)), hcount, ← skip_skip]
  rfl

end Parser

end BehaviorTree
