import Mathlib.Data.List.Induction
import BehaviorTree.Proofs.Parsing.AlwaysAdvances
import BehaviorTree.Proofs.Parsing.Constructs

/-!
# Brackets

Where the skip of a group ends, told by the brackets alone: behind the bracket that matches the first
one if the tokens between them are well nested, and otherwise in front of the first closer that does
not match the innermost open bracket, or of the end of the file. Recovery goes along the stream cut
into such groups and the tokens outside of them, and stops at the first of those tokens that its set
contains.
-/

namespace BehaviorTree

/-- Tokens whose brackets are well nested. The end of the file is not among them. -/
inductive WellNested : List Token → Prop
  | nil : WellNested []
  | plain {token : Token} {tokens : List Token} :
      token.isEndOfFile = false → token.closer? = none → token.closing? = none →
        WellNested tokens → WellNested (token :: tokens)
  | group {opening closing : Token} {inner later : List Token} {mark : Punctuation} :
      opening.closer? = some mark → WellNested inner → closing.kind = .punctuation mark →
        WellNested later → WellNested (opening :: (inner ++ closing :: later))

/-- Behind some tokens this bracket is the innermost one that is open. -/
def InnermostOpen (tokens : List Token) (opening : Token) : Prop :=
  opening.closer?.isSome = true ∧
    ∃ outer inner, tokens = outer ++ opening :: inner ∧ WellNested inner

/-- Behind some tokens this one ends the group that they are in: it is the end of the file, or a
closer that does not match the innermost open bracket. -/
def BreaksOff (before : List Token) (token : Token) : Prop :=
  token.isEndOfFile = true ∨
    ∃ mark, token.closing? = some mark ∧
      ∀ opening, InnermostOpen before opening → opening.closer? ≠ some mark

/-- An opening bracket, well-nested tokens, and the bracket that matches it. -/
def IsGroup (tokens : List Token) : Prop :=
  ∃ opening inner closing mark, tokens = opening :: (inner ++ [closing]) ∧
    opening.closer? = some mark ∧ WellNested inner ∧ closing.kind = .punctuation mark

/-- Tokens of a group that is still open behind them. -/
structure OpenGroup (tokens : List Token) : Prop where
  opens : ∃ opening rest, tokens = opening :: rest ∧ opening.closer?.isSome = true
  /-- The group has not ended with its closer. -/
  unclosed : ∀ front, front <+: tokens → ¬ IsGroup front
  /-- Nothing has broken it off. -/
  unbroken : ∀ front token back, tokens = front ++ token :: back → ¬ BreaksOff front token

/-- A group ends in front of the later tokens. -/
inductive GroupEnds : List Token → List Token → Prop
  | closed {group : List Token} (later : List Token) : IsGroup group → GroupEnds group later
  | broken {group : List Token} {next : Token} (later : List Token) :
      OpenGroup group → BreaksOff group next → GroupEnds group (next :: later)

/-- Part of a stream that is cut at the groups that recovery skips. -/
inductive Portion
  | single (token : Token)
  | group (tokens : List Token)

namespace Portion

def tokens : Portion → List Token
  | single token => [token]
  | group tokens => tokens

/-- The tokens of some portions one behind the other. -/
def joined (portions : List Portion) : List Token := portions.flatMap tokens

@[simp]
theorem joined_single (token : Token) (portions : List Portion) :
    joined (.single token :: portions) = token :: joined portions := rfl

@[simp]
theorem joined_group (tokens : List Token) (portions : List Portion) :
    joined (.group tokens :: portions) = tokens ++ joined portions := rfl

@[simp]
theorem joined_append (before after : List Portion) :
    joined (before ++ after) = joined before ++ joined after :=
  List.flatMap_append

end Portion

/-- A stream, up to the end of the file, as the groups that brackets outside a set open and the
tokens that remain between those groups. -/
inductive Cut (set : RecoverySet) : List Token → List Portion → Prop
  | ended {last : Token} (behind : List Token) :
      last.isEndOfFile = true → Cut set (last :: behind) [.single last]
  | single {token : Token} {later : List Token} {portions : List Portion} :
      token.isEndOfFile = false → set.stopsAt token = true ∨ token.closer? = none →
        Cut set later portions → Cut set (token :: later) (.single token :: portions)
  | group {opening : Token} {inner later : List Token} {portions : List Portion} :
      set.stopsAt opening = false → GroupEnds (opening :: inner) later →
        Cut set later portions →
        Cut set (opening :: (inner ++ later)) (.group (opening :: inner) :: portions)

/-! ## Well-nested tokens -/

section WellNested

variable {before behind later tokens : List Token} {opening : Token} {mark : Punctuation}

theorem WellNested.append (h : WellNested before) (hlater : WellNested later) :
    WellNested (before ++ later) := by
  induction h with
  | nil => exact hlater
  | plain hgoes hopens hcloses _ ih => exact .plain hgoes hopens hcloses ih
  | group hopens hinner hcloses _ _ ih =>
      rw [List.cons_append, List.append_assoc, List.cons_append]
      exact .group hopens hinner hcloses ih

theorem WellNested.unended (h : WellNested tokens) : ∀ token ∈ tokens, token.isEndOfFile = false := by
  induction h with
  | nil => simp
  | plain hgoes _ _ _ ih => exact List.forall_mem_cons.mpr ⟨hgoes, ih⟩
  | group hopens _ hcloses _ ihinner ihlater =>
      refine List.forall_mem_cons.mpr ⟨Token.isEndOfFile_of_closer? hopens, ?_⟩
      refine List.forall_mem_append.mpr ⟨ihinner, List.forall_mem_cons.mpr ⟨?_, ihlater⟩⟩
      simp [Token.isEndOfFile, hcloses]

/-- Behind an opening bracket among well-nested tokens comes the one that matches it. -/
theorem WellNested.exists_closing (h : WellNested tokens) (hsplit : tokens = before ++ opening :: behind)
    (hopens : opening.closer? = some mark) :
    ∃ inner closing later, behind = inner ++ closing :: later ∧ WellNested inner ∧
      closing.kind = .punctuation mark := by
  induction h generalizing before behind with
  | nil => simp at hsplit
  | plain _ hplain _ _ ih =>
      rcases List.cons_eq_append_iff.mp hsplit with ⟨rfl, hfirst⟩ | ⟨between, rfl, hrest⟩
      · obtain ⟨rfl, -⟩ := List.cons.inj hfirst
        rw [hplain] at hopens
        cases hopens
      · exact ih hrest
  | @group first closing inner later mark' hfirst hinner hcloses _ ihinner ihlater =>
      -- The bracket is the first token, or it comes before, at or behind the closer of that one.
      rcases List.cons_eq_append_iff.mp hsplit with ⟨rfl, hsame⟩ | ⟨between, rfl, hrest⟩
      · obtain ⟨rfl, rfl⟩ := List.cons.inj hsame
        obtain rfl := Option.some.inj (hfirst.symm.trans hopens)
        exact ⟨inner, closing, later, rfl, hinner, hcloses⟩
      · have hcloser := Token.closer?_eq_none_of_closing? (Token.closing?_of_closer? hfirst hcloses)
        rcases List.append_eq_append_iff.mp hrest with ⟨front, rfl, hfront⟩ | ⟨back, rfl, hback⟩
        · rcases List.cons_eq_append_iff.mp hfront with ⟨-, hsame⟩ | ⟨more, -, hlater⟩
          · obtain ⟨rfl, -⟩ := List.cons.inj hsame
            rw [hcloser] at hopens
            cases hopens
          · exact ihlater hlater
        · rcases List.cons_eq_append_iff.mp hback with ⟨-, hsame⟩ | ⟨more, rfl, rfl⟩
          · obtain ⟨rfl, -⟩ := List.cons.inj hsame
            rw [hcloser] at hopens
            cases hopens
          · obtain ⟨nested, partner, rest, rfl, hnested, hmatch⟩ := ihinner rfl
            exact ⟨nested, partner, rest ++ closing :: later, by simp, hnested, hmatch⟩

end WellNested

/-! ## The scan over a group -/

namespace Skip

variable {opening closing token : Token} {tokens : List Token}
  {innermost mark : Punctuation} {outer pending behind : List Punctuation}

theorem groupRest_goes (hgoes : token.isEndOfFile = false)
    (hbehind : pendingBehind? pending token = some behind) (rest : List Token) :
    groupRest pending (token :: rest) = groupRest behind rest + 1 := by
  rw [groupRest, if_neg (by simp [hgoes]), hbehind]

theorem groupRest_opening (hopens : opening.closer? = some mark) (rest : List Token) :
    groupRest (innermost :: outer) (opening :: rest) =
      groupRest (mark :: innermost :: outer) rest + 1 :=
  groupRest_goes (Token.isEndOfFile_of_closer? hopens) (by simp [pendingBehind?, hopens]) rest

theorem groupRest_closing (hopens : opening.closer? = some mark)
    (hcloses : closing.kind = .punctuation mark) (rest : List Token) :
    groupRest (mark :: outer) (closing :: rest) = groupRest outer rest + 1 :=
  groupRest_goes (by simp [Token.isEndOfFile, hcloses])
    (pendingBehind?_closing hopens hcloses outer) rest

/-- Inside a group well-nested tokens are passed over. -/
theorem groupRest_wellNested (h : WellNested tokens) (innermost : Punctuation)
    (outer : List Punctuation) (rest : List Token) :
    groupRest (innermost :: outer) (tokens ++ rest) =
      tokens.length + groupRest (innermost :: outer) rest := by
  induction h generalizing innermost outer rest with
  | nil => simp
  | plain hgoes hopens hcloses _ ih =>
      rw [List.cons_append, groupRest_goes hgoes (by simp [pendingBehind?, hopens, hcloses]; rfl), ih,
        List.length_cons]
      omega
  | group hopens _ hcloses _ ihinner ihlater =>
      rw [List.cons_append, List.append_assoc, List.cons_append, groupRest_opening hopens, ihinner,
        groupRest_closing hopens hcloses, ihlater]
      simp only [List.length_cons, List.length_append]
      omega

end Skip

/-! ## The innermost open bracket -/

section InnermostOpen

variable {before behind tokens : List Token} {opening opening' : Token}

/-- Tokens behind an opening bracket and within well-nested ones are not well nested: the bracket
that matches it is among them. -/
theorem WellNested.not_opening (h : WellNested (before ++ opening :: behind))
    (hbehind : WellNested behind) : opening.closer? = none := by
  cases hopens : opening.closer? with
  | none => rfl
  | some mark =>
      obtain ⟨inner, closing, later, hsplit, hinner, hcloses⟩ := h.exists_closing rfl hopens
      -- A scan stops at the bracket that matches, and it gets over these tokens twice in a row.
      have hcount : ∀ rest, behind.length + Skip.groupRest [mark] rest = inner.length + 1 := by
        intro rest
        rw [← Skip.groupRest_wellNested hbehind, hsplit, List.append_assoc, List.cons_append,
          Skip.groupRest_wellNested hinner, Skip.groupRest_closing hopens hcloses,
          Parser.groupRest_nil]
      have hwhole := Skip.groupRest_wellNested hbehind mark [] []
      rw [List.append_nil] at hwhole
      have hlength : behind.length = inner.length + (later.length + 1) := by simp [hsplit]
      have htwice := hcount behind
      omega

theorem InnermostOpen.unique (h : InnermostOpen tokens opening)
    (h' : InnermostOpen tokens opening') : opening = opening' := by
  obtain ⟨hopens, outer, inner, rfl, hinner⟩ := h
  obtain ⟨hopens', outer', inner', hsame, hinner'⟩ := h'
  rcases List.append_eq_append_iff.mp hsame with ⟨front, rfl, hfront⟩ | ⟨front, rfl, hfront⟩
  · rcases List.cons_eq_append_iff.mp hfront with ⟨-, hfirst⟩ | ⟨more, -, rfl⟩
    · exact (List.cons.inj hfirst).1.symm
    · rw [hinner.not_opening hinner'] at hopens'
      cases hopens'
  · rcases List.cons_eq_append_iff.mp hfront with ⟨-, hfirst⟩ | ⟨more, -, rfl⟩
    · exact (List.cons.inj hfirst).1
    · rw [hinner'.not_opening hinner] at hopens
      cases hopens

end InnermostOpen

/-! ## Open groups -/

/-- Tokens that open brackets one inside the other, with well-nested tokens behind each. The closers
of these brackets are pending, innermost first. -/
inductive Pends : List Token → List Punctuation → Prop
  | nothing : Pends [] []
  | opening {before inner : List Token} {opening : Token} {pending : List Punctuation}
      {mark : Punctuation} :
      Pends before pending → opening.closer? = some mark → WellNested inner →
        Pends (before ++ opening :: inner) (mark :: pending)

section Pends

variable {before group tokens : List Token} {token : Token} {innermost : Punctuation}
  {outer pending : List Punctuation}

theorem Pends.innermostOpen (h : Pends tokens (innermost :: outer)) :
    ∃ opening, InnermostOpen tokens opening ∧ opening.closer? = some innermost := by
  cases h with
  | @opening before inner opening _ _ _ hopens hinner =>
      exact ⟨opening, ⟨by simp [hopens], before, inner, rfl, hinner⟩, hopens⟩

/-- A closer breaks a group off if it is not the innermost pending one. -/
theorem Pends.breaksOff_iff (h : Pends tokens (innermost :: outer)) :
    BreaksOff tokens token ↔
      token.isEndOfFile = true ∨ Skip.pendingBehind? (innermost :: outer) token = none := by
  obtain ⟨opening, hinnermost, hopens⟩ := h.innermostOpen
  refine or_congr_right ?_
  cases hcloses : token.closing? with
  | none =>
      cases hopening : token.closer? <;> simp [Skip.pendingBehind?, hcloses, hopening]
  | some mark =>
      have hmatches : (∀ opening, InnermostOpen tokens opening → opening.closer? ≠ some mark) ↔
          mark ≠ innermost := by
        constructor
        · rintro hdiffers rfl
          exact hdiffers opening hinnermost hopens
        · rintro hdiffers other hother hmark
          rw [hother.unique hinnermost, hopens] at hmark
          exact hdiffers (Option.some.inj hmark).symm
      simp [Skip.pendingBehind?, hcloses, Token.closer?_eq_none_of_closing? hcloses, hmatches]

/-- A token that does not break a group off closes it or leaves it open. -/
theorem Pends.step (h : Pends before (innermost :: outer)) (hgoes : ¬ BreaksOff before token) :
    IsGroup (before ++ [token]) ∨ ∃ innermost outer, Pends (before ++ [token]) (innermost :: outer) := by
  obtain ⟨hunended, hbehind⟩ := not_or.mp (mt h.breaksOff_iff.mpr hgoes)
  have hunended : token.isEndOfFile = false := by simpa using hunended
  cases hopening : token.closer? with
  | some mark => exact .inr ⟨mark, innermost :: outer, .opening h hopening .nil⟩
  | none =>
      cases h with
      | @opening before inner opening _ _ hbefore hopens hinner =>
          cases hcloses : token.closing? with
          | none =>
              refine .inr ⟨innermost, outer, ?_⟩
              rw [List.append_assoc]
              exact .opening hbefore hopens
                (hinner.append (.plain hunended hopening hcloses .nil))
          | some mark =>
              obtain rfl : mark = innermost := by
                simpa [Skip.pendingBehind?, hopening, hcloses] using hbehind
              have hkind := (Token.closing?_eq_some_iff.mp hcloses).1
              cases hbefore with
              | nothing => exact .inl ⟨opening, inner, token, mark, rfl, hopens, hinner, hkind⟩
              | @opening before around enclosing pending mark' hbefore hencloses haround =>
                  refine .inr ⟨mark', pending, ?_⟩
                  rw [List.append_assoc, List.append_assoc]
                  exact .opening hbefore hencloses
                    (haround.append (.group hopens hinner hkind .nil))

/-- In an open group some brackets are pending. -/
theorem OpenGroup.pends (h : OpenGroup group) :
    ∃ innermost outer, Pends group (innermost :: outer) := by
  induction group using List.reverseRecOn with
  | nil =>
      obtain ⟨_, _, hnil, -⟩ := h.opens
      cases hnil
  | append_singleton before token ih =>
      obtain ⟨opening, rest, hsplit, hopens⟩ := h.opens
      rcases List.append_eq_cons_iff.mp hsplit with ⟨rfl, hfirst⟩ | ⟨more, rfl, -⟩
      · obtain ⟨rfl, -⟩ := List.cons.inj hfirst
        obtain ⟨mark, hmark⟩ := Option.isSome_iff_exists.mp hopens
        exact ⟨mark, [], .opening .nothing hmark .nil⟩
      · have hfront : OpenGroup (opening :: more) :=
          ⟨⟨opening, more, rfl, hopens⟩,
            fun front hleading => h.unclosed front (hleading.trans (List.prefix_append _ _)),
            fun front next back hfront =>
              h.unbroken front next (back ++ [token]) (by rw [hfront]; simp)⟩
        obtain ⟨innermost, outer, hpends⟩ := ih hfront
        exact (hpends.step (h.unbroken _ token [] rfl)).resolve_left
          (h.unclosed _ List.prefix_rfl)

/-- The scan over a group goes on behind its open part with the closers that are pending there. -/
theorem Pends.group_eq (h : Pends before (innermost :: outer)) (rest : List Token) :
    Skip.group (before ++ rest) = before.length + Skip.groupRest (innermost :: outer) rest := by
  generalize hpending : innermost :: outer = pending at h
  induction h generalizing innermost outer rest with
  | nothing => cases hpending
  | @opening before inner opening pending mark hbefore hopens hinner ih =>
      obtain ⟨rfl, rfl⟩ := List.cons.inj hpending
      cases outer with
      | nil =>
          cases hbefore
          rw [List.nil_append, List.cons_append, Skip.group, hopens, List.length_cons]
          dsimp only
          rw [Skip.groupRest_wellNested hinner]
          omega
      | cons next further =>
          rw [List.append_assoc, List.cons_append, ih _ rfl, Skip.groupRest_opening hopens,
            Skip.groupRest_wellNested hinner]
          simp only [List.length_append, List.length_cons]
          omega

end Pends

/-! ## Where groups end -/

section GroupEnds

variable {before group later rest : List Token} {opening token : Token}

theorem BreaksOff.not_opening (h : BreaksOff before token) : token.closer? = none := by
  rcases h with hend | ⟨mark, hcloses, -⟩
  · cases hopens : token.closer? with
    | none => rfl
    | some mark =>
        rw [Token.isEndOfFile_of_closer? hopens] at hend
        cases hend
  · exact Token.closer?_eq_none_of_closing? hcloses

theorem OpenGroup.single (hopens : opening.closer?.isSome = true) : OpenGroup [opening] where
  opens := ⟨opening, [], rfl, hopens⟩
  unclosed := by
    rintro front hleading ⟨_, inner, closing, _, rfl, -⟩
    have hlength := hleading.length_le
    simp at hlength
  unbroken := by
    intro front token back hsplit hbreaks
    cases front with
    | nil =>
        obtain ⟨rfl, -⟩ := List.cons.inj hsplit
        rw [hbreaks.not_opening] at hopens
        cases hopens
    | cons first front => simp at hsplit

theorem OpenGroup.snoc (h : OpenGroup before) (hunbroken : ¬ BreaksOff before token)
    (hunclosed : ¬ IsGroup (before ++ [token])) : OpenGroup (before ++ [token]) where
  opens := by
    obtain ⟨opening, rest, rfl, hopens⟩ := h.opens
    exact ⟨opening, rest ++ [token], rfl, hopens⟩
  unclosed := by
    intro front hleading
    rcases List.prefix_concat_iff.mp hleading with rfl | hfront
    · exact hunclosed
    · exact h.unclosed front hfront
  unbroken := by
    intro front next back hsplit
    rcases List.eq_nil_or_concat back with rfl | ⟨more, last, rfl⟩
    · obtain ⟨rfl, hsame⟩ := List.append_inj' hsplit rfl
      obtain ⟨rfl, -⟩ := List.cons.inj hsame
      exact hunbroken
    · rw [List.concat_eq_append, ← List.cons_append, ← List.append_assoc] at hsplit
      exact h.unbroken front next more (List.append_inj' hsplit rfl).1

/-- An open group comes to its end. -/
theorem OpenGroup.exists_end (h : OpenGroup before)
    (hend : ∃ token ∈ rest, token.isEndOfFile = true) :
    ∃ more later, rest = more ++ later ∧ GroupEnds (before ++ more) later := by
  induction rest generalizing before with
  | nil => simp at hend
  | cons token rest ih =>
      by_cases hbreaks : BreaksOff before token
      · exact ⟨[], token :: rest, rfl, by rw [List.append_nil]; exact .broken rest h hbreaks⟩
      · by_cases hcloses : IsGroup (before ++ [token])
        · exact ⟨[token], rest, rfl, .closed rest hcloses⟩
        · have hgoes : token.isEndOfFile = false := by simpa using mt Or.inl hbreaks
          have hrest := exists_end_behind (List.forall_mem_singleton.mpr hgoes) hend
          obtain ⟨more, later, rfl, hends⟩ := ih (h.snoc hbreaks hcloses) hrest
          exact ⟨token :: more, later, rfl, by rwa [List.append_cons]⟩

/-- Every group ends, at the end of the file if not before. -/
theorem exists_groupEnds (hopens : opening.closer?.isSome = true)
    (hend : ∃ token ∈ opening :: rest, token.isEndOfFile = true) :
    ∃ inner later, rest = inner ++ later ∧ GroupEnds (opening :: inner) later := by
  obtain ⟨mark, hmark⟩ := Option.isSome_iff_exists.mp hopens
  have hgoes := Token.isEndOfFile_of_closer? hmark
  exact (OpenGroup.single hopens).exists_end
    (exists_end_behind (List.forall_mem_singleton.mpr hgoes) hend)

theorem IsGroup.group_eq (h : IsGroup group) (later : List Token) :
    Skip.group (group ++ later) = group.length := by
  obtain ⟨opening, inner, closing, mark, rfl, hopens, hinner, hcloses⟩ := h
  have hpends : Pends (opening :: inner) [mark] := .opening .nothing hopens hinner
  rw [← List.cons_append, List.append_assoc, hpends.group_eq, List.cons_append,
    Skip.groupRest_closing hopens hcloses, Parser.groupRest_nil]
  simp

theorem OpenGroup.group_eq (h : OpenGroup group) (hbreaks : BreaksOff group token)
    (later : List Token) : Skip.group (group ++ token :: later) = group.length := by
  obtain ⟨innermost, outer, hpends⟩ := h.pends
  have hstopped : Skip.groupRest (innermost :: outer) (token :: later) = 0 := by
    rcases hpends.breaksOff_iff.mp hbreaks with hend | hnone
    · rw [Skip.groupRest, if_pos hend]
    · rw [Skip.groupRest, hnone]
      split <;> rfl
  rw [hpends.group_eq, hstopped, Nat.add_zero]

/-- The scan over a group stops where the group ends. -/
theorem GroupEnds.group_eq (h : GroupEnds group later) :
    Skip.group (group ++ later) = group.length := by
  cases h with
  | closed later hgroup => exact hgroup.group_eq later
  | broken later hopen hbreaks => exact hopen.group_eq hbreaks later

theorem GroupEnds.opens (h : GroupEnds (opening :: rest) later) :
    opening.closer?.isSome = true := by
  cases h with
  | closed _ hgroup =>
      obtain ⟨_, _, _, mark, hsame, hopens, -⟩ := hgroup
      obtain ⟨rfl, -⟩ := List.cons.inj hsame
      simp [hopens]
  | broken _ hopen _ =>
      obtain ⟨_, _, hsame, hopens⟩ := hopen.opens
      obtain ⟨rfl, -⟩ := List.cons.inj hsame
      exact hopens

/-- Where a group outside of the set starts, no token remains. -/
theorem GroupEnds.not_remains (h : GroupEnds (opening :: rest) later) {set : RecoverySet}
    (hskips : set.stopsAt opening = false) :
    ¬ (set.stopsAt opening = true ∨ opening.closer? = none) := by
  have hopens := h.opens
  rintro (hstops | hplain)
  · rw [hstops] at hskips
    cases hskips
  · rw [hplain] at hopens
    cases hopens

theorem GroupEnds.unended (h : GroupEnds group later) :
    ∀ token ∈ group, token.isEndOfFile = false := by
  cases h with
  | closed _ hgroup =>
      obtain ⟨opening, inner, closing, mark, rfl, hopens, hinner, hcloses⟩ := hgroup
      have hwhole : WellNested (opening :: (inner ++ [closing])) :=
        .group hopens hinner hcloses .nil
      exact hwhole.unended
  | broken _ hopen _ =>
      intro token htoken
      obtain ⟨front, back, hsplit⟩ := List.append_of_mem htoken
      have hgoes := hopen.unbroken front token back hsplit
      simpa using mt Or.inl hgoes

end GroupEnds

/-! ## Cutting a stream at its groups -/

section Cut

variable {set : RecoverySet} {tokens : List Token} {portions portions' : List Portion}

theorem Cut.exists (set : RecoverySet) (hend : ∃ token ∈ tokens, token.isEndOfFile = true) :
    ∃ portions, Cut set tokens portions := by
  induction hlength : tokens.length using Nat.strongRecOn generalizing tokens with
  | ind length ih =>
      cases tokens with
      | nil => simp at hend
      | cons token rest =>
          cases hended : token.isEndOfFile with
          | true => exact ⟨_, .ended rest hended⟩
          | false =>
              have hrest := exists_end_behind (List.forall_mem_singleton.mpr hended) hend
              by_cases hremains : set.stopsAt token = true ∨ token.closer? = none
              · obtain ⟨portions, hcut⟩ := ih rest.length (by simp [← hlength]) hrest rfl
                exact ⟨_, .single hended hremains hcut⟩
              · obtain ⟨hgoes, hopens⟩ := not_or.mp hremains
                obtain ⟨inner, later, rfl, hends⟩ :=
                  exists_groupEnds (Option.isSome_iff_ne_none.mpr hopens) hend
                have hlater := exists_end_behind hends.unended hend
                obtain ⟨portions, hcut⟩ := ih later.length
                  (by simp only [← hlength, List.length_cons, List.length_append]; omega) hlater rfl
                exact ⟨_, .group (by simpa using hgoes) hends hcut⟩

/-- There is one way to cut a stream. -/
theorem Cut.unique (h : Cut set tokens portions) (h' : Cut set tokens portions') :
    portions = portions' := by
  induction h generalizing portions' with
  | ended behind hended =>
      cases h' with
      | ended _ _ => rfl
      | single hgoes _ _ =>
          rw [hended] at hgoes
          cases hgoes
      | group hskips _ _ => simp [RecoverySet.stopsAt, hended] at hskips
  | single hgoes hremains _ ih =>
      cases h' with
      | ended _ hended =>
          rw [hended] at hgoes
          cases hgoes
      | single _ _ hlater => rw [ih hlater]
      | group hskips hends _ => exact absurd hremains (hends.not_remains hskips)
  | @group opening inner later portions hskips hends _ ih =>
      generalize hsame : opening :: (inner ++ later) = tokens at h'
      cases h' with
      | ended _ hended =>
          obtain ⟨rfl, -⟩ := List.cons.inj hsame
          simp [RecoverySet.stopsAt, hended] at hskips
      | single _ hremains _ =>
          obtain ⟨rfl, -⟩ := List.cons.inj hsame
          exact absurd hremains (hends.not_remains hskips)
      | @group opening' inner' later' _ _ hends' hcut' =>
          have hsame : (opening :: inner) ++ later = (opening' :: inner') ++ later' := hsame
          have hlength : (opening :: inner).length = (opening' :: inner').length := by
            rw [← hends.group_eq, ← hends'.group_eq, hsame]
          obtain ⟨hgroup, rfl⟩ := List.append_inj hsame hlength
          rw [hgroup, ih hcut']

/-- Recovery stops at the first token of its set that remains between the groups. -/
theorem Cut.untilStop_eq (h : Cut set tokens portions) :
    ∃ before stop after later, portions = before ++ .single stop :: after ∧
      tokens = Portion.joined before ++ stop :: later ∧ set.stopsAt stop = true ∧
      (∀ token, .single token ∈ before → set.stopsAt token = false) ∧
      Skip.untilStop set tokens = (Portion.joined before).length := by
  have hscan := Skip.scan_untilStop set
  induction h with
  | @ended last behind hended =>
      have hstops := hscan.ended last hended
      exact ⟨[], last, [], behind, rfl, rfl, hstops, by simp, hscan.stopped last behind hstops⟩
  | @single token later portions hgoes hremains _ ih =>
      cases hstops : set.stopsAt token with
      | true =>
          exact ⟨[], token, portions, later, rfl, rfl, hstops, by simp,
            hscan.stopped token later hstops⟩
      | false =>
          obtain ⟨before, stop, after, behind, rfl, rfl, hstop, hpassed, hcount⟩ := ih
          refine ⟨.single token :: before, stop, after, behind, rfl, rfl, hstop, ?_, ?_⟩
          · intro other hother
            rcases List.mem_cons.mp hother with hsame | hlater
            · cases hsame
              exact hstops
            · exact hpassed other hlater
          · rw [hscan.passed token _ hstops (hremains.resolve_left (by simp [hstops])), hcount,
              Portion.joined_single, List.length_cons, Nat.add_comm]
  | @group opening inner later portions hskips hends _ ih =>
      obtain ⟨before, stop, after, behind, rfl, rfl, hstop, hpassed, hcount⟩ := ih
      refine ⟨.group (opening :: inner) :: before, stop, after, behind, rfl, by simp, hstop, ?_, ?_⟩
      · intro other hother
        rcases List.mem_cons.mp hother with hsame | hlater
        · cases hsame
        · exact hpassed other hlater
      · have hgroup := hends.group_eq
        rw [List.cons_append] at hgroup
        rw [hscan.grouped opening _ hskips hends.opens, hgroup, List.length_cons,
          List.drop_succ_cons, List.drop_left, hcount, Portion.joined_group, List.length_append,
          List.length_cons]

/-- Recovery stops in front of a group or behind it. -/
theorem Cut.untilStop_outside {before after : List Portion} {group : List Token}
    (h : Cut set tokens (before ++ .group group :: after)) :
    Skip.untilStop set tokens ≤ (Portion.joined before).length ∨
      (Portion.joined before).length + group.length ≤ Skip.untilStop set tokens := by
  obtain ⟨front, stop, back, later, hsplit, -, -, -, hcount⟩ := h.untilStop_eq
  rw [hcount]
  rcases List.append_eq_append_iff.mp hsplit with ⟨more, rfl, hmore⟩ | ⟨more, rfl, -⟩
  · rcases List.cons_eq_append_iff.mp hmore with ⟨-, hsame⟩ | ⟨between, rfl, -⟩
    · cases hsame
    · refine .inr ?_
      simp only [Portion.joined_append, Portion.joined_group, List.length_append]
      omega
  · refine .inl ?_
    simp only [Portion.joined_append, List.length_append]
    omega

end Cut

namespace Parser

open ParserState

/-- What is skipped from a state on respects brackets. -/
structure RespectsBrackets (s : ParserState) : Prop where
  /-- A group with well-nested tokens is skipped through the bracket that matches the first one. -/
  closed : ∀ group, group <+: s.rest → IsGroup group →
    skip Skip.group s = ((), s.skip group.length)
  /-- Any other group is skipped up to what breaks it off first, and that is not consumed. -/
  broken : s.current.closer?.isSome = true → (∀ group, group <+: s.rest → ¬ IsGroup group) →
    ∃ group next later, s.rest = group ++ next :: later ∧ OpenGroup group ∧ BreaksOff group next ∧
      skip Skip.group s = ((), s.skip group.length)
  /-- There is one way to cut the stream at the groups that a set makes recovery skip. -/
  cut : ∀ set, ∃! portions, Cut set s.rest portions
  /-- Recovery stops at the first token of its set that remains between the groups. -/
  stops : ∀ set portions, Cut set s.rest portions →
    ∃ before stop after later, portions = before ++ .single stop :: after ∧
      s.rest = Portion.joined before ++ stop :: later ∧ set.stopsAt stop = true ∧
      (∀ token, .single token ∈ before → set.stopsAt token = false) ∧
      synchronize set s = ((), s.skip (Portion.joined before).length)
  /-- Recovery stops in front of a group or behind it. -/
  outside : ∀ set before group after, Cut set s.rest (before ++ .group group :: after) →
    let start := s.position + (Portion.joined before).length
    (synchronize set s).2.position ≤ start ∨
      start + group.length ≤ (synchronize set s).2.position
  stays : ∀ set, set.stopsAt s.current = true → synchronize set s = ((), s)

/-- **Skipping respects brackets.** A group is skipped through the bracket that matches the first one,
or up to the first closer that does not match the innermost open bracket. Recovery skips all groups
that brackets outside of its set open, and stops at the first token of its set that remains. -/
theorem respectsBrackets {s : ParserState} (hsealed : s.Sealed) : RespectsBrackets s where
  closed := by
    rintro group ⟨later, hrest⟩ hgroup
    show ((), s.skip (Skip.group s.rest)) = _
    rw [← hrest, hgroup.group_eq]
  broken := by
    intro hopens hclosed
    have hend := hsealed.closed
    rw [hsealed.rest_eq] at hend
    obtain ⟨inner, later, hsplit, hends⟩ := exists_groupEnds hopens hend
    have hrest : s.rest = s.current :: inner ++ later := by
      rw [hsealed.rest_eq, hsplit]
      rfl
    have hskip : skip Skip.group s = ((), s.skip (s.current :: inner).length) := by
      show ((), s.skip (Skip.group s.rest)) = _
      rw [hrest, hends.group_eq]
    cases hends with
    | closed _ hgroup => exact absurd hgroup (hclosed _ ⟨later, hrest.symm⟩)
    | @broken next later hopen hbreaks => exact ⟨_, next, later, hrest, hopen, hbreaks, hskip⟩
  cut := by
    intro set
    obtain ⟨portions, hcut⟩ := Cut.exists set hsealed.closed
    exact ⟨portions, hcut, fun other hother => hother.unique hcut⟩
  stops := by
    intro set portions hcut
    obtain ⟨before, stop, after, later, hsplit, hrest, hstop, hpassed, hcount⟩ := hcut.untilStop_eq
    refine ⟨before, stop, after, later, hsplit, hrest, hstop, hpassed, ?_⟩
    show ((), s.skip (Skip.untilStop set s.rest)) = _
    rw [hcount]
  outside := by
    intro set before group after hcut start
    show s.position + Skip.untilStop set s.rest ≤ start ∨
      start + group.length ≤ s.position + Skip.untilStop set s.rest
    have houtside := hcut.untilStop_outside
    omega
  stays := by
    intro set hstops
    have hcount : Skip.untilStop set s.rest = 0 := by
      rw [hsealed.rest_eq]
      exact (Skip.scan_untilStop set).stopped _ _ hstops
    show ((), s.skip (Skip.untilStop set s.rest)) = _
    rw [hcount]
    simp [ParserState.skip]

/-- A group that is broken off, one that is closed, and a stray closer come before the `;`. -/
theorem respectsBrackets_of_mixedBrackets :
    let file := FileId.registered 0
    let token (kind : TokenKind) (text : String) : Token := ⟨kind, text, .emptyAt file 0, false⟩
    let bracket := token (.punctuation .lBracket) "["
    let paren := token (.punctuation .rParen) ")"
    let semi := token (.punctuation .semi) ";"
    let block := [token (.punctuation .lBrace) "\x7b", semi, token (.punctuation .rBrace) "\x7d"]
    let stray := token (.punctuation .rBracket) "]"
    let last := token .endOfFile ""
    let s := Parsed.initial file (bracket :: paren :: (block ++ [stray, semi, last])) .empty
    let portions : List Portion := [.group [bracket], .single paren, .group block, .single stray,
      .single semi, .single last]
    s.Sealed ∧ OpenGroup [bracket] ∧ BreaksOff [bracket] paren ∧ IsGroup block ∧
      Cut .top s.rest portions ∧ (synchronize .top s).2.position = 6 ∧ RespectsBrackets s := by
  intro file token bracket paren semi block stray last s portions
  have hsealed : s.Sealed := Parsed.initial_sealed file _ .empty
  have hopen : OpenGroup [bracket] := .single rfl
  have hbreaks : BreaksOff [bracket] paren := by
    refine .inr ⟨.rParen, rfl, fun opening hopening hmark => ?_⟩
    have hinnermost : InnermostOpen [bracket] bracket := ⟨rfl, [], [], rfl, .nil⟩
    rw [hopening.unique hinnermost] at hmark
    cases hmark
  have hgroup : IsGroup block := ⟨_, [semi], _, .rBrace, rfl, rfl, .plain rfl rfl rfl .nil, rfl⟩
  have hcut : Cut .top s.rest portions :=
    .group rfl (.broken _ hopen hbreaks) (.single rfl (.inr rfl)
      (.group rfl (.closed _ hgroup) (.single rfl (.inr rfl) (.single rfl (.inl rfl)
        (.ended [] rfl)))))
  exact ⟨hsealed, hopen, hbreaks, hgroup, hcut, rfl, respectsBrackets hsealed⟩

end Parser

end BehaviorTree
