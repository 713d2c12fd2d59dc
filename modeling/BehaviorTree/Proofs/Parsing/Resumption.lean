import BehaviorTree.Proofs.Parsing.ItemStarts
import BehaviorTree.Proofs.Parsing.ItemsMirrored

/-!
# Behind a missing terminator

The first run has consumed the `;`; the second one has reported it as missing and gone on as if it
were there. Up to places the same tokens come for both, except that in the second run the first of
them starts a line. A silent run does not look at that, neither in front of a statement nor in front
of a declaration: it either consumes the token or leaves it alone. Once it is consumed the two agree.
-/

namespace BehaviorTree

namespace Omission

open ParserState

variable (o : Omission)

/-- The end of the last token in front of the omission. -/
def stop : Nat := (o.before.getLast o.begun).range.stop

/-- The `;` was reported as missing, and nothing else was. -/
def Reported (diagnostics : List Diagnostic) : Prop :=
  ∃ context, diagnostics =
    [SyntaxReport.missingAtLineEnd "`;`" context ";" (.emptyAt o.file o.stop)]

/-- The first run is one token ahead. While it is silent the second one has made one report. -/
structure Parted (s t : ParserState) : Prop where
  position : s.position = t.position + 1
  passed : o.before.length ≤ t.position
  honest : s.Honest
  reported : s.Silent → o.Reported t.diagnostics

def parted : Books where
  related := o.Parted
  lead := 1
  position hparted := hparted.position
  begun hparted _ := by
    have hposition := hparted.position
    have hpassed := hparted.passed
    have hbegun := List.length_pos_iff.mpr o.begun
    omega
  skip {s t} hparted count := by
    refine ⟨?_, ?_, hparted.honest, hparted.reported⟩
    · show s.position + count = t.position + count + 1
      have hposition := hparted.position
      omega
    · exact Nat.le_trans hparted.passed (Nat.le_add_right _ _)
  report hparted _ :=
    ⟨hparted.position, hparted.passed, fun hsilent => (not_silent_report _ hsilent).elim,
      fun hsilent => (not_silent_report _ hsilent).elim⟩
  reportOnce hparted _ := by
    have hloud := hparted.honest.not_silent_reportOnce
    refine ⟨?_, ?_, fun hsilent => (hloud _ hsilent).elim, fun hsilent => (hloud _ hsilent).elim⟩
    · rw [position_reportOnce, position_reportOnce]
      exact hparted.position
    · rw [position_reportOnce]
      exact hparted.passed
  withArena hparted _ _ := ⟨hparted.position, hparted.passed, hparted.honest, hparted.reported⟩

/-- What the runs have to do with each other behind the omission. -/
def books : Books := if o.next.kind.startsItem then o.parted else .same

/-- Whether the second run meets the token behind the omission as the first of a line. -/
def line : Bool := o.next.kind.startsItem || o.next.newlineBefore

/-- The token behind the omission comes next. -/
structure Crossed (s t : ParserState) : Prop where
  ended : s.Ended
  final : o.next.isEndOfFile = false → s.final = o.final
  rest : s.rest = o.next :: o.later
  twins : { s.relined o.line with final := o.final }.Twins o.books t

/-- The omission lies behind both runs. -/
def Past (s t : ParserState) : Prop :=
  o.Crossed s t ∨ o.next.kind.startsItem = true ∧ s.Twins o.books t

/-- The runs have returned the same and are in front of the omission still, or they have got past it
and have returned related values. -/
def Lands {α : Type} (bound : Nat) (rel : α → α → Prop) (a a' : α) (s t : ParserState) : Prop :=
  a = a' ∧ o.Within 0 bound s t ∨ rel a a' ∧ o.Past s t

variable {o} {s t : ParserState}

theorem Crossed.withArena (hcrossed : o.Crossed s t) (arena arena' : Arena) :
    o.Crossed { s with arena := arena } { t with arena := arena' } where
  ended := hcrossed.ended
  final := hcrossed.final
  rest := hcrossed.rest
  twins := hcrossed.twins.withArena arena arena'

theorem Past.withArena (hpast : o.Past s t) (arena arena' : Arena) :
    o.Past { s with arena := arena } { t with arena := arena' } := by
  obtain hcrossed | ⟨hstarts, htwins⟩ := hpast
  · exact .inl (hcrossed.withArena arena arena')
  · exact .inr ⟨hstarts, htwins.withArena arena arena'⟩

theorem there_of_starts (hstarts : o.next.kind.startsItem = true) :
    o.there = o.next.onNewLine :: o.later := by
  unfold there resumed remaining
  rw [if_pos hstarts, if_pos hstarts]

theorem books_of_starts (hstarts : o.next.kind.startsItem = true) : o.books = o.parted :=
  if_pos hstarts

theorem startsItem_ne_semi {kind : TokenKind} (hstarts : kind.startsItem = true) :
    (kind == .punctuation .semi) = false := by
  cases hsame : kind == .punctuation .semi with
  | false => rfl
  | true =>
      rw [beq_iff_eq] at hsame
      rw [hsame] at hstarts
      cases hstarts

end Omission

namespace Parser

open ParserState

theorem expectSemi_found (context : String) (set : RecoverySet) {s : ParserState}
    (hsemi : s.AtSemi) : expectSemi context set s = ((), s.skip 1) := by
  have hkind : s.current.kind = .punctuation .semi := hsemi
  have hfound : acceptPunctuation .semi s = (true, (advance s).2) :=
    accept_passes (by simp [Token.isPunctuation, hkind])
  have hadvance : (advance s).2 = s.skip 1 := by
    unfold advance
    rw [Token.isEndOfFile, hkind]
    rfl
  show (if (acceptPunctuation .semi s).1 then (Pure.pure () : Parser Unit) else _)
    (acceptPunctuation .semi s).2 = _
  rw [hfound, hadvance]
  rfl

/-- What is missing in front of a token that starts a line is missing where the line before ends. -/
theorem expectSemi_lineEnd (context : String) (set : RecoverySet) {s : ParserState}
    (hsemi : s.current.isPunctuation .semi = false) (hbegun : 0 < s.position)
    (hline : s.current.newlineBefore = true) :
    expectSemi context set s =
      ((), s.reportOnce (SyntaxReport.missingAtLineEnd "`;`" context ";"
        (.emptyAt s.file s.lastRange.stop))) := by
  have hmissing : missing "`;`" context (some ";") s =
      (.insert, s.reportOnce (SyntaxReport.missingAtLineEnd "`;`" context ";"
        (.emptyAt s.file s.lastRange.stop))) := by
    unfold missing
    dsimp only
    rw [hline, decide_eq_true hbegun]
    rfl
  have hmark : acceptPunctuation .semi s = (false, s) := accept_fails hsemi
  simp only [expectSemi, bind, StateT.bind, hmark, Bool.false_eq_true, if_false, hmissing]
  rfl

theorem Grows.afterMissing (set : RecoverySet) (recovery : Recovery) : Grows (match recovery with
    | .insert => Pure.pure ()
    | .skip => do
      Parser.synchronize set
      let _ ← Parser.acceptPunctuation .semi) := by
  cases recovery with
  | insert => exact Grows.pure ()
  | skip => exact (Grows.synchronize set).bind fun _ => (Grows.acceptPunctuation _).bind fun _ =>
      Grows.pure ()

end Parser

namespace Omission

open ParserState

variable {o : Omission} {s t : ParserState}

/-- Where the first run consumes the `;`, the second one reports that it is missing. -/
theorem Faces.crossed (hfaces : o.Faces 0 [] s t) (hhonest : s.Honest) (hsilent : s.Silent)
    (context : String) (set : RecoverySet) :
    o.Crossed (s.skip 1) (Parser.expectSemi context set t).2 := by
  have hrest : (s.skip 1).rest = o.next :: o.later := by simp [ParserState.skip, hfaces.rest, here]
  refine ⟨hfaces.ended, hfaces.final, hrest, ?_⟩
  obtain ⟨passed, hbefore, hposition, -, hlast⟩ := hfaces.passed
  rw [List.append_nil] at hbefore
  have hsame := hfaces.same
  cases hstarts : o.next.kind.startsItem with
  | true =>
      rw [there_of_starts hstarts] at hsame
      have hcurrent : t.current = o.next.onNewLine := by
        simp [ParserState.current, ParserState.tokenAt, hsame]
      have hpassed : o.before.length ≤ t.position := by
        rw [hsame, hbefore]
        exact Nat.le_of_eq hposition.symm
      have hbegun : 0 < t.position :=
        Nat.lt_of_lt_of_le (List.length_pos_iff.mpr o.begun) hpassed
      have hplace : SourceRange.emptyAt t.file t.lastRange.stop = .emptyAt o.file o.stop := by
        have hrange := hlast (o.before.getLast o.begun) (by
          rw [← hbefore]
          exact List.getLast?_eq_some_getLast o.begun)
        rw [hsame, ← hfaces.file]
        show SourceRange.emptyAt s.file s.lastRange.stop = _
        rw [hrange]
        rfl
      have hgate : t.reportedAt = none := by
        rw [hsame]
        exact hhonest hsilent
      have hdiagnostics : t.diagnostics = [] := by
        rw [hsame]
        exact hsilent
      rw [Parser.expectSemi_lineEnd context set
        (by rw [hcurrent]; exact startsItem_ne_semi hstarts) hbegun (by rw [hcurrent]; rfl), hplace]
      have hreport : ∀ diagnostic, t.reportOnce diagnostic =
          { t.report diagnostic with reportedAt := some t.position } := by
        intro diagnostic
        unfold reportOnce
        rw [if_neg (by simp [hgate])]
      rw [hreport]
      have hline : o.line = true := by rw [line, hstarts, Bool.true_or]
      refine ⟨?_, ?_, ?_⟩
      · show List.map Token.blank ((s.skip 1).rest.modifyHead _) = List.map Token.blank t.rest
        rw [hrest, hsame, hline]
        rfl
      · show o.final.blank = t.final.blank
        rw [hsame]
      · rw [books_of_starts hstarts]
        refine ⟨?_, hpassed, hhonest, fun _ => ⟨context, ?_⟩⟩
        · show s.position + 1 = t.position + 1
          rw [hsame]
        · show t.diagnostics ++ _ = _
          rw [hdiagnostics]
          rfl
  | false =>
      have hthere : o.there = o.here := by
        unfold there resumed remaining
        rw [hstarts]
        rfl
      rw [hthere] at hsame
      have hsemi : t.AtSemi := by
        rw [AtSemi, hfaces.current_nil', resumed, hstarts]
        exact o.isSemi
      rw [Parser.expectSemi_found context set hsemi]
      have hline : o.line = o.next.newlineBefore := by rw [line, hstarts, Bool.false_or]
      refine ⟨?_, ?_, ?_⟩
      · show List.map Token.blank ((s.skip 1).rest.modifyHead _) = List.map Token.blank (t.rest.drop 1)
        rw [hrest, hsame, hline]
        rfl
      · show o.final.blank = t.final.blank
        rw [hsame]
      · rw [books, hstarts, hsame]
        exact ⟨rfl, rfl, rfl⟩

end Omission

namespace Parser

open ParserState

variable {α β : Type} {o : Omission} {bound : Nat} {R : ParserState → ParserState → Prop}
  {p q : Parser α} {f g : α → Parser β} {rel : α → α → Prop} {goal : β → β → Prop}
  {post : β → β → ParserState → ParserState → Prop}

/-- The end of an item. -/
theorem Mirrors.terminated {context : String} {set : RecoverySet} {v : β} (hv : goal v v) :
    Mirrored (o.Within 0 bound) (expectSemi context set >>= fun _ => Pure.pure v)
      (o.Lands bound goal) := by
  have hgrows : Grows (Parser.expectSemi context set) := (Same.expectSemi context set).grows
  refine ⟨hgrows.bind fun _ => Grows.pure v, fun s t hhonest hwithin hsilent => ?_⟩
  obtain ⟨coming, hbound, hfaces⟩ := hwithin
  change (Parser.expectSemi context set s).2.Silent at hsilent
  show o.Lands bound goal v v (Parser.expectSemi context set s).2
    (Parser.expectSemi context set t).2
  cases coming with
  | nil =>
      have hsemi : s.AtSemi := by rw [AtSemi, hfaces.current_nil, o.isSemi]
      rw [expectSemi_found context set hsemi] at hsilent ⊢
      exact .inr ⟨hv, .inl (hfaces.crossed hhonest hsilent context set)⟩
  | cons token coming =>
      have hfound : Mirrored (o.At 0 bound token) (Parser.expectSemi context set)
          (Both fun _ => o.Within 0 bound) := by
        refine Mirrors.acceptAt bound (Nat.le_succ _) rfl ?_ fun token => ?_
        · exact Mirrors.pure fun s t hwithin => ⟨rfl, hwithin⟩
        · exact Mirrors.loud ((Grows.missing _ _ _).bind (Grows.afterMissing set))
            (Loud.missing_bind (Grows.afterMissing set) _ _ _)
      exact .inl ⟨rfl, (hfound.2 s t hhonest ⟨coming, hbound, hfaces⟩ hsilent).2⟩

/-- Behind a part that may have got past the omission. -/
theorem Mirrors.landing (hp : Mirrors R p q (o.Lands bound rel))
    (hwithin : ∀ a, Mirrors (o.Within 0 bound) (f a) (g a) post)
    (hpast : ∀ a a', rel a a' → Mirrors o.Past (f a) (g a') post) :
    Mirrors R (p >>= f) (q >>= g) post := by
  refine Mirrors.bind hp fun a a' => ⟨(hwithin a).1, fun s t hhonest hlands hsilent => ?_⟩
  obtain ⟨rfl, hstill⟩ | ⟨hrel, hpassed⟩ := hlands
  · exact (hwithin a).2 s t hhonest hstill hsilent
  · exact (hpast a a' hrel).2 s t hhonest hpassed hsilent

/-! ### In front of the next item -/

/-- Both return related values and are past the omission. -/
def Passed (o : Omission) (rel : α → α → Prop) (a a' : α) (s t : ParserState) : Prop :=
  rel a a' ∧ o.Past s t

/-- In front of a token that the first run does not look at closely. -/
theorem Mirrors.crossed (hnext : o.next.isEndOfFile = false) (hagrees : Agrees p q rel)
    (hblind : Blind o.next p) : Mirrors o.Crossed p q (Passed o rel) := by
  refine ⟨hagrees.grows, fun s t hhonest hcrossed hsilent => ?_⟩
  have hfinal : ∀ s : ParserState, s.final = o.final →
      { s.relined o.line with final := o.final } = s.relined o.line := by
    rintro s hsame
    rw [← hsame]
    rfl
  have hreaches : s.Reaches (p s).2 := hagrees.reaches s
  have htwins := hcrossed.twins
  rw [hfinal s (hcrossed.final hnext)] at htwins
  obtain ⟨hrel, hstates⟩ := hagrees o.books _ t htwins
  obtain ⟨hstarts, hsame⟩ | ⟨hstill, hsame⟩ :=
    hblind o.line o.later s hcrossed.rest hhonest hsilent
  · rw [hsame] at hrel hstates
    exact ⟨hrel, .inr ⟨hstarts, hstates⟩⟩
  · rw [hsame] at hrel hstates
    have hfinal' : (p s).2.final = o.final := hreaches.final.trans (hcrossed.final hnext)
    refine ⟨hrel, .inl ⟨hreaches.ended hcrossed.ended, fun _ => hfinal', ?_, ?_⟩⟩
    · exact hstill.trans hcrossed.rest
    · rw [hfinal _ hfinal']
      exact hstates

theorem Mirrors.past (hagrees : Agrees p q rel) (hcrossed : Mirrors o.Crossed p q (Passed o rel)) :
    Mirrors o.Past p q (Passed o rel) := by
  refine ⟨hagrees.grows, fun s t hhonest hpast hsilent => ?_⟩
  obtain hstill | ⟨hstarts, htwins⟩ := hpast
  · exact hcrossed.2 s t hhonest hstill hsilent
  · obtain ⟨hrel, hstates⟩ := hagrees o.books s t htwins
    exact ⟨hrel, .inr ⟨hstarts, hstates⟩⟩

/-- At the end of the file, if a silent run does nothing there. -/
theorem Mirrors.crossedEnd (hnext : o.next.isEndOfFile = true) (hgrows : Grows p)
    (hidle : ∀ s t : ParserState, s.current.isEndOfFile = true → t.current.isEndOfFile = true →
      s.Honest → (p s).2.Silent → rel (p s).1 (q t).1 ∧ (p s).2 = s ∧ (q t).2 = t) :
    Mirrors o.Crossed p q (Passed o rel) := by
  refine ⟨hgrows, fun s t hhonest hcrossed hsilent => ?_⟩
  have hs : s.current = o.next := current_of_rest hcrossed.rest
  have ht : t.current.isEndOfFile = true := by
    have hblank : (s.relined o.line).current.blank = t.current.blank := by
      have hsame := hcrossed.twins.tokenAt 0
      simp only [tokenAt, relined, hcrossed.rest] at hsame
      simp only [current, tokenAt, relined, hcrossed.rest]
      exact hsame
    rw [current_relined hcrossed.rest] at hblank
    rw [← Token.isEndOfFile_blank, ← hblank]
    exact hnext
  obtain ⟨hrel, hs', ht'⟩ := hidle s t (by rw [hs, hnext]) ht hhonest hsilent
  rw [Passed, hs', ht']
  exact ⟨hrel, .inl hcrossed⟩

/-! ### Loops of items -/

theorem length_there_le : o.there.length ≤ o.here.length := by
  unfold Omission.there Omission.here Omission.remaining
  split <;> simp

/-- Turns of a loop that land go on with values that land, or both are the last. -/
theorem lands_turn {turn turn' : Turn α} {s t : ParserState}
    (hlands : o.Lands bound (Turn.Agrees rel) turn turn' s t) :
    (∃ next next', turn = .again next ∧ turn' = .again next' ∧ o.Lands bound rel next next' s t) ∨
      ∃ last last', turn = .done last ∧ turn' = .done last' ∧ o.Lands bound rel last last' s t := by
  obtain ⟨rfl, hstill⟩ | ⟨hrel, hpast⟩ := hlands
  · cases turn with
    | again next => exact .inl ⟨next, next, rfl, rfl, .inl ⟨rfl, hstill⟩⟩
    | done last => exact .inr ⟨last, last, rfl, rfl, .inl ⟨rfl, hstill⟩⟩
  · cases turn with
    | again next =>
        cases turn' with
        | again next' => exact .inl ⟨next, next', rfl, rfl, .inr ⟨hrel, hpast⟩⟩
        | done _ => cases hrel
    | done last =>
        cases turn' with
        | again _ => cases hrel
        | done last' => exact .inr ⟨last, last', rfl, rfl, .inr ⟨hrel, hpast⟩⟩

section Items

variable {body : α → Parser (Turn α)}
    (hreaches : ∀ v (s : ParserState), s.Reaches (body v s).2)
    (hshrinks : ∀ v s next, s.Ended → (body v s).1 = .again next →
      (body v s).2.rest.length < s.rest.length)
    (hagrees : ∀ v v', rel v v' → Agrees (body v) (body v') (Turn.Agrees rel))
    (hwithin : ∀ v, Mirrored (o.Within 0 bound) (body v) (o.Lands bound (Turn.Agrees rel)))
    (hcrossed : ∀ v v', rel v v' →
      Mirrors o.Crossed (body v) (body v') (Passed o (Turn.Agrees rel)))

include hshrinks hagrees hwithin hcrossed

/-- Turns for the tokens in front of the first run are enough for both. -/
theorem lands_iterateAlong (turns : List Token) (v v' : α) (s t : ParserState) (hhonest : s.Honest)
    (hlands : o.Lands bound rel v v' s t) (hturns : s.rest.length ≤ turns.length)
    (hsilent : (iterateAlong body turns v s).2.Silent) :
    o.Lands bound rel (iterateAlong body turns v s).1 (iterateAlong body turns v' t).1
      (iterateAlong body turns v s).2 (iterateAlong body turns v' t).2 := by
  have hgrows : ∀ v, Grows (body v) := fun v => (hwithin v).1
  induction turns generalizing v v' s t with
  | nil =>
      have hnone : s.rest = [] := List.length_eq_zero_iff.mp (Nat.le_zero.mp hturns)
      obtain ⟨-, coming, -, hfaces⟩ | ⟨hrel, hstill | ⟨hstarts, htwins⟩⟩ := hlands
      · rw [hfaces.rest] at hnone
        simp [Omission.here] at hnone
      · rw [hstill.rest] at hnone
        cases hnone
      · obtain ⟨hlast, hstates⟩ :=
          Agrees.iterateAlong hagrees [] [] v v' rfl hrel o.books s t htwins
        exact .inr ⟨hlast, .inr ⟨hstarts, hstates⟩⟩
  | cons token turns ih =>
      obtain ⟨hhonest', -⟩ := hgrows v s hhonest
      rw [iterateAlong_cons] at hsilent
      have hsilent' : (body v s).2.Silent := by
        have hcontinues : ∀ turn : Turn α, Grows (turn.goOn (iterateAlong body turns)) := by
          rintro (next | last)
          · exact Grows.iterateAlong hgrows turns next
          · exact Grows.pure last
        exact ((hcontinues (body v s).1) _ hhonest').2 hsilent
      have hgoesOn : s.Ended → o.Lands bound (Turn.Agrees rel) (body v s).1 (body v' t).1
          (body v s).2 (body v' t).2 →
          o.Lands bound rel (iterateAlong body (token :: turns) v s).1
            (iterateAlong body (token :: turns) v' t).1
            (iterateAlong body (token :: turns) v s).2
            (iterateAlong body (token :: turns) v' t).2 := by
        intro hended hturn
        rw [iterateAlong_cons, iterateAlong_cons]
        obtain ⟨next, next', hs, ht, hnext⟩ | ⟨last, last', hs, ht, hlast⟩ := lands_turn hturn
        · have hless := hshrinks v s next hended hs
          rw [List.length_cons] at hturns
          rw [hs] at hsilent ⊢
          rw [ht]
          exact ih next next' _ _ hhonest' hnext (by omega) hsilent
        · rw [hs, ht]
          exact hlast
      obtain ⟨rfl, hstill⟩ | ⟨hrel, hstill | ⟨hstarts, htwins⟩⟩ := hlands
      · have hended : s.Ended := by
          obtain ⟨coming, -, hfaces⟩ := hstill
          exact hfaces.ended
        exact hgoesOn hended ((hwithin v).2 s t hhonest hstill hsilent')
      · exact hgoesOn hstill.ended (.inr ((hcrossed v v' hrel).2 s t hhonest hstill hsilent'))
      · obtain ⟨hlast, hstates⟩ := Agrees.iterateAlong hagrees (token :: turns) (token :: turns)
          v v' rfl hrel o.books s t htwins
        exact .inr ⟨hlast, .inr ⟨hstarts, hstates⟩⟩

include hreaches

/-- A loop over items. Its turns keep what relates the runs, and both runs have as many of them. -/
theorem Mirrors.items {v : α} :
    Mirrored (o.Within 0 bound) (Parser.iterate body v) (o.Lands bound rel) := by
  have hgrows : ∀ v, Grows (body v) := fun v => (hwithin v).1
  refine ⟨fun s => Grows.iterateAlong hgrows s.rest v s, fun s t hhonest hstill hsilent => ?_⟩
  obtain ⟨coming, hbound, hfaces⟩ := hstill
  have hended : t.Ended := by
    rw [Ended, hfaces.same]
    exact o.ended
  have hlength : t.rest.length ≤ s.rest.length := by
    rw [hfaces.same, hfaces.rest]
    show (coming ++ o.there).length ≤ (coming ++ o.here).length
    rw [List.length_append, List.length_append]
    exact Nat.add_le_add_left length_there_le _
  have hturns : Parser.iterate body v t = iterateAlong body s.rest v t :=
    iterateAlong_enough hreaches hshrinks t.rest s.rest v t hended (Nat.le_refl _) hlength
  rw [hturns]
  exact lands_iterateAlong hshrinks hagrees hwithin hcrossed s.rest v v s t hhonest
    (.inl ⟨rfl, coming, hbound, hfaces⟩) (Nat.le_refl _) hsilent

end Items

end Parser

end BehaviorTree
