import BehaviorTree.Proofs.Parsing.AlwaysAdvances

/-!
# What lies behind a stop

A parser that has not consumed a certain `;` or brace yet has not looked behind it either: every scan
ahead ends there at the latest. So on two streams that are the same up to such a token a parser does
the same, whatever it does, until the token is consumed. `Nearsighted` is the judgement for it.
-/

namespace BehaviorTree

/-- Whether no scan ahead gets past such a token. -/
def TokenKind.isStop : TokenKind → Bool
  | .punctuation mark => mark == .semi || mark == .lBrace || mark == .rBrace
  | _ => false

/-- Two ways in which a stream goes on behind a `;` or a brace. -/
structure Fork where
  last : Token
  left : List Token
  right : List Token
  /-- What is seen past the end of the tokens on the right. -/
  final : Token
  stops : last.kind.isStop = true
  leftClosed : ∃ token ∈ left, token.isEndOfFile = true
  rightClosed : ∃ token ∈ right, token.isEndOfFile = true
  ended : final.isEndOfFile = true

/-! ### Counting tokens in front of a stop -/

namespace Skip

/-- Where a count ends does not depend on what comes behind the token that it ends in front of. -/
def Near (count : List Token → Nat) : Prop :=
  ∀ (passed : List Token) (next : Token) (more more' : List Token),
    count (passed ++ next :: more) = passed.length → count (passed ++ next :: more') = passed.length

variable {next : Token} {more : List Token}

theorem near_groupRest (pending : List Punctuation) : Near (groupRest pending) := by
  intro passed next more more'
  induction passed generalizing pending with
  | nil =>
      intro hcount
      rw [List.nil_append, groupRest] at hcount ⊢
      split at hcount
      · rename_i hend
        rw [if_pos hend]
        rfl
      · rename_i hgoes
        rw [if_neg hgoes]
        split at hcount
        · cases hcount
        · rfl
  | cons token passed ih =>
      intro hcount
      rw [List.cons_append, groupRest] at hcount ⊢
      split at hcount
      · cases hcount
      · rename_i hgoes
        rw [if_neg hgoes]
        split at hcount
        · exact congrArg (· + 1) (ih _ (Nat.succ.inj hcount))
        · cases hcount

theorem near_group : Near group := by
  intro passed next more more' hcount
  cases passed with
  | nil =>
      rw [List.nil_append, group] at hcount ⊢
      split at hcount
      · cases hcount
      · rfl
  | cons token passed =>
      rw [List.cons_append, group] at hcount ⊢
      split at hcount
      · exact congrArg (· + 1) (near_groupRest _ passed next more more' (Nat.succ.inj hcount))
      · cases hcount

/-- A scan that takes groups as a whole ends where it does because of the token that it ends at. -/
theorem Scan.near {stops : Token → Bool} {count : List Token → Nat} (hscan : Scan stops count) :
    Near count := by
  intro passed next more more'
  induction hlength : passed.length using Nat.strongRecOn generalizing passed with
  | ind length ih =>
      intro hcount
      cases passed with
      | nil =>
          have hstops : stops next = true := by
            cases hstops : stops next with
            | true => rfl
            | false =>
                rw [← hlength, List.nil_append] at hcount
                cases hopens : next.closer?.isSome with
                | true =>
                    have hpositive := Parser.group_pos more hopens
                    rw [hscan.grouped next more hstops hopens, List.length_nil] at hcount
                    omega
                | false =>
                    rw [hscan.passed next more hstops (by simpa using hopens), List.length_nil] at hcount
                    omega
          rw [← hlength]
          exact hscan.stopped next more' hstops
      | cons token passed =>
          have hgoes : stops token = false := by
            cases hstops : stops token with
            | false => rfl
            | true =>
                rw [List.cons_append, hscan.stopped token _ hstops, ← hlength] at hcount
                cases hcount
          rw [List.length_cons] at hlength
          rw [List.cons_append] at hcount ⊢
          cases hopens : token.closer?.isSome with
          | false =>
              have hplain : token.closer? = none := by simpa using hopens
              rw [hscan.passed token _ hgoes hplain] at hcount ⊢
              rw [ih passed.length (by omega) passed rfl (by omega)]
              omega
          | true =>
              rw [hscan.grouped token _ hgoes hopens] at hcount ⊢
              have hpositive := Parser.group_pos (passed ++ next :: more) hopens
              -- The group lies among the passed tokens; what is left of them is shorter.
              generalize hsize : group (token :: (passed ++ next :: more)) = size at hcount hpositive
              let first := (token :: passed).take size
              let later := (token :: passed).drop size
              have hfirst : first.length = size := by
                rw [List.length_take, List.length_cons]
                omega
              have hsplit : ∀ behind, token :: (passed ++ behind) = first ++ (later ++ behind) := by
                intro behind
                rw [← List.append_assoc, List.take_append_drop, List.cons_append]
              have hdrop : ∀ behind, (token :: (passed ++ behind)).drop size = later ++ behind := by
                intro behind
                rw [hsplit, ← hfirst, List.drop_left]
              have hlater : later.length = passed.length + 1 - size := by
                rw [List.length_drop, List.length_cons]
              obtain ⟨head, tail, tail', hhead, hhead'⟩ : ∃ head tail tail',
                  later ++ next :: more = head :: tail ∧ later ++ next :: more' = head :: tail' := by
                cases later with
                | nil => exact ⟨next, more, more', rfl, rfl⟩
                | cons head later => exact ⟨head, _, _, rfl, rfl⟩
              have hgroup : group (token :: (passed ++ next :: more')) = size := by
                rw [hsplit, hhead', ← hfirst]
                refine near_group first head tail tail' ?_
                rw [← hhead, ← hsplit, hsize, hfirst]
              rw [hdrop] at hcount
              rw [hgroup, hdrop, ih later.length (by omega) later rfl (by omega)]
              omega

theorem near_block : Near block := by
  have hin : ∀ depth, Near (blockRest depth) := by
    intro depth passed next more more'
    induction passed generalizing depth with
    | nil =>
        intro hcount
        unfold blockRest at hcount ⊢
        simp only [List.nil_append] at hcount ⊢
        grind
    | cons token passed ih =>
        intro hcount
        unfold blockRest at hcount ⊢
        simp only [List.cons_append] at hcount ⊢
        grind
  exact hin 0

/-- The scan for an assignment ends at a stop. -/
theorem assignmentFollows_stop {stop : Token} (hstop : stop.kind.isStop = true) (depth : Nat)
    (before more more' : List Token) :
    assignmentFollows depth (before ++ stop :: more) =
      assignmentFollows depth (before ++ stop :: more') := by
  have hmark : ∃ mark, stop.kind = .punctuation mark ∧
      (mark = .semi ∨ mark = .lBrace ∨ mark = .rBrace) := by
    cases hkind : stop.kind with
    | punctuation mark => cases mark <;> simp_all [TokenKind.isStop]
    | _ => simp [hkind, TokenKind.isStop] at hstop
  obtain ⟨mark, hkind, hmark⟩ := hmark
  induction before generalizing depth with
  | nil =>
      cases depth with
      | zero =>
          have hopen : stop.isPunctuation .lBracket = false := by
            rcases hmark with rfl | rfl | rfl <;> simp [Token.isPunctuation, hkind]
          simp [assignmentFollows, hopen]
      | succ depth => rcases hmark with rfl | rfl | rfl <;>
          simp [assignmentFollows, Token.isPunctuation, hkind]
  | cons token before ih =>
      cases depth with
      | zero => simp only [List.cons_append, assignmentFollows, ih]
      | succ depth => simp only [List.cons_append, assignmentFollows, ih]

end Skip

namespace ParserState

/-- Some tokens were consumed, perhaps none. -/
structure Onward (s s' : ParserState) : Prop where
  rest : s'.rest <:+ s.rest
  final : s'.final = s.final

variable {s t u : ParserState}

theorem Onward.refl (s : ParserState) : s.Onward s := ⟨List.suffix_refl _, rfl⟩

theorem Onward.trans (h : s.Onward t) (hnext : t.Onward u) : s.Onward u :=
  ⟨hnext.rest.trans h.rest, hnext.final.trans h.final⟩

theorem onward_skip (s : ParserState) (count : Nat) : s.Onward (s.skip count) :=
  ⟨List.drop_suffix _ _, rfl⟩

end ParserState

namespace Fork

open ParserState

variable {k : Fork} {s t : ParserState}

/-- The token that the fork is behind is still to come, on the left. -/
structure Before (k : Fork) (s : ParserState) : Prop where
  ended : s.Ended
  coming : ∃ coming, s.rest = coming ++ k.last :: k.left

/-- The state on the right that corresponds to one on the left. -/
def switch (k : Fork) (s : ParserState) : ParserState :=
  { s with rest := s.rest.take (s.rest.length - k.left.length) ++ k.right, final := k.final }

theorem switch_rest {coming : List Token} (hrest : s.rest = coming ++ k.left) :
    (k.switch s).rest = coming ++ k.right := by
  show s.rest.take (s.rest.length - k.left.length) ++ k.right = _
  rw [hrest, List.length_append, Nat.add_sub_cancel, List.take_left]

theorem switch_before {coming : List Token} (hrest : s.rest = coming ++ k.last :: k.left) :
    (k.switch s).rest = coming ++ k.last :: k.right := by
  have hsplit : s.rest = (coming ++ [k.last]) ++ k.left := by simp [hrest]
  rw [switch_rest hsplit, List.append_assoc, List.singleton_append]

theorem Before.of_onward (h : k.Before t) (honward : s.Onward t) : k.Before s := by
  obtain ⟨coming, hcoming⟩ := h.coming
  obtain ⟨passed, hpassed⟩ := honward.rest
  refine ⟨?_, passed ++ coming, ?_⟩
  · rw [Ended, ← honward.final]
    exact h.ended
  · rw [← hpassed, hcoming, List.append_assoc]

theorem Before.sealed (h : k.Before s) : s.Sealed := by
  obtain ⟨coming, hcoming⟩ := h.coming
  obtain ⟨token, htoken, hend⟩ := k.leftClosed
  exact ⟨h.ended, token, by simp [hcoming, htoken], hend⟩

theorem Before.switch_sealed (h : k.Before s) : (k.switch s).Sealed := by
  obtain ⟨coming, hcoming⟩ := h.coming
  obtain ⟨token, htoken, hend⟩ := k.rightClosed
  exact ⟨k.ended, token, by simp [switch_before hcoming, htoken], hend⟩

theorem Before.current (h : k.Before s) : (k.switch s).current = s.current := by
  obtain ⟨coming, hcoming⟩ := h.coming
  unfold ParserState.current tokenAt
  rw [switch_before hcoming, hcoming]
  cases coming <;> rfl

/-- A token that is no stop is not the last one in front of the fork. -/
theorem Before.coming_of_current (h : k.Before s) (hgoes : s.current.kind.isStop = false) :
    ∃ coming, s.rest = s.current :: (coming ++ k.last :: k.left) := by
  obtain ⟨coming, hcoming⟩ := h.coming
  cases coming with
  | nil =>
      rw [Parser.current_of_rest hcoming, k.stops] at hgoes
      cases hgoes
  | cons token coming =>
      have hcurrent : s.current = token := Parser.current_of_rest hcoming
      exact ⟨coming, by rw [hcoming, hcurrent, List.cons_append]⟩

theorem Before.second (h : k.Before s) (hgoes : s.current.kind.isStop = false) :
    (k.switch s).tokenAt 1 = s.tokenAt 1 := by
  obtain ⟨coming, hcoming⟩ := h.coming_of_current hgoes
  have hswitch : (k.switch s).rest = s.current :: (coming ++ k.last :: k.right) :=
    switch_before (List.cons_append ▸ hcoming)
  unfold tokenAt
  rw [hswitch, hcoming]
  cases coming <;> rfl

theorem Before.assignmentFollows (h : k.Before s) (hgoes : s.current.kind.isStop = false) :
    Skip.assignmentFollows 0 ((k.switch s).rest.drop 1) =
      Skip.assignmentFollows 0 (s.rest.drop 1) := by
  obtain ⟨coming, hcoming⟩ := h.coming_of_current hgoes
  have hswitch : (k.switch s).rest = s.current :: (coming ++ k.last :: k.right) :=
    switch_before (List.cons_append ▸ hcoming)
  rw [hswitch, hcoming, List.drop_one, List.drop_one, List.tail_cons, List.tail_cons]
  exact Skip.assignmentFollows_stop k.stops 0 coming _ _

theorem Before.startsConstruct (h : k.Before s) (inBody : Bool) :
    (k.switch s).startsConstruct inBody = s.startsConstruct inBody := by
  unfold ParserState.startsConstruct
  rw [h.current]
  cases hkind : s.current.kind with
  | identifier =>
      have hgoes : s.current.kind.isStop = false := by rw [hkind]; rfl
      simp only [h.second hgoes, h.assignmentFollows hgoes]
  | punctuation mark => cases mark <;> simp only [hkind]
  | _ => simp only [hkind]

/-- Consuming tokens that are the same on both sides. -/
theorem switch_skip_of {count : Nat} {passed : List Token} (htaken : s.rest.take count = passed)
    (hcount : passed.length = count)
    (hswitch : (k.switch s).rest = passed ++ (k.switch (s.skip count)).rest) :
    (k.switch s).skip count = k.switch (s.skip count) := by
  have hdrop : (k.switch s).rest.drop count = (k.switch (s.skip count)).rest := by
    rw [hswitch, List.drop_left' hcount]
  have htake : (k.switch s).rest.take count = s.rest.take count := by
    rw [hswitch, List.take_left' hcount, htaken]
  unfold ParserState.skip
  rw [hdrop, htake]
  rfl

/-- Consuming tokens in front of the fork. -/
theorem switch_skip {count : Nat} (h : k.Before (s.skip count)) :
    (k.switch s).skip count = k.switch (s.skip count) := by
  obtain ⟨coming, hcoming⟩ := h.coming
  change s.rest.drop count = _ at hcoming
  have hlength : count < s.rest.length := by
    have hsome := congrArg List.length hcoming
    rw [List.length_drop, List.length_append, List.length_cons] at hsome
    omega
  have hrest : s.rest = (s.rest.take count ++ coming) ++ k.last :: k.left := by
    rw [List.append_assoc, ← hcoming, List.take_append_drop]
  have hbehind : (k.switch (s.skip count)).rest = coming ++ k.last :: k.right := switch_before hcoming
  refine switch_skip_of rfl (List.length_take_of_le (Nat.le_of_lt hlength)) ?_
  rw [switch_before hrest, hbehind, List.append_assoc]

end Fork

namespace Parser

open ParserState

variable {α β : Type} {p : Parser α} {f : α → Parser β} {token : Token}

theorem Runs.onward (hp : Runs p) (s : ParserState) : s.Onward (p s).2 := by
  obtain ⟨count, -, hbeside⟩ := (hp s).passed
  refine ⟨?_, hbeside.final⟩
  rw [hbeside.rest]
  exact List.drop_suffix _ _

/-- What the parser does in front of a stop does not depend on what comes behind that. -/
structure Nearsighted (p : Parser α) : Prop where
  onward : ∀ s : ParserState, s.Onward (p s).2
  same : ∀ (k : Fork) (s : ParserState), k.Before (p s).2 → p (k.switch s) = ((p s).1, k.switch (p s).2)

/-- The same from states with a certain token in front. -/
structure NearsightedAt (token : Token) (p : Parser α) : Prop where
  onward : ∀ s : ParserState, s.Onward (p s).2
  same : ∀ (k : Fork) (s : ParserState), s.current = token → k.Before (p s).2 →
    p (k.switch s) = ((p s).1, k.switch (p s).2)

theorem Nearsighted.at (hp : Nearsighted p) (token : Token) : NearsightedAt token p :=
  ⟨hp.onward, fun k s _ => hp.same k s⟩

theorem Nearsighted.pure (a : α) : Nearsighted (Pure.pure a : Parser α) :=
  ⟨Onward.refl, fun _ _ _ => rfl⟩

theorem Nearsighted.bind (hp : Nearsighted p) (hf : ∀ a, Nearsighted (f a)) :
    Nearsighted (p >>= f) where
  onward s := (hp.onward s).trans ((hf (p s).1).onward (p s).2)
  same k s hbefore := by
    show f (p (k.switch s)).1 (p (k.switch s)).2 = _
    rw [hp.same k s (hbefore.of_onward ((hf (p s).1).onward (p s).2))]
    exact (hf (p s).1).same k (p s).2 hbefore

theorem Nearsighted.map {g : α → β} (hp : Nearsighted p) : Nearsighted (g <$> p) :=
  .bind (f := fun a => Pure.pure (g a)) hp fun a => .pure (g a)

/-- What is read off the state and is the same on both sides. -/
theorem Nearsighted.read {g : ParserState → α}
    (hread : ∀ (k : Fork) s, k.Before s → g (k.switch s) = g s) : Nearsighted fun s => (g s, s) :=
  ⟨Onward.refl, fun k s hbefore => by rw [hread k s hbefore]⟩

theorem Nearsighted.peek {f : Token → Parser β} (hf : ∀ token, NearsightedAt token (f token)) :
    Nearsighted (Parser.peek >>= f) where
  onward s := (hf s.current).onward s
  same k s hbefore := by
    show f (k.switch s).current (k.switch s) = _
    rw [(hbefore.of_onward ((hf s.current).onward s)).current]
    exact (hf s.current).same k s rfl hbefore

theorem Nearsighted.atPunctuation (mark : Punctuation) : Nearsighted (atPunctuation mark) :=
  .read (g := fun s => s.current.isPunctuation mark) fun k s hbefore => by rw [hbefore.current]

theorem Nearsighted.atEnd : Nearsighted atEnd :=
  .read (g := fun s => s.current.isEndOfFile) fun k s hbefore => by rw [hbefore.current]

/-- A look at the second token, unless that is not used in front of a stop. -/
theorem NearsightedAt.peekSecond {f : Token → Parser β}
    (hstop : token.kind.isStop = true → ∀ second second', f second = f second')
    (hf : ∀ second, NearsightedAt token (f second)) :
    NearsightedAt token (Parser.peekSecond >>= f) where
  onward s := (hf (s.tokenAt 1)).onward s
  same k s hcurrent hbefore := by
    have hsame : f ((k.switch s).tokenAt 1) = f (s.tokenAt 1) := by
      cases hkind : token.kind.isStop with
      | true => exact hstop hkind _ _
      | false =>
          rw [(hbefore.of_onward ((hf (s.tokenAt 1)).onward s)).second (by rw [hcurrent, hkind])]
    show f ((k.switch s).tokenAt 1) (k.switch s) = _
    rw [hsame]
    exact (hf (s.tokenAt 1)).same k s hcurrent hbefore

/-- The scan for an assignment behind a token that is no stop. -/
theorem NearsightedAt.assignmentFollows {f : Bool → Parser β} (hgoes : token.kind.isStop = false)
    (hf : ∀ follows, Nearsighted (f follows)) :
    NearsightedAt token
      ((fun s => (Skip.assignmentFollows 0 (s.rest.drop 1), s) : Parser Bool) >>= f) where
  onward s := (hf (Skip.assignmentFollows 0 (s.rest.drop 1))).onward s
  same k s hcurrent hbefore := by
    have hrun := hf (Skip.assignmentFollows 0 (s.rest.drop 1))
    have hthere := (hbefore.of_onward (hrun.onward s)).assignmentFollows (by rw [hcurrent, hgoes])
    show f (Skip.assignmentFollows 0 ((k.switch s).rest.drop 1)) (k.switch s) = _
    rw [hthere]
    exact hrun.same k s hbefore

theorem Nearsighted.rangeSince (start : SourceRange) : Nearsighted (rangeSince start) :=
  .read (g := fun s => s.rangeSince start) fun _ _ _ => rfl

theorem Nearsighted.emptyHere : Nearsighted emptyHere :=
  .read (g := fun s => SourceRange.emptyAt s.file s.current.range.start) fun k s hbefore => by
    rw [hbefore.current]
    rfl

/-! ### Making nodes and reports -/

theorem Nearsighted.ofArena (make : Arena → α × Arena) :
    Nearsighted fun s => ((make s.arena).1, { s with arena := (make s.arena).2 }) :=
  ⟨fun _ => ⟨List.suffix_refl _, rfl⟩, fun _ _ _ => rfl⟩

theorem Nearsighted.intern (text : String) : Nearsighted (intern text) :=
  .ofArena fun arena => ((), arena.intern text)

theorem Nearsighted.nameOf (token : Token) : Nearsighted (nameOf token) :=
  .bind (.intern _) fun _ => .pure _

theorem Nearsighted.newExpr (range : SourceRange) (build : Origin → Expr) :
    Nearsighted (newExpr range build) := .ofArena fun arena => arena.addExpr range build

theorem Nearsighted.newType (range : SourceRange) (build : Origin → TypeExpr) :
    Nearsighted (newType range build) := .ofArena fun arena => arena.addType range build

theorem Nearsighted.newStmt (range : SourceRange) (build : Origin → Stmt) :
    Nearsighted (newStmt range build) := .ofArena fun arena => arena.addStmt range build

theorem Nearsighted.newDecl (range : SourceRange) (build : Origin → Decl) :
    Nearsighted (newDecl range build) := .ofArena fun arena => arena.addDecl range build

theorem Nearsighted.widenExpr (expr : Expr) (range : SourceRange) :
    Nearsighted (widenExpr expr range) := .ofArena fun arena => arena.widenExpr expr range

theorem Nearsighted.missingExpr : Nearsighted missingExpr :=
  .bind .emptyHere fun _ => .newExpr _ _

theorem Nearsighted.missingType : Nearsighted missingType :=
  .bind .emptyHere fun _ => .newType _ _

theorem Nearsighted.report (diagnostic : Diagnostic) : Nearsighted (report diagnostic) :=
  ⟨fun _ => ⟨List.suffix_refl _, rfl⟩, fun _ _ _ => rfl⟩

theorem switch_reportOnce (k : Fork) (s : ParserState) (diagnostic : Diagnostic) :
    (k.switch s).reportOnce diagnostic = k.switch (s.reportOnce diagnostic) := by
  unfold ParserState.reportOnce
  by_cases hgate : s.reportedAt = some s.position
  · rw [if_pos hgate, if_pos (show (k.switch s).reportedAt = some (k.switch s).position from hgate)]
  · rw [if_neg hgate, if_neg (show ¬(k.switch s).reportedAt = some (k.switch s).position from hgate)]
    rfl

theorem onward_reportOnce (s : ParserState) (diagnostic : Diagnostic) :
    s.Onward (s.reportOnce diagnostic) := ⟨by simp, by simp⟩

theorem Nearsighted.reportOnce (diagnostic : Diagnostic) : Nearsighted (reportOnce diagnostic) :=
  ⟨fun s => onward_reportOnce s diagnostic,
    fun k s _ => congrArg (Prod.mk ()) (switch_reportOnce k s diagnostic)⟩

theorem Nearsighted.expected (what : String) : Nearsighted (expected what) :=
  .peek fun _ => (Nearsighted.reportOnce _).at _

theorem Nearsighted.expectedWithHelp (what help : String) :
    Nearsighted (expectedWithHelp what help) :=
  .peek fun _ => (Nearsighted.reportOnce _).at _

theorem Nearsighted.missing (what context : String) (insertion : Option String) :
    Nearsighted (missing what context insertion) where
  onward s := by
    unfold Parser.missing
    dsimp only
    split <;> exact onward_reportOnce s _
  same k s hbefore := by
    have hsome : s.Onward (Parser.missing what context insertion s).2 := by
      unfold Parser.missing
      dsimp only
      split <;> exact onward_reportOnce s _
    have hcurrent := (hbefore.of_onward hsome).current
    unfold Parser.missing
    dsimp only
    rw [hcurrent]
    have hposition : (k.switch s).position = s.position := rfl
    rw [hposition]
    split <;> exact congrArg (Prod.mk _) (switch_reportOnce k s _)

/-! ### Consuming tokens -/

theorem Nearsighted.skip {count : List Token → Nat} (hcount : Skip.Near count) :
    Nearsighted (skip count) where
  onward s := s.onward_skip _
  same k s hbefore := by
    have hsame : count (k.switch s).rest = count s.rest := by
      obtain ⟨coming, hcoming⟩ := hbefore.coming
      change s.rest.drop (count s.rest) = _ at hcoming
      generalize hsize : count s.rest = size at hcoming
      have hlength : size < s.rest.length := by
        have hsome := congrArg List.length hcoming
        rw [List.length_drop, List.length_append, List.length_cons] at hsome
        omega
      let passed := s.rest.take size
      have hpassed : passed.length = size := List.length_take_of_le (Nat.le_of_lt hlength)
      have hrest : s.rest = (passed ++ coming) ++ k.last :: k.left := by
        rw [List.append_assoc, ← hcoming, List.take_append_drop]
      obtain ⟨next, more, more', hnext, hnext'⟩ : ∃ next more more',
          coming ++ k.last :: k.left = next :: more ∧ coming ++ k.last :: k.right = next :: more' := by
        cases coming with
        | nil => exact ⟨k.last, _, _, rfl, rfl⟩
        | cons next coming => exact ⟨next, _, _, rfl, rfl⟩
      rw [Fork.switch_before hrest, List.append_assoc, hnext', ← hpassed]
      refine hcount passed next more more' ?_
      rw [← hnext, ← List.append_assoc, ← hrest, hsize, hpassed]
    show ((), (k.switch s).skip (count (k.switch s).rest)) = _
    rw [hsame, Fork.switch_skip hbefore]
    rfl

theorem Nearsighted.synchronize (set : RecoverySet) : Nearsighted (synchronize set) :=
  .skip (Skip.scan_untilStop set).near

theorem Nearsighted.advance : Nearsighted advance where
  onward s := by
    show s.Onward (if s.current.isEndOfFile then s else s.skip 1)
    split
    · exact .refl s
    · exact s.onward_skip 1
  same k s hbefore := by
    change k.Before (if s.current.isEndOfFile then s else s.skip 1) at hbefore
    show ((k.switch s).current,
      if (k.switch s).current.isEndOfFile then k.switch s else (k.switch s).skip 1) =
        (s.current, k.switch (if s.current.isEndOfFile then s else s.skip 1))
    split at hbefore
    · rename_i hend
      rw [hbefore.current, if_pos hend, if_pos hend]
    · rename_i hgoes
      rw [(hbefore.of_onward (s.onward_skip 1)).current, if_neg hgoes, if_neg hgoes,
        Fork.switch_skip hbefore]

theorem Nearsighted.accept (test : Token → Bool) : Nearsighted (accept test) := by
  refine .peek fun token => ?_
  split
  · exact (Nearsighted.bind .advance fun _ => .pure _).at token
  · exact (Nearsighted.pure _).at token

theorem Nearsighted.acceptPunctuation (mark : Punctuation) :
    Nearsighted (acceptPunctuation mark) := .accept _

theorem Nearsighted.acceptOperator (op : Operator) : Nearsighted (acceptOperator op) := .accept _

theorem Nearsighted.expectPunctuation (mark : Punctuation) (context : String) (set : RecoverySet) :
    Nearsighted (expectPunctuation mark context set) := by
  refine .bind (.acceptPunctuation _) fun found => ?_
  split
  · exact .pure _
  · refine .bind (.missing _ _ _) fun recovery => ?_
    cases recovery with
    | insert => exact .pure _
    | skip => exact .bind (.synchronize _) fun _ => .acceptPunctuation _

theorem Nearsighted.expectSemi (context : String) (set : RecoverySet) :
    Nearsighted (expectSemi context set) := by
  refine .bind (.acceptPunctuation _) fun found => ?_
  split
  · exact .pure _
  · refine .bind (.missing _ _ _) fun recovery => ?_
    cases recovery with
    | insert => exact .pure _
    | skip => exact .bind (.synchronize _) fun _ => .bind (.acceptPunctuation _) fun _ => .pure _

theorem Nearsighted.expectOperator (op : Operator) (context : String) (set : RecoverySet) :
    Nearsighted (expectOperator op context set) := by
  refine .bind (.acceptOperator _) fun found => ?_
  split
  · exact .pure _
  · exact .bind (.missing _ _ _) fun _ => .bind (.synchronize _) fun _ => .acceptOperator _

theorem Nearsighted.expectName (what : String) (set : RecoverySet) :
    Nearsighted (expectName what set) := by
  refine .peek fun found => Nearsighted.at ?_ found
  split
  · exact .bind .advance fun _ => .bind (.nameOf _) fun _ => .pure _
  · split
    · refine .bind (.expectedWithHelp _ _) fun _ => ?_
      split
      · exact .bind (.synchronize _) fun _ => .pure _
      · exact .bind .advance fun _ => .bind (.nameOf _) fun _ => .pure _
    · exact .bind (.expected _) fun _ => .bind (.synchronize _) fun _ => .pure _

theorem Nearsighted.listBreaksOff (inBody : Bool) : Nearsighted (listBreaksOff inBody) :=
  .read (g := fun s => s.current.isEndOfFile || s.startsConstruct inBody) fun k s hbefore => by
    rw [hbefore.current, hbefore.startsConstruct]

theorem Nearsighted.unclosedList (context : String) : Nearsighted (unclosedList context) :=
  .bind (.missing _ _ _) fun _ => .pure _

theorem Nearsighted.orStepOver (hp : Nearsighted p) (exempt : Token → Bool) :
    Nearsighted (orStepOver p exempt) := by
  have hrun : ∀ s, Parser.orStepOver p exempt s =
      if (p s).2.position = s.position ∧ !exempt (p s).2.current then
        ((p s).1, (Parser.advance (p s).2).2) else p s := fun _ => rfl
  constructor
  · intro s
    rw [hrun]
    split
    · exact (hp.onward s).trans (Nearsighted.advance.onward _)
    · exact hp.onward s
  · intro k s hbefore
    rw [hrun] at hbefore
    have hbehind : k.Before (p s).2 := by
      split at hbefore
      · exact hbefore.of_onward (Nearsighted.advance.onward _)
      · exact hbefore
    rw [hrun, hrun, hp.same k s hbehind]
    dsimp only
    rw [hbehind.current]
    have hposition : (k.switch (p s).2).position = (p s).2.position := rfl
    have hposition' : (k.switch s).position = s.position := rfl
    rw [hposition, hposition']
    split at hbefore
    · rename_i hstill
      rw [if_pos hstill, if_pos hstill, Nearsighted.advance.same k _ hbefore]
    · rename_i hmoved
      rw [if_neg hmoved, if_neg hmoved]

/-! ### Loops -/

theorem Loop.onward {body : α → Parser (Turn α)} (hbody : ∀ v, Nearsighted (body v)) {v last : α}
    {s s' : ParserState} (hloop : Loop body v s last s') : s.Onward s' := by
  induction hloop with
  | @last v last s _ => exact (hbody v).onward s
  | @turn v next last s s' _ _ ih => exact ((hbody v).onward s).trans ih

/-- A loop whose turns consume tokens goes through the same turns on both sides. -/
theorem Nearsighted.iterate {body : α → Parser (Turn α)} (hdriven : Driven body)
    (hbody : ∀ v, Nearsighted (body v)) (v : α) : Nearsighted (iterate body v) := by
  have honward : ∀ (turns : List Token) v (s : ParserState), s.Onward (iterateAlong body turns v s).2 := by
    intro turns
    induction turns with
    | nil =>
        intro v s
        rw [iterateAlong_nil]
        cases hturn : (body v s).1 <;> exact (hbody v).onward s
    | cons token turns ih =>
        intro v s
        rw [iterateAlong_cons]
        cases hturn : (body v s).1 with
        | again next => exact ((hbody v).onward s).trans (ih next _)
        | done last => exact (hbody v).onward s
  refine ⟨fun s => honward s.rest v s, fun k s hbefore => ?_⟩
  have hfirst : k.Before s := hbefore.of_onward (honward s.rest v s)
  have hloop := Loop.iterate (v := v) hdriven hfirst.sealed
  have hswitched : Loop body v (k.switch s) (Parser.iterate body v s).1
      (k.switch (Parser.iterate body v s).2) := by
    generalize (Parser.iterate body v s).1 = last at hloop
    generalize (Parser.iterate body v s).2 = s' at hloop hbefore
    clear hfirst
    induction hloop with
    | @last v last s hdone =>
        have hturn := (hbody v).same k s hbefore
        have hstate : (body v (k.switch s)).2 = k.switch (body v s).2 := congrArg Prod.snd hturn
        rw [← hstate]
        exact .last ((congrArg Prod.fst hturn).trans hdone)
    | @turn v next last s s' hagain hlater ih =>
        have hturn := (hbody v).same k s (hbefore.of_onward (hlater.onward hbody))
        have hstate : (body v (k.switch s)).2 = k.switch (body v s).2 := congrArg Prod.snd hturn
        refine .turn ((congrArg Prod.fst hturn).trans hagain) ?_
        rw [hstate]
        exact ih hbefore
  obtain ⟨hvalue, hstate⟩ := (Loop.iterate (v := v) hdriven hfirst.switch_sealed).unique hswitched
  exact Prod.ext hvalue hstate

end Parser

end BehaviorTree
