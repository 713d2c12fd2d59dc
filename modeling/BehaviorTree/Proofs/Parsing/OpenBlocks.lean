import BehaviorTree.Proofs.Parsing.ForkedBlocks

/-!
# Blocks that stay open

One stream is the other one without the `}` of some block. There that block goes on and ends with the
brace of the block around it, which then goes on in turn: all the blocks around the missing brace end
one brace later than they should, and the outermost of them is still open behind its last brace.
-/

namespace BehaviorTree

/-- On the right the `}` is missing that comes next on the left. -/
structure Fork.Loses (k : Fork) (brace : Token) (coming : List Token) : Prop where
  left : k.left = brace :: coming
  brace : brace.kind = .punctuation .rBrace
  right : k.right.map Token.blank = coming.map Token.blank

/-- Both runs are in front of the same mark. -/
theorem ParserState.Twins.isPunctuation {books : Books} {s t : ParserState} (h : Twins books s t)
    (mark : Punctuation) : s.current.isPunctuation mark = t.current.isPunctuation mark := by
  rw [← Token.isPunctuation_blank, ← Token.isPunctuation_blank t.current]
  exact congrArg (Token.isPunctuation · mark) (h.tokenAt 0)

namespace Parser

open ParserState

variable {s t u : ParserState} {k : Fork} {brace : Token} {coming : List Token} {stmts : List Stmt}
  {opening opening' : SourceRange}

/-- The run on the left is one token ahead, and nothing is reported. -/
abbrev loneBrace : Books := .ahead [] 1

/-- On the right the block of the state goes on where the one on the left has ended. -/
def StaysOpen (k : Fork) (s : ParserState) : Prop :=
  ∃ stmts u, block (k.switch s) = iterate (blockTurn (statement block) s.current.range) stmts u ∧
    Reached (k.switch s) u ∧ Twins loneBrace (block s).2 u

/-! ### At the missing brace -/

/-- Behind the brace the same comes on both sides. -/
theorem Loses.twins (h : k.Loses brace coming) (hquiet : u.Quiet) (hbegun : 0 < u.position)
    (hrest : u.rest = k.left) (hfinal : u.final.blank = k.final.blank) :
    Twins loneBrace (u.skip 1) (k.switch u) := by
  refine ⟨?_, hfinal, rfl, ⟨Nat.succ_pos _, hbegun⟩, fun _ => hquiet.gate, fun _ => hquiet.silent⟩
  rw [rest_switch hrest, h.right]
  show (u.rest.drop 1).map Token.blank = _
  rw [hrest, h.left]
  rfl

/-- On the left the block ends with the brace. -/
theorem Loses.closes (h : k.Loses brace coming) (hrest : u.rest = k.left) :
    iterate (blockTurn (statement block) opening) stmts u = (stmts, u.skip 1) := by
  have hclosing : u.current.kind = .punctuation .rBrace := by
    rw [current_of_rest (hrest.trans h.left), h.brace]
  have hturn : blockTurn (statement block) opening stmts u = _ := blockTurn_closed hclosing
  rw [iterate_done (congrArg Prod.fst hturn), hturn]

/-! ### In a block -/

/-- However many statements they have, blocks go on the same. -/
theorem Agrees.statements (stmts stmts' : List Stmt) :
    Agrees (Parser.iterate (Parser.blockTurn (Parser.statement Parser.block) opening) stmts)
      (Parser.iterate (Parser.blockTurn (Parser.statement Parser.block) opening') stmts')
        fun _ _ => True :=
  .iterate trivial fun _ _ _ => .blockTurnKeeping (.statement .block) (fun _ _ _ => trivial) trivial

/-- Where the statement with the missing brace ends, the block that it is in goes on. -/
theorem StaysOpen.ofStatement (hbefore : k.Before s) (hthere : k.Before (s.skip 1))
    (hbrace : s.current.kind = .punctuation .lBrace)
    (hmeets : MeetsFork k (blockTurn (statement block) s.current.range) [] (s.skip 1) stmts u)
    (hopen : u.current.isPunctuation .rBrace = false) (hgoes : breaksBlock u.current = false)
    (htwins : Twins loneBrace (block s).2 (statement block (k.switch u)).2) : StaysOpen k s := by
  have hdriven := Driven.statements s.current.range
  have hcurrent := hmeets.before.current
  have hturn : blockTurn (statement block) s.current.range stmts (k.switch u) = _ :=
    blockTurn_goes hmeets.before.switch_sealed (by rw [hcurrent, hopen]) (by rw [hcurrent, hgoes])
  refine ⟨stmts ++ (statement block (k.switch u)).1.toList, (statement block (k.switch u)).2, ?_, ?_,
    htwins⟩
  · rw [block_switch hbefore hbrace, Fork.switch_skip hthere, hmeets.right,
      iterate_eq hdriven hmeets.before.switch_sealed, hturn]
    rfl
  · have hopening : Reached (k.switch s) (k.switch (s.skip 1)) := by
      rw [← Fork.switch_skip hthere]
      exact reached_opening (by rw [hbefore.current, hbrace])
    have hturns := (hmeets.turns.switch (Nearsighted.blockTurn .block _) hmeets.before).reached hdriven
    have hlast := (hdriven stmts (k.switch u)).reached
    rw [hturn] at hlast
    exact (hopening.trans hturns).trans hlast

/-- On the left the block ends behind the statement that the brace comes behind. -/
theorem Loses.ends (h : k.Loses brace coming) (hsealed : u.Sealed)
    (hopen : u.current.isPunctuation .rBrace = false) (hgoes : breaksBlock u.current = false)
    (hrest : (statement block u).2.rest = k.left) :
    (iterate (blockTurn (statement block) opening) stmts u).2 = (statement block u).2.skip 1 := by
  rw [iterate_eq (.statements opening) hsealed, blockTurn_goes hsealed hopen hgoes]
  exact congrArg Prod.snd (Loses.closes h hrest)

/-- A node whose block ends in front of the brace ends there on both sides. -/
theorem Loses.sameStatement {finish : List Stmt → Parser (Option Stmt)} (h : k.Loses brace coming)
    (hends : FinishesStmt finish) (hwithin : Within k (statement block) u finish t)
    (hquiet : (statement block u).2.Quiet) (hrest : (block t).2.rest = k.left)
    (hbegun : 0 < (statement block u).2.position)
    (hfinal : (statement block u).2.final.blank = k.final.blank)
    (hsemi : ((statement block u).2.skip 1).current.isPunctuation .semi = false) :
    statement block (k.switch u) = ((statement block u).1, k.switch (statement block u).2) := by
  have hrest' := hwithin.still.trans hrest
  have hnext : (k.switch (block t).2).current = (k.switch (statement block u).2).current := by
    unfold ParserState.current tokenAt
    rw [rest_switch hrest, rest_switch hrest']
    rfl
  have hsemi' : (k.switch (block t).2).current.isPunctuation .semi = false := by
    rw [hnext]
    exact ((Loses.twins h hquiet hbegun hrest' hfinal).isPunctuation .semi).symm.trans hsemi
  have hleft : statement block u = finish (block t).1 (block t).2 := hwithin.left
  have hright : statement block (k.switch u) = finish (block t).1 (k.switch (block t).2) := by
    rw [hwithin.right]
    show finish (block (k.switch t)).1 (block (k.switch t)).2 = _
    rw [block_exact hwithin.quiet hwithin.behind.silent hwithin.brace hwithin.before hrest]
  rw [hright, hleft]
  rw [hleft] at hquiet
  exact hends.finishes.same k _ _ hwithin.behind hquiet.silent hsemi'

/-- A node whose block stays open ends with the brace of the block that it is in. -/
theorem StaysOpen.behind {finish : List Stmt → Parser (Option Stmt)}
    (hends : FinishesStmt finish) (hwithin : Within k (statement block) u finish t)
    (hquiet : (statement block u).2.Quiet) (hopen : StaysOpen k t)
    (hsemi : (iterate (blockTurn (statement block) opening)
      stmts (statement block u).2).2.current.isPunctuation .semi = false) :
    Twins loneBrace (iterate (blockTurn (statement block) opening) stmts
      (statement block u).2).2 (statement block (k.switch u)).2 := by
  obtain ⟨stmts', y, hrun, -, htwins⟩ := hopen
  have hidle := hends.finishes.idle
  have hleft : statement block u = finish (block t).1 (block t).2 := hwithin.left
  have hnone : (block t).2.current.isPunctuation .semi = false := by
    rw [hleft] at hquiet
    exact hends.no_semi hwithin.behind hquiet.silent
  obtain ⟨arena, hstate⟩ := hidle (block t).1 (block t).2 hnone
  rw [← hleft] at hstate
  have hstart : Twins loneBrace (statement block u).2 y := by
    rw [hstate]
    exact htwins.withArena arena y.arena
  -- The loops of both blocks take the same statements and the same brace.
  obtain ⟨-, hend⟩ := Agrees.statements stmts stmts' loneBrace _ y hstart
  have hright : statement block (k.switch u) =
      finish (block (k.switch t)).1 (block (k.switch t)).2 := hwithin.right
  rw [hrun] at hright
  obtain ⟨arena', hstate'⟩ := hidle _ _ ((hend.isPunctuation .semi).symm.trans hsemi)
  rw [hright, hstate']
  exact hend.withArena _ arena'

/-! ### Blocks in blocks -/

/-- Where a silent block ends is where the block of a statement ends that the fork is right behind, or
the fork is within it. -/
theorem Within.exact_or_lt {p : Parser (Option Stmt)} {finish : List Stmt → Parser (Option Stmt)}
    (hwithin : Within k p u finish t) (hlength : (block t).2.rest.length ≤ k.left.length) :
    (block t).2.rest = k.left ∨ (block t).2.rest.length < k.left.length := by
  rcases Nat.lt_or_ge (block t).2.rest.length k.left.length with hless | hmore
  · exact .inr hless
  · obtain ⟨comes, hcomes⟩ := hwithin.before.coming
    have honward : t.Onward (block t).2 := Runs.onward (.ofRespects fun _ => .block) t
    have hsuffix : k.left <:+ t.rest := ⟨comes ++ [k.last], by rw [hcomes]; simp⟩
    exact .inl ((List.suffix_of_suffix_length_le honward.rest hsuffix hlength).eq_of_length
      (Nat.le_antisymm hlength hmore))

/-- The statement with the missing brace ends where the block around it should, if the block of the
statement stays open where the brace is missing in that. -/
theorem Loses.passes (h : k.Loses brace coming) (hpasses : GetsPast k s u)
    (hinner : ∀ t : ParserState, t.rest.length < s.rest.length → t.Quiet → (block t).2.Silent →
      t.current.kind = .punctuation .lBrace → k.Before t → k.Between t.rest → t.final = s.final →
      (block t).2.rest.length < k.left.length → (block t).2.current.isPunctuation .semi = false →
        StaysOpen k t)
    (hquiet : u.Quiet) (hbefore : k.Before u) (hfinal : u.final.blank = k.final.blank)
    (hpassed : (iterate (blockTurn (statement block) opening) stmts u).2.rest.length < k.left.length)
    (hsemi : (iterate (blockTurn (statement block) opening) stmts u).2.current.isPunctuation .semi =
      false) :
    u.current.isPunctuation .rBrace = false ∧ breaksBlock u.current = false ∧
      Twins loneBrace (iterate (blockTurn (statement block) opening) stmts u).2
        (statement block (k.switch u)).2 := by
  have hreached := (Driven.statements opening stmts u).reached
  have hend : (blockTurn (statement block) opening stmts u).2.final.blank = k.final.blank := by
    rw [((Nearsighted.blockTurn .block opening stmts).onward u).final, hfinal]
  cases hpasses with
  | closed hclosing =>
      have hturn : blockTurn (statement block) opening stmts u = _ := blockTurn_closed hclosing
      rw [iterate_done (congrArg Prod.fst hturn), hturn] at hpassed
      exact absurd hpassed (by
        rw [hbefore.skip_one (Nat.le_of_lt hpassed)]
        exact Nat.lt_irrefl _)
  | behind hopen hgoes hrest hbehind hsame =>
      rw [blockTurn_goes hquiet.sealed hopen hgoes] at hend hreached
      refine ⟨hopen, hgoes, ?_⟩
      rw [Loses.ends h hquiet.sealed hopen hgoes hrest, hsame]
      exact Loses.twins h hbehind (hbefore.begun hreached hrest) hrest hend
  | @within finish t hopen hgoes hends hwithin hbehind hlength hshorter hfinal' =>
      rw [blockTurn_goes hquiet.sealed hopen hgoes] at hend hreached
      refine ⟨hopen, hgoes, ?_⟩
      rcases hwithin.exact_or_lt hlength with hrest | hless
      · have hrest' := hwithin.still.trans hrest
        have hbegun := hbefore.begun hreached hrest'
        rw [Loses.ends h hquiet.sealed hopen hgoes hrest'] at hsemi ⊢
        rw [Loses.sameStatement h hends hwithin hbehind hrest hbegun hend hsemi]
        exact Loses.twins h hbehind hbegun hrest' hend
      · have hgoesOn : iterate (blockTurn (statement block) opening) stmts u =
            iterate (blockTurn (statement block) opening)
              (stmts ++ (statement block u).1.toList) (statement block u).2 := by
          rw [iterate_eq (.statements opening) hquiet.sealed,
            blockTurn_goes hquiet.sealed hopen hgoes]
          rfl
        rw [hgoesOn] at hsemi ⊢
        refine StaysOpen.behind hends hwithin hbehind ?_ hsemi
        refine hinner t hshorter hwithin.quiet hwithin.behind.silent hwithin.brace hwithin.before
          hwithin.between hfinal' hless ?_
        have hfinish : statement block u = finish (block t).1 (block t).2 := hwithin.left
        rw [hfinish] at hbehind
        exact hends.no_semi hwithin.behind hbehind.silent

/-- A block stays open if the blocks inside do. -/
theorem StaysOpen.blockAround (h : k.Loses brace coming)
    (hinner : ∀ t : ParserState, t.rest.length < s.rest.length → t.Quiet → (block t).2.Silent →
      t.current.kind = .punctuation .lBrace → k.Before t → k.Between t.rest → t.final = s.final →
      (block t).2.rest.length < k.left.length → (block t).2.current.isPunctuation .semi = false →
        StaysOpen k t)
    (hquiet : s.Quiet) (hsilent : (block s).2.Silent)
    (hbrace : s.current.kind = .punctuation .lBrace) (hbefore : k.Before s)
    (hbetween : k.Between s.rest) (hfinal : s.final.blank = k.final.blank)
    (hpassed : (block s).2.rest.length < k.left.length)
    (hsemi : (block s).2.current.isPunctuation .semi = false) : StaysOpen k s := by
  have hleft := block_loop hquiet.sealed.ended hbrace
  rcases Nat.lt_or_ge k.left.length (s.skip 1).rest.length with hinside | hhere
  · obtain ⟨stmts, u, hmeets, hpasses⟩ :=
      MeetsFork.getsPast hquiet hsilent hbrace hbefore hbetween hinside (Nat.le_of_lt hpassed)
    have hend : u.final.blank = k.final.blank := by
      rw [(hmeets.turns.onward (Nearsighted.blockTurn .block _)).final]
      exact hfinal
    rw [hmeets.left] at hleft
    rw [hleft] at hpassed hsemi
    obtain ⟨hopen, hgoes, htwins⟩ :=
      Loses.passes h hpasses hinner hmeets.quiet hmeets.before hend hpassed hsemi
    exact .ofStatement hbefore (hbefore.behind (s.onward_skip 1) hinside) hbrace hmeets hopen hgoes
      (hleft ▸ htwins)
  · -- The brace closes an empty block.
    have hrest := hbefore.skip_one hhere
    have hskip := hbefore.switch_skip hrest
    have hadvance : Reached (k.switch s) ((k.switch s).skip 1) :=
      reached_opening (by rw [hbefore.current, hbrace])
    refine ⟨[], (k.switch s).skip 1, block_switch hbefore hbrace, hadvance, ?_⟩
    rw [hleft, Loses.closes h hrest, hskip]
    exact Loses.twins h ((reached_opening hbrace).quiet hquiet hquiet.silent) (Nat.succ_pos _) hrest
      hfinal

/-- **A block stays open.** Without one of the braces in it, or its own, a block goes on behind what
used to be its end. -/
theorem StaysOpen.block (h : k.Loses brace coming) (hquiet : s.Quiet)
    (hsilent : (Parser.block s).2.Silent) (hbrace : s.current.kind = .punctuation .lBrace)
    (hbefore : k.Before s) (hbetween : k.Between s.rest) (hfinal : s.final.blank = k.final.blank)
    (hpassed : (Parser.block s).2.rest.length < k.left.length)
    (hsemi : (Parser.block s).2.current.isPunctuation .semi = false) : StaysOpen k s := by
  induction hlength : s.rest.length using Nat.strongRecOn generalizing s with
  | ind length ih =>
      refine .blockAround h (fun t hshorter hquiet hsilent hbrace hbefore hbetween hsame hpassed hsemi =>
        ?_) hquiet hsilent hbrace hbefore hbetween hfinal hpassed hsemi
      exact ih t.rest.length (by omega) hquiet hsilent hbrace hbefore hbetween (hsame ▸ hfinal) hpassed
        hsemi rfl

theorem not_mark_of_breaksBlock {token : Token} (hbreaks : breaksBlock token = true) (mark : Punctuation) :
    token.isPunctuation mark = false := by
  cases hkind : token.kind <;> simp_all [breaksBlock, Token.isEndOfFile, Token.isOpenerWord,
    Token.keyword?, TokenKind.keyword?, Token.isPunctuation]

/-- In front of a token that no block goes on at, an open block reports that its brace is missing. -/
theorem StaysOpen.reports {found : Token} {behind : List Token} (h : StaysOpen k s) (hquiet : s.Quiet)
    (hbefore : k.Before s) (hbehind : (Parser.block s).2.Quiet) (hfound : found :: behind <:+ k.right)
    (hlength : (Parser.block s).2.rest.length = (found :: behind).length)
    (hbreaks : breaksBlock found = true) :
    ∃ stmts u, Parser.block (k.switch s) = (stmts, u) ∧
      Twins (.ahead [SyntaxReport.unclosedBlock found s.current.range] 1) (Parser.block s).2 u := by
  obtain ⟨stmts, u, hrun, hreached, htwins⟩ := h
  have hthere : u.Quiet := hreached.quiet (quiet_switch hquiet hbefore.switch_sealed)
    (htwins.related.2.reported hbehind.silent)
  have hrest : u.rest = found :: behind := by
    obtain ⟨comes, hcomes⟩ := hbefore.coming
    obtain ⟨count, -, hbeside⟩ := hreached.passed
    have hsuffix : u.rest <:+ (k.switch s).rest := by
      rw [hbeside.rest]
      exact List.drop_suffix _ _
    have hright : found :: behind <:+ (k.switch s).rest := by
      rw [Fork.switch_before hcomes]
      exact (hfound.trans (List.suffix_cons _ _)).trans (List.suffix_append _ _)
    have hsame := htwins.length_eq.symm.trans hlength
    exact (List.suffix_of_suffix_length_le hsuffix hright (Nat.le_of_eq hsame)).eq_of_length hsame
  have hcurrent : u.current = found := current_of_rest hrest
  have hopen : u.current.isPunctuation .rBrace = false := by
    rw [hcurrent, not_mark_of_breaksBlock hbreaks]
  have hturn : blockTurn (statement Parser.block) s.current.range stmts u = _ :=
    blockTurn_broken hopen (hcurrent ▸ hbreaks)
  rw [hcurrent] at hturn
  refine ⟨stmts, u.reportOnce (SyntaxReport.unclosedBlock found s.current.range), ?_, ?_⟩
  · rw [hrun, iterate_done (congrArg Prod.fst hturn), hturn]
  · rw [ParserState.reportOnce, if_neg (by simp [hthere.gate])]
    refine ⟨htwins.rest, htwins.final, htwins.related.1, htwins.related.2.begun, fun _ => hbehind.gate,
      fun _ => ?_⟩
    show u.diagnostics ++ [_] = _
    rw [show u.diagnostics = [] from hthere.silent]
    rfl

end Parser

end BehaviorTree
