import BehaviorTree.Proofs.Parsing.ItemEnds

/-!
# Braces

Tokens with balanced braces, and those of the statements of a block among them. A scan that counts
braces gets to the end of such tokens, so a brace determines the one that closes it.
-/

namespace BehaviorTree

/-! ## Loops across a fork

A loop of items goes through its turns, and one of them consumes the token that a fork is behind. Up
to that turn the loop does the same on both sides. Where the token ends an item or belongs to a block,
the item that the turn parses ends there too, or the fork lies within its block.
-/

section Passing

theorem Token.balanced_append {before later : List Token}
    (hbefore : openings before = closings before) :
    openings (before ++ later) = closings (before ++ later) ↔ openings later = closings later := by
  simp only [openings, closings, total_append] at hbefore ⊢
  omega

theorem Token.balanced_cons {token : Token} {tokens : List Token}
    (hflat : token.kind.opening = token.kind.closing) :
    openings (token :: tokens) = closings (token :: tokens) ↔ openings tokens = closings tokens := by
  simp only [openings, closings, total_cons, hflat]
  omega

namespace Fork

variable {k : Fork} {tokens behind : List Token} {next semi : Token}

/-- Behind these tokens the fork does not part an array from its length: if there is a `;` in front
of it, that comes inside no square brackets or a `}` comes next. -/
def Parts (k : Fork) (coming : List Token) : Prop :=
  k.last.kind = .punctuation .semi →
    (∃ brace ∈ k.left.head?, brace.kind = .punctuation .rBrace) ∨
      Token.openings coming = Token.closings coming

/-- The token that the fork is behind is to come, and it ends an item or belongs to a block. -/
def Between (k : Fork) (tokens : List Token) : Prop :=
  ∃ coming, tokens = coming ++ k.last :: k.left ∧ k.Parts coming

theorem Between.past (h : k.Between (tokens ++ behind))
    (hbalanced : Token.openings tokens = Token.closings tokens)
    (hlength : k.left.length < behind.length) : k.Between behind := by
  obtain ⟨coming, hcoming, hparts⟩ := h
  have hleft : k.last :: k.left <:+ tokens ++ behind := ⟨coming, hcoming.symm⟩
  obtain ⟨coming', hcoming'⟩ :=
    List.suffix_of_suffix_length_le hleft (List.suffix_append tokens behind) hlength
  rw [← hcoming', ← List.append_assoc] at hcoming
  obtain rfl := List.append_cancel_right hcoming
  exact ⟨coming', hcoming'.symm, fun hsemi => (hparts hsemi).imp_right (Token.balanced_append hbalanced).mp⟩

theorem Between.step {token : Token} (h : k.Between (token :: behind))
    (hgoes : token.kind.isStop = false) (hflat : token.kind.opening = token.kind.closing) :
    k.Between behind := by
  obtain ⟨coming, hcoming, hparts⟩ := h
  cases coming with
  | nil =>
      obtain ⟨rfl, -⟩ := List.cons.inj hcoming
      rw [k.stops] at hgoes
      cases hgoes
  | cons first coming =>
      obtain ⟨rfl, hrest⟩ := List.cons.inj hcoming
      exact ⟨coming, hrest, fun hsemi => (hparts hsemi).imp_right (Token.balanced_cons hflat).mp⟩

/-- The fork is not among the tokens of a term. -/
theorem Between.length_lt (h : k.Between (tokens ++ next :: behind)) (hwalk : Enclosed tokens)
    (hnext : next.kind ≠ .punctuation .rBrace) : k.left.length < (next :: behind).length := by
  obtain ⟨coming, hcoming, hparts⟩ := h
  refine Nat.lt_of_not_le fun hlength => ?_
  have hleft : k.left <:+ tokens ++ next :: behind := ⟨coming ++ [k.last], by rw [hcoming]; simp⟩
  obtain ⟨more, hmore⟩ :=
    List.suffix_of_suffix_length_le (List.suffix_append tokens (next :: behind)) hleft hlength
  rw [← hmore, ← List.cons_append, ← List.append_assoc] at hcoming
  obtain rfl := List.append_cancel_right hcoming
  have hsemi : k.last.kind = .punctuation .semi := by
    have hmem : k.last ∈ coming ++ k.last :: more := by simp
    have hbrace := hwalk.not_brace hmem
    have hstops := k.stops
    cases hkind : k.last.kind with
    | punctuation mark => cases mark <;> simp_all [TokenKind.isStop]
    | _ => simp [hkind, TokenKind.isStop] at hstops
  rcases hparts hsemi with ⟨brace, hhead, hbrace⟩ | hbalanced
  · rw [← hmore] at hhead
    cases more with
    | nil =>
        obtain rfl := Option.some.inj hhead
        exact hnext hbrace
    | cons token more =>
        obtain rfl := Option.some.inj hhead
        exact (hwalk.not_brace (by simp)).2 hbrace
  · exact hwalk.open_of_semi hsemi hbalanced

/-- In front of an item that ends with a `;` the fork is right behind that or behind the item. -/
theorem Between.item (h : k.Between (tokens ++ semi :: behind)) (hwalk : Enclosed tokens)
    (hsemi : semi.kind = .punctuation .semi) : behind = k.left ∨ k.Between behind := by
  have hlength := h.length_lt hwalk (by simp [hsemi])
  rw [List.length_cons] at hlength
  have hsplit : tokens ++ semi :: behind = (tokens ++ [semi]) ++ behind := by simp
  rw [hsplit] at h
  rcases Nat.lt_or_ge k.left.length behind.length with hmore | hless
  · refine .inr (h.past ?_ hmore)
    rw [Token.balanced_append hwalk.balanced, Token.balanced_cons (by rw [hsemi]; rfl)]
    rfl
  · obtain ⟨coming, hcoming, -⟩ := h
    have hleft : k.left <:+ (tokens ++ [semi]) ++ behind := ⟨coming ++ [k.last], by rw [hcoming]; simp⟩
    exact .inl ((List.suffix_of_suffix_length_le (List.suffix_append _ behind) hleft hless).eq_of_length
      (by omega))

end Fork

namespace Parser

open ParserState

variable {α : Type} {body : α → Parser (Turn α)} {p : Parser α} {v w last : α}
  {s t u s' : ParserState} {k : Fork} {finish : List Stmt → Parser α}

/-! ### The turns of a loop -/

/-- Turns of a loop that ask for more lead from a value and a state to others. -/
inductive Turns (body : α → Parser (Turn α)) : α → ParserState → α → ParserState → Prop
  | nothing (v : α) (s : ParserState) : Turns body v s v s
  | again {v next w : α} {s u : ParserState} :
      (body v s).1 = .again next → Turns body next (body v s).2 w u → Turns body v s w u

theorem Turns.reached (hdriven : Driven body) (h : Turns body v s w u) : Reached s u := by
  induction h with
  | nothing v s => exact .refl s
  | @again v _ _ s _ _ _ ih => exact (hdriven v s).reached.trans ih

/-- Behind some of its turns a loop goes on as from there. -/
theorem Turns.iterate (hdriven : Driven body) (h : Turns body v s w u) (hsealed : s.Sealed) :
    iterate body v s = iterate body w u := by
  induction h with
  | nothing v s => rfl
  | @again v _ _ s _ hagain _ ih =>
      rw [iterate_eq hdriven hsealed, hagain]
      exact ih ((hdriven v s).reached.sealed hsealed)

theorem Turns.onward (hbody : ∀ v, Nearsighted (body v)) (h : Turns body v s w u) : s.Onward u := by
  induction h with
  | nothing v s => exact .refl s
  | @again v _ _ s _ _ _ ih => exact ((hbody v).onward s).trans ih

/-- In front of a stop the turns are the same on both sides. -/
theorem Turns.switch (hbody : ∀ v, Nearsighted (body v)) (h : Turns body v s w u)
    (hbefore : k.Before u) : Turns body v (k.switch s) w (k.switch u) := by
  induction h with
  | nothing v s => exact .nothing v _
  | @again v next _ s _ hagain hlater ih =>
      have hturn := (hbody v).same k s (hbefore.of_onward (hlater.onward hbody))
      refine .again ((congrArg Prod.fst hturn).trans hagain) ?_
      rw [show (body v (k.switch s)).2 = k.switch (body v s).2 from congrArg Prod.snd hturn]
      exact ih hbefore

theorem Loop.reached (hdriven : Driven body) (h : Loop body v s last s') : Reached s s' := by
  induction h with
  | @last v _ s _ => exact (hdriven v s).reached
  | @turn v _ _ s _ _ _ ih => exact (hdriven v s).reached.trans ih

/-- What a loop does behind its first turn. -/
theorem Loop.behind (hdriven : Driven body) (h : Loop body v s last s') : Reached (body v s).2 s' := by
  cases h with
  | last _ => exact .refl _
  | turn _ hlater => exact hlater.reached hdriven

/-- The last turn of a loop comes behind others. -/
theorem Loop.turns (h : Loop body v s last s') :
    ∃ w u, Turns body v s w u ∧ (body w u).1 = .done last ∧ (body w u).2 = s' := by
  induction h with
  | @last v last s hdone => exact ⟨v, s, .nothing v s, hdone, rfl⟩
  | turn hagain _ ih =>
      obtain ⟨w, u, hturns, hdone, hstate⟩ := ih
      exact ⟨w, u, .again hagain hturns, hdone, hstate⟩

/-- What a loop consumes it consumes in one of its turns. -/
theorem Loop.passing (target : List Token) (hbody : ∀ v, Nearsighted (body v))
    (hloop : Loop body v s last s') (htarget : target <:+ s.rest)
    (hlength : s'.rest.length < target.length) :
    ∃ w u, Turns body v s w u ∧ Loop body w u last s' ∧ target <:+ u.rest ∧
      (body w u).2.rest.length < target.length := by
  induction hloop with
  | @last v last s hdone => exact ⟨v, s, .nothing v s, .last hdone, htarget, hlength⟩
  | @turn v next last s s' hagain hlater ih =>
      rcases Nat.lt_or_ge (body v s).2.rest.length target.length with hless | hmore
      · exact ⟨v, s, .nothing v s, .turn hagain hlater, htarget, hless⟩
      · have hbehind := List.suffix_of_suffix_length_le htarget ((hbody v).onward s).rest hmore
        obtain ⟨w, u, hturns, hloop, hu, hturn⟩ := ih hbehind hlength
        exact ⟨w, u, .again hagain hturns, hloop, hu, hturn⟩

/-! ### Items across a fork -/

/-- An item that ends with a `;` is the same on both sides up to the fork. -/
theorem Closing.crossing {a : α} (h : Closing p s a s') (hbefore : k.Before s)
    (hbetween : k.Between s.rest) :
    s'.rest = k.left ∧ p (k.switch s) = (a, k.switch s') ∨ k.Between s'.rest := by
  obtain ⟨tokens, semi, made, hstretch, hwalk, hsemi⟩ := h.item
  have hrest : s.rest = tokens ++ semi :: s'.rest := by rw [hstretch.rest]; simp
  rw [hrest] at hbetween
  exact (hbetween.item hwalk hsemi).imp (fun hleft => ⟨hleft, h.same k hbefore hleft⟩) id

/-- Where a silent run gets in front of a block, nothing was reported before. -/
theorem Opening.quiet {tokens : List Token} {made : List Stamp} (h : Opening p s t finish)
    (hstretch : Stretch s tokens made t) (hquiet : s.Quiet) (hsilent : (p s).2.Silent)
    (hfinish : ∀ stmts, Grows (finish stmts)) : t.Quiet := by
  have hhonest : t.Honest := fun hsilent => h.guarded.gate hsilent.errorless
  have hblock := Agrees.block.grows t hhonest
  have hsilent' : t.Silent := by
    rw [h.run] at hsilent
    exact hblock.2 ((hfinish _ _ hblock.1).2 hsilent)
  refine ⟨⟨h.guarded.final, ?_⟩, hsilent', hhonest hsilent'⟩
  obtain ⟨token, htoken, hend⟩ := hquiet.sealed.closed
  rw [hstretch.rest] at htoken
  rcases List.mem_append.mp htoken with hpassed | hcoming
  · rw [hstretch.inside token hpassed] at hend
    cases hend
  · exact ⟨token, hcoming, hend⟩

theorem Opening.rest_eq (h : Opening p s t finish) : t.rest = t.current :: (t.skip 1).rest :=
  h.guarded.rest_eq (by simp [Token.isEndOfFile, h.brace])

end Parser

end Passing

/-! ## Balanced braces -/

/-- Tokens among which the braces are balanced. -/
inductive Braced : List Token → Prop
  | nil : Braced []
  | plain {token : Token} {tokens : List Token} :
      token.kind ≠ .punctuation .lBrace → token.kind ≠ .punctuation .rBrace →
        token.kind ≠ .endOfFile → Braced tokens → Braced (token :: tokens)
  | group {opening closing : Token} {inner later : List Token} :
      opening.kind = .punctuation .lBrace → Braced inner → closing.kind = .punctuation .rBrace →
        Braced later → Braced (opening :: (inner ++ closing :: later))

/-- The tokens of the statements of a block: each statement ends with a `;` or with a block. -/
inductive Items : List Token → Prop
  | nil : Items []
  | closed {tokens later : List Token} {semi : Token} :
      Enclosed tokens → semi.kind = .punctuation .semi → Items later →
        Items (tokens ++ semi :: later)
  | nested {tokens inner later : List Token} {opening closing : Token} :
      Enclosed tokens → opening.kind = .punctuation .lBrace → Items inner →
        closing.kind = .punctuation .rBrace → Items later →
        Items (tokens ++ opening :: (inner ++ closing :: later))

namespace Skip

variable {token opening closing : Token} {tokens inner rest : List Token}

theorem blockRest_plain (hopens : token.kind ≠ .punctuation .lBrace)
    (hcloses : token.kind ≠ .punctuation .rBrace) (hgoes : token.kind ≠ .endOfFile) (depth : Nat)
    (rest : List Token) : blockRest depth (token :: rest) = blockRest depth rest + 1 := by
  rw [blockRest.eq_def]
  simp [Token.isEndOfFile, Token.isPunctuation, hopens, hcloses, hgoes]

theorem blockRest_opening (hopening : opening.kind = .punctuation .lBrace) (depth : Nat)
    (rest : List Token) : blockRest depth (opening :: rest) = blockRest (depth + 1) rest + 1 := by
  rw [blockRest.eq_def]
  simp [Token.isEndOfFile, Token.isPunctuation, hopening]

theorem blockRest_closing (hclosing : closing.kind = .punctuation .rBrace) (depth : Nat)
    (rest : List Token) :
    blockRest (depth + 2) (closing :: rest) = blockRest (depth + 1) rest + 1 := by
  rw [blockRest.eq_def]
  simp [Token.isEndOfFile, Token.isPunctuation, hclosing]

theorem blockRest_last (hclosing : closing.kind = .punctuation .rBrace) (rest : List Token) :
    blockRest 1 (closing :: rest) = 1 := by
  rw [blockRest.eq_def]
  simp [Token.isEndOfFile, Token.isPunctuation, hclosing]

/-- Balanced tokens do not end the block that they are in. -/
theorem blockRest_braced (h : Braced tokens) (depth : Nat) (rest : List Token) :
    blockRest (depth + 1) (tokens ++ rest) = tokens.length + blockRest (depth + 1) rest := by
  induction h generalizing depth rest with
  | nil => simp
  | plain hopens hcloses hgoes _ ih =>
      rw [List.cons_append, blockRest_plain hopens hcloses hgoes, ih, List.length_cons]
      omega
  | group hopening _ hclosing _ ihinner ihlater =>
      rw [List.cons_append, List.append_assoc, List.cons_append, blockRest_opening hopening, ihinner,
        blockRest_closing hclosing, ihlater]
      simp only [List.length_cons, List.length_append]
      omega

/-- A group of braces is skipped as a whole. -/
theorem block_braced (hopening : opening.kind = .punctuation .lBrace) (hinner : Braced inner)
    (hclosing : closing.kind = .punctuation .rBrace) (rest : List Token) :
    block (opening :: (inner ++ closing :: rest)) = inner.length + 2 := by
  rw [block, blockRest_opening hopening, blockRest_braced hinner, blockRest_last hclosing]

end Skip

/-- Balanced tokens in front of a `}` are determined by the stream. -/
theorem Braced.unique {inner inner' later later' : List Token} {closing closing' : Token}
    (h : Braced inner) (h' : Braced inner') (hclosing : closing.kind = .punctuation .rBrace)
    (hclosing' : closing'.kind = .punctuation .rBrace)
    (heq : inner ++ closing :: later = inner' ++ closing' :: later') :
    inner = inner' ∧ closing = closing' ∧ later = later' := by
  have hcount := congrArg (Skip.blockRest 1) heq
  rw [Skip.blockRest_braced h 0, Skip.blockRest_braced h' 0, Skip.blockRest_last hclosing,
    Skip.blockRest_last hclosing'] at hcount
  obtain ⟨hinner, hlater⟩ := List.append_inj heq (by omega)
  exact ⟨hinner, List.cons.inj hlater⟩

theorem Braced.append {before later : List Token} (h : Braced before) (hlater : Braced later) :
    Braced (before ++ later) := by
  induction h with
  | nil => exact hlater
  | plain hopens hcloses hgoes _ ih => exact .plain hopens hcloses hgoes ih
  | group hopening hinner hclosing _ _ ih =>
      rw [List.cons_append, List.append_assoc, List.cons_append]
      exact .group hopening hinner hclosing ih

theorem Enclosed.braced {tokens : List Token} (h : Enclosed tokens) : Braced tokens := by
  have hall : ∀ token ∈ tokens, token.kind ≠ .punctuation .lBrace ∧
      token.kind ≠ .punctuation .rBrace ∧ token.kind ≠ .endOfFile := by
    intro token hmem
    refine ⟨(h.not_brace hmem).1, (h.not_brace hmem).2, fun hkind => ?_⟩
    obtain ⟨level, hfits⟩ := h.fits_of_mem hmem
    rw [hkind] at hfits
    cases hfits
  clear h
  induction tokens with
  | nil => exact .nil
  | cons token tokens ih =>
      obtain ⟨hopens, hcloses, hgoes⟩ := hall token (by simp)
      exact .plain hopens hcloses hgoes (ih fun token hmem => hall token (List.mem_cons_of_mem _ hmem))

/-- Every `}` among the tokens, which come behind another one, is right behind a `;` or a brace. -/
def BehindStop : Token → List Token → Prop
  | _, [] => True
  | previous, token :: tokens =>
    (token.kind = .punctuation .rBrace → previous.kind.isStop = true) ∧ BehindStop token tokens

/-- The last of the tokens, or the one that they come behind. -/
def lastBehind (previous : Token) (tokens : List Token) : Token := tokens.getLast?.getD previous

theorem lastBehind_cons (previous token : Token) (tokens : List Token) :
    lastBehind previous (token :: tokens) = lastBehind token tokens := by
  simp [lastBehind, List.getLast?_cons]

theorem lastBehind_append_cons (previous token : Token) (tokens later : List Token) :
    lastBehind previous (tokens ++ token :: later) = lastBehind token later := by
  simp [lastBehind, List.getLast?_append, List.getLast?_cons]

theorem behindStop_append (previous : Token) (before later : List Token) :
    BehindStop previous (before ++ later) ↔
      BehindStop previous before ∧ BehindStop (lastBehind previous before) later := by
  induction before generalizing previous with
  | nil => simp [BehindStop, lastBehind]
  | cons token before ih =>
      rw [List.cons_append, BehindStop, BehindStop, ih, lastBehind_cons, and_assoc]

theorem BehindStop.of_plain {tokens : List Token} (previous : Token)
    (hplain : ∀ token ∈ tokens, token.kind ≠ .punctuation .rBrace) : BehindStop previous tokens := by
  induction tokens generalizing previous with
  | nil => trivial
  | cons token tokens ih =>
      exact ⟨fun hbrace => absurd hbrace (hplain token (by simp)),
        ih token fun token hmem => hplain token (List.mem_cons_of_mem _ hmem)⟩

namespace Items

variable {tokens : List Token}

theorem braced (h : Items tokens) : Braced tokens := by
  induction h with
  | nil => exact .nil
  | closed hwalk hsemi _ ih =>
      exact hwalk.braced.append (.plain (by simp [hsemi]) (by simp [hsemi]) (by simp [hsemi]) ih)
  | nested hwalk hopening _ hclosing _ ihinner ihlater =>
      exact hwalk.braced.append (.group hopening ihinner hclosing ihlater)

/-- In the statements of a block all square brackets are closed. -/
theorem balanced (h : Items tokens) : Token.openings tokens = Token.closings tokens := by
  induction h with
  | nil => rfl
  | closed hwalk hsemi _ ih =>
      rw [Token.balanced_append hwalk.balanced, Token.balanced_cons (by rw [hsemi]; rfl), ih]
  | nested hwalk hopening _ hclosing _ ihinner ihlater =>
      rw [Token.balanced_append hwalk.balanced, Token.balanced_cons (by rw [hopening]; rfl),
        Token.balanced_append ihinner, Token.balanced_cons (by rw [hclosing]; rfl), ihlater]

/-- There are no trees in a block. -/
theorem not_tree (h : Items tokens) : ∀ token ∈ tokens, token.kind ≠ .keyword .treeWord := by
  induction h with
  | nil => simp
  | closed hwalk hsemi _ ih =>
      intro token hmem
      rcases List.mem_append.mp hmem with hterm | hmem
      · exact hwalk.not_tree hterm
      · rcases List.mem_cons.mp hmem with rfl | hlater
        · simp [hsemi]
        · exact ih token hlater
  | nested hwalk hopening _ hclosing _ ihinner ihlater =>
      intro token hmem
      simp only [List.mem_append, List.mem_cons] at hmem
      rcases hmem with hterm | rfl | hinner | rfl | hlater
      · exact hwalk.not_tree hterm
      · simp [hopening]
      · exact ihinner token hinner
      · simp [hclosing]
      · exact ihlater token hlater

/-- Behind a `;` or a brace every `}` among the statements of a block is behind one. -/
theorem behindStop (h : Items tokens) (previous : Token) (hstop : previous.kind.isStop = true) :
    BehindStop previous tokens ∧ (lastBehind previous tokens).kind.isStop = true := by
  have hterm : ∀ {tokens}, Enclosed tokens → ∀ previous, BehindStop previous tokens :=
    fun hwalk previous => .of_plain previous fun _ hmem => (hwalk.not_brace hmem).2
  induction h generalizing previous with
  | nil => exact ⟨trivial, hstop⟩
  | closed hwalk hsemi _ ih =>
      obtain ⟨hlater, hlast⟩ := ih _ (by rw [hsemi]; rfl)
      rw [behindStop_append, lastBehind_append_cons]
      exact ⟨⟨hterm hwalk _, by simp [hsemi], hlater⟩, hlast⟩
  | @nested _ inner later opening closing hwalk hopening _ hclosing _ ihinner ihlater =>
      obtain ⟨hinner, hlastInner⟩ := ihinner opening (by rw [hopening]; rfl)
      obtain ⟨hlater, hlast⟩ := ihlater closing (by rw [hclosing]; rfl)
      rw [behindStop_append, lastBehind_append_cons]
      refine ⟨⟨hterm hwalk _, by simp [hopening], ?_⟩, ?_⟩
      · rw [behindStop_append]
        exact ⟨hinner, fun _ => hlastInner, hlater⟩
      · rw [lastBehind_append_cons]
        exact hlast

/-- Whatever comes right in front of a `}` of a block is a `;` or a brace. -/
theorem stop_before {before behind : List Token} {opening closing last brace : Token}
    (h : Items tokens) (hopening : opening.kind = .punctuation .lBrace)
    (hbrace : brace.kind = .punctuation .rBrace)
    (hsplit : opening :: (tokens ++ [closing]) = before ++ last :: brace :: behind) :
    last.kind.isStop = true := by
  obtain ⟨hall, hlast⟩ := h.behindStop opening (by rw [hopening]; rfl)
  have hwhole : BehindStop opening (opening :: (tokens ++ [closing])) := by
    refine ⟨by simp [hopening], (behindStop_append _ _ _).mpr ⟨hall, fun _ => hlast, trivial⟩⟩
  rw [hsplit, behindStop_append] at hwhole
  exact hwhole.2.2.1 hbrace

end Items

end BehaviorTree
