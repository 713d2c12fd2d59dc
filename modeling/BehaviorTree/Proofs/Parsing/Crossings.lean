import BehaviorTree.Proofs.Parsing.Enclosed
import BehaviorTree.Proofs.Parsing.ParsersNearsight

/-!
# How items end

An item of a silent run ends behind a `;` or behind a block. What comes behind its `;` it does not
look at, so it is parsed the same whatever that is; and in front of its block it is parsed the same
whatever the block holds. `Crosses` is the judgement for a parser that ends in one of these ways.
-/

namespace BehaviorTree

namespace ParserState

variable {s t : ParserState} {tokens : List Token} {made : List Stamp}

/-- Nothing was reported so far, and the end of the file is still to come. -/
structure Quiet (s : ParserState) : Prop where
  sealed : s.Sealed
  silent : s.Silent
  gate : s.reportedAt = none

theorem Quiet.guarded (h : s.Quiet) : s.Guarded := ⟨h.sealed.ended, fun _ => h.gate⟩

theorem Silent.errorless (h : s.Silent) : s.Errorless := by
  rw [Errorless, show s.diagnostics = [] from h]
  rfl

theorem Stretch.onward (h : Stretch s tokens made t) : s.Onward t := ⟨⟨tokens, h.rest.symm⟩, h.final⟩

end ParserState

namespace Fork

open ParserState

variable {k : Fork} {s t : ParserState} {count : Nat}

theorem Before.length_lt (h : k.Before s) : k.left.length < s.rest.length := by
  obtain ⟨coming, hcoming⟩ := h.coming
  rw [hcoming, List.length_append, List.length_cons]
  omega

/-- Where the tokens of the left are not yet at hand, the token in front of them is to come. -/
theorem Before.behind (h : k.Before s) (honward : s.Onward t)
    (hlength : k.left.length < t.rest.length) : k.Before t := by
  obtain ⟨coming, hcoming⟩ := h.coming
  have hleft : k.last :: k.left <:+ s.rest := ⟨coming, hcoming.symm⟩
  obtain ⟨coming', hcoming'⟩ := List.suffix_of_suffix_length_le hleft honward.rest hlength
  refine ⟨?_, coming', hcoming'.symm⟩
  rw [Ended, honward.final]
  exact h.ended

/-- Consuming the last tokens in front of the fork. -/
theorem Before.switch_skip (h : k.Before s) (hrest : (s.skip count).rest = k.left) :
    (k.switch s).skip count = k.switch (s.skip count) := by
  have hlength := h.length_lt
  have hleft : s.rest.drop count = k.left := hrest
  have hpassed : (s.rest.take count).length = count := by
    refine List.length_take_of_le ?_
    have hdropped := congrArg List.length hleft
    obtain ⟨token, htoken, -⟩ := k.leftClosed
    have hpositive : 0 < k.left.length := List.length_pos_of_mem htoken
    rw [List.length_drop] at hdropped
    omega
  have hsplit : s.rest = s.rest.take count ++ k.left := by rw [← hleft, List.take_append_drop]
  have hbehind : (k.switch (s.skip count)).rest = k.right :=
    switch_rest (show (s.skip count).rest = [] ++ k.left from hrest)
  refine switch_skip_of rfl hpassed ?_
  rw [switch_rest hsplit, hbehind]

end Fork

namespace Parser

open ParserState

variable {α β : Type} {p : Parser α} {f : α → Parser β} {s t : ParserState}

/-- A silent run from a state before which nothing was reported. -/
theorem Reached.quiet (h : Reached s t) (hquiet : s.Quiet) (hsilent : t.Silent) : t.Quiet := by
  refine ⟨h.sealed hquiet.sealed, hsilent, ?_⟩
  obtain ⟨log, hrun⟩ := h
  induction hrun with
  | nothing => exact hquiet.gate
  | move _ _ ih => exact ih hsilent
  | build _ ih => exact ih hsilent
  | report _ _ _ => exact (not_silent_report _ hsilent).elim
  | @reportOnce log s _ _ _ hopen ih =>
      rw [ParserState.reportOnce, if_neg hopen] at hsilent
      exact (not_silent_report _ hsilent).elim

theorem Reached.silent (h : Reached s t) (hsilent : t.Silent) : s.Silent := by
  obtain ⟨log, hrun⟩ := h
  have hdiagnostics := hrun.diagnostics
  rw [show t.diagnostics = [] from hsilent] at hdiagnostics
  exact (List.append_eq_nil_iff.mp hdiagnostics.symm).1

/-- What comes first in a silent run. -/
theorem Runs.quiet (hp : Runs p) (hf : ∀ a, Grows (f a)) (hquiet : s.Quiet)
    (hsilent : ((p >>= f) s).2.Silent) : (p s).2.Quiet :=
  have hhonest : (p s).2.Honest := fun h => ((hp s).quiet hquiet h).gate
  (hp s).quiet hquiet ((hf (p s).1 _ hhonest).2 hsilent)

/-- What a silent run delivers. -/
theorem Delivers.quietly {post : α → ParserState → Prop} (hp : Delivers p s post) (hquiet : s.Quiet)
    (hsilent : (p s).2.Silent) : post (p s).1 (p s).2 :=
  ((hp hquiet.guarded).2 hsilent.errorless).2

/-- What is delivered comes from this very run. -/
theorem Delivers.run {post : α → ParserState → Prop} (hp : Delivers p s post) :
    Delivers p s fun a s' => p s = (a, s') ∧ post a s' := fun hguarded =>
  ⟨(hp hguarded).1, fun herrorless => ⟨((hp hguarded).2 herrorless).1, rfl, ((hp hguarded).2 herrorless).2⟩⟩

/-- Neither consumes tokens nor looks at them. -/
structure Heedless (p : Parser α) : Prop where
  still : ∀ s, Delivers p s fun _ s' => ∃ made, Stretch s [] made s'
  same : ∀ (k : Fork) (s : ParserState), p (k.switch s) = ((p s).1, k.switch (p s).2)

theorem Heedless.pure (a : α) : Heedless (Pure.pure a : Parser α) :=
  ⟨fun s => Delivers.pure ⟨_, .refl s⟩, fun _ _ => rfl⟩

theorem Heedless.bind (hp : Heedless p) (hf : ∀ a, Heedless (f a)) : Heedless (p >>= f) where
  still s := Delivers.bind (hp.still s) fun a s' => ((hf a).still s').mono
    fun _ _ ⟨_, hbehind⟩ ⟨_, hstretch⟩ => ⟨_, hstretch.trans hbehind⟩
  same k s := by
    show f (p (k.switch s)).1 (p (k.switch s)).2 = _
    rw [hp.same]
    exact (hf (p s).1).same k (p s).2

theorem Heedless.rangeSince (start : SourceRange) : Heedless (rangeSince start) :=
  ⟨fun s => Delivers.of_bind_pure (Delivers.rangeSince (Delivers.pure ⟨_, .refl s⟩)), fun _ _ => rfl⟩

theorem Heedless.newStmt (range : SourceRange) (build : Origin → Stmt) :
    Heedless (newStmt range build) :=
  ⟨fun _ => Delivers.of_bind_pure (Delivers.newStmt fun _ _ h => Delivers.pure ⟨_, h⟩), fun _ _ => rfl⟩

theorem Heedless.newDecl (range : SourceRange) (build : Origin → Decl) :
    Heedless (newDecl range build) :=
  ⟨fun _ => Delivers.of_bind_pure (Delivers.newDecl fun _ _ h => Delivers.pure ⟨_, h⟩), fun _ _ => rfl⟩

/-! ### Two ways of ending -/

/-- The run ends behind a `;` that ends an item, and does not depend on what comes behind it. -/
structure Closing (p : Parser α) (s : ParserState) (a : α) (s' : ParserState) : Prop where
  item : ∃ tokens semi made, Stretch s (tokens ++ [semi]) made s' ∧ Enclosed tokens ∧
    semi.kind = .punctuation .semi
  same : ∀ k : Fork, k.Before s → s'.rest = k.left → p (k.switch s) = (a, k.switch s')

/-- The run gets in front of a block, and does not depend on what comes behind its brace. -/
structure Opening (p : Parser α) (s t : ParserState) (finish : List Stmt → Parser α) : Prop where
  run : p s = (block >>= finish) t
  same : ∀ k : Fork, k.Before t → p (k.switch s) = (block >>= finish) (k.switch t)
  brace : t.current.kind = .punctuation .lBrace
  guarded : t.Guarded

/-- Unless the parser reports an error, it ends behind a `;`, if it may, or finishes as planned what
it has begun in front of a block. -/
def Crosses (mayClose : Prop) (plan : List Token → (List Stmt → Parser α) → Prop) (p : Parser α)
    (s : ParserState) : Prop :=
  Delivers p s fun a s' => mayClose ∧ Closing p s a s' ∨
    ∃ finish t tokens made, plan tokens finish ∧ Stretch s tokens made t ∧ Opening p s t finish

/-- The tokens in front of the block are those of terms. -/
def Behind (ends : (List Stmt → Parser α) → Prop) (tokens : List Token)
    (finish : List Stmt → Parser α) : Prop := Enclosed tokens ∧ ends finish

/-- The parser has no block. -/
abbrev Blockless (p : Parser α) (s : ParserState) : Prop := Crosses True (Behind fun _ => False) p s

variable {mayClose : Prop} {plan : List Token → (List Stmt → Parser α) → Prop}
  {ends : (List Stmt → Parser β) → Prop}

theorem Blockless.crosses (hp : Blockless p s) : Crosses True plan p s :=
  hp.mono fun _ _ h => h.imp id fun ⟨_, _, _, _, hnever, _⟩ => hnever.2.elim

theorem Blockless.expectSemi {context : String} {set : RecoverySet} :
    Blockless (expectSemi context set) s := by
  refine Delivers.expectSemi.run.mono fun _ s' ⟨hrun, htook⟩ => .inl ⟨trivial, ?_⟩
  obtain ⟨semi, hkind, hstretch⟩ := htook
  refine ⟨⟨[], semi, [], hstretch, .nil 0, hkind⟩, fun k hbefore hrest => ?_⟩
  have hsemi : s.current.kind = .punctuation .semi := by
    rw [current_of_rest hstretch.rest, hkind]
  rw [expectSemi_found context set hsemi] at hrun
  cases hrun
  have hsemi' : (k.switch s).AtSemi := by rw [AtSemi, hbefore.current, hsemi]
  rw [expectSemi_found context set hsemi', hbefore.switch_skip hrest]

/-- In front of a block. -/
theorem Crosses.block {finish : List Stmt → Parser α} (hbrace : s.current.kind = .punctuation .lBrace)
    (hplan : plan [] finish) (hfinish : ∀ stmts, Retains (finish stmts)) :
    Crosses mayClose plan (Parser.block >>= finish) s := by
  intro hguarded
  have hblock := BlockDelivers.block s (by simp [Token.isEndOfFile, hbrace])
  obtain ⟨hguarded', herrorless⟩ :=
    Delivers.bind hblock (fun stmts s' => (hfinish stmts s').mono fun _ _ _ _ => trivial) hguarded
  exact ⟨hguarded', fun h => ⟨(herrorless h).1, .inr ⟨finish, s, [], [], hplan, .refl s, rfl,
    fun _ _ => rfl, hbrace, hguarded⟩⟩⟩

/-- Behind a parser that can be compared in front of a stop. -/
theorem Crosses.there {plan plan' : List Token → (List Stmt → Parser β) → Prop}
    (front : List Token → Prop) (hp : Nearsighted p)
    (hfront : Delivers p s fun _ s' => ∃ tokens made, Stretch s tokens made s' ∧ front tokens)
    (hf : Crosses mayClose plan (f (p s).1) (p s).2)
    (hcloses : mayClose → ∀ tokens, front tokens → Enclosed tokens)
    (hplan : ∀ tokens later finish, front tokens → plan later finish → plan' (tokens ++ later) finish) :
    Crosses mayClose plan' (p >>= f) s := by
  intro hguarded
  obtain ⟨hguarded', hbefore⟩ := hfront hguarded
  obtain ⟨hguarded'', hbehind⟩ := hf hguarded'
  refine ⟨hguarded'', fun herrorless => ?_⟩
  obtain ⟨herrorless', hcrossing⟩ := hbehind herrorless
  obtain ⟨herrorless₀, tokens, made, hstretch, htokens⟩ := hbefore herrorless'
  refine ⟨herrorless₀, ?_⟩
  rcases hcrossing with ⟨hmay, hclosing⟩ | ⟨finish, t, later, made', hlater, hstretch', hopening⟩
  · obtain ⟨tokens', semi, made', hstretch', hwalk', hsemi⟩ := hclosing.item
    have hwalk := hcloses hmay tokens htokens
    refine .inl ⟨hmay, ⟨tokens ++ tokens', semi, _, (hstretch.trans hstretch').as
      (List.append_assoc _ _ _).symm fun _ => rfl, hwalk.append hwalk', hsemi⟩, fun k hk hrest => ?_⟩
    have hthere : k.Before (p s).2 := by
      have hleft : (f (p s).1 (p s).2).2.rest = k.left := hrest
      refine hk.behind hstretch.onward ?_
      rw [hstretch'.rest, hleft, List.length_append, List.length_append, List.length_singleton]
      omega
    show f (p (k.switch s)).1 (p (k.switch s)).2 = _
    rw [hp.same k s hthere]
    exact hclosing.same k hthere hrest
  · refine .inr ⟨finish, t, _, _, hplan tokens later finish htokens hlater,
      hstretch.trans hstretch', hopening.run, fun k hk => ?_, hopening.brace, hopening.guarded⟩
    show f (p (k.switch s)).1 (p (k.switch s)).2 = _
    rw [hp.same k s (hk.of_onward hstretch'.onward)]
    exact hopening.same k hk

/-- Behind what consumes the tokens that it should, wherever that ends. -/
theorem Crosses.after {plan' : List Token → (List Stmt → Parser β) → Prop}
    (front : α → List Token → Prop) (plan : α → List Token → (List Stmt → Parser β) → Prop)
    (hp : Nearsighted p)
    (hfront : Delivers p s fun a s' => ∃ tokens made, Stretch s tokens made s' ∧ front a tokens)
    (hf : ∀ a tokens s', front a tokens → Crosses mayClose (plan a) (f a) s')
    (hno : ∀ a, (∀ tokens, ¬front a tokens) → Retains (f a))
    (hcloses : mayClose → ∀ a tokens, front a tokens → Enclosed tokens)
    (hplan : ∀ a tokens later finish, front a tokens → plan a later finish →
      plan' (tokens ++ later) finish) : Crosses mayClose plan' (p >>= f) s := by
  have hhere : Delivers p s fun _ s' => ∃ tokens made, Stretch s tokens made s' ∧ front (p s).1 tokens := by
    refine hfront.run.mono fun a s' ⟨hrun, h⟩ => ?_
    rw [hrun]
    exact h
  by_cases hgood : ∃ tokens, front (p s).1 tokens
  · obtain ⟨tokens, htokens⟩ := hgood
    exact .there (front (p s).1) hp hhere (hf _ tokens _ htokens) (fun hmay => hcloses hmay _)
      fun _ _ _ => hplan _ _ _ _
  · intro hguarded
    obtain ⟨hguarded', hbefore⟩ := hhere hguarded
    obtain ⟨hguarded'', hbehind⟩ := hno (p s).1 (not_exists.mp hgood) (p s).2 hguarded'
    refine ⟨hguarded'', fun herrorless => ?_⟩
    obtain ⟨-, tokens, -, -, htokens⟩ := hbefore (hbehind herrorless).1
    exact absurd ⟨tokens, htokens⟩ hgood

/-- In front of what does not matter. -/
theorem Crosses.then {plan' : List Token → (List Stmt → Parser β) → Prop}
    (hp : Crosses mayClose plan p s) (hf : ∀ a, Heedless (f a))
    (hplan : ∀ tokens finish, plan tokens finish → plan' tokens fun stmts => finish stmts >>= f) :
    Crosses mayClose plan' (p >>= f) s := by
  refine Delivers.bind hp.run fun a s' => ((hf a).still s').run.mono
    fun b s'' ⟨hbehind, made', hstretch'⟩ ⟨hrun, hcrossing⟩ => ?_
  rcases hcrossing with ⟨hmay, hclosing⟩ | ⟨finish, t, tokens, made, htokens, hstretch, hopening⟩
  · obtain ⟨tokens, semi, made, hstretch, hwalk, hsemi⟩ := hclosing.item
    refine .inl ⟨hmay, ⟨tokens, semi, _, (hstretch.trans hstretch').as (List.append_nil _)
      fun _ => rfl, hwalk, hsemi⟩, fun k hk hrest => ?_⟩
    have hsame : s'.rest = k.left := by
      rw [hstretch'.rest, List.nil_append]
      exact hrest
    show f (p (k.switch s)).1 (p (k.switch s)).2 = _
    rw [hclosing.same k hk hsame]
    exact ((hf a).same k s').trans (by rw [hbehind])
  · refine .inr ⟨_, t, tokens, made, hplan tokens finish htokens, hstretch, ?_, fun k hk => ?_,
      hopening.brace, hopening.guarded⟩
    · show f (p s).1 (p s).2 = _
      rw [hopening.run]
      rfl
    · show f (p (k.switch s)).1 (p (k.switch s)).2 = _
      rw [hopening.same k hk]
      rfl

theorem Crosses.fail {plan : List Token → (List Stmt → Parser β) → Prop}
    (hp : Delivers p s fun _ _ => False) (hf : ∀ a, Retains (f a)) :
    Crosses mayClose plan (p >>= f) s := Delivers.fail hp hf

/-- What is read off the state and is the same on both sides of a fork. -/
theorem Crosses.read {γ : Type} {g : ParserState → γ} {f : γ → Parser α}
    (hread : ∀ k : Fork, k.Before s → g (k.switch s) = g s) (hf : Crosses mayClose plan (f (g s)) s) :
    Crosses mayClose plan ((fun state => (g state, state)) >>= f) s := by
  have hthere : ∀ k : Fork, k.Before s →
      ((fun state => (g state, state) : Parser γ) >>= f) (k.switch s) = f (g s) (k.switch s) := by
    intro k hk
    show f (g (k.switch s)) (k.switch s) = _
    rw [hread k hk]
  intro hguarded
  obtain ⟨hguarded', hbehind⟩ := hf hguarded
  refine ⟨hguarded', fun herrorless => ⟨(hbehind herrorless).1, ?_⟩⟩
  rcases (hbehind herrorless).2 with
    ⟨hmay, hclosing⟩ | ⟨finish, t, tokens, made, htokens, hstretch, hopening⟩
  · exact .inl ⟨hmay, hclosing.item, fun k hk hrest => (hthere k hk).trans (hclosing.same k hk hrest)⟩
  · exact .inr ⟨finish, t, tokens, made, htokens, hstretch, hopening.run, fun k hk =>
      (hthere k (hk.of_onward hstretch.onward)).trans (hopening.same k hk), hopening.brace,
      hopening.guarded⟩

theorem Crosses.peek {f : Token → Parser α} (hf : Crosses mayClose plan (f s.current) s) :
    Crosses mayClose plan (Parser.peek >>= f) s :=
  .read (fun _ hk => hk.current) hf

/-! ### Behind parts of items -/

/-- Behind tokens of terms. -/
theorem Crosses.next (hp : Nearsighted p) (hwalk : Walks 0 0 p s)
    (hf : Crosses mayClose (Behind ends) (f (p s).1) (p s).2) :
    Crosses mayClose (Behind ends) (p >>= f) s :=
  .there Enclosed hp hwalk hf (fun _ _ h => h)
    fun _ _ _ hbefore hlater => ⟨hbefore.append hlater.1, hlater.2⟩

/-- Behind tokens of terms, if what they make is as it should be. -/
theorem Crosses.behind (good : α → Prop) (hp : Nearsighted p)
    (hfront : Delivers p s fun a s' => good a ∧ ∃ tokens made, Stretch s tokens made s' ∧ Enclosed tokens)
    (hf : ∀ a s', good a → Crosses mayClose (Behind ends) (f a) s')
    (hno : ∀ a, ¬good a → Retains (f a)) : Crosses mayClose (Behind ends) (p >>= f) s :=
  .after (fun a tokens => good a ∧ Enclosed tokens) (fun _ => Behind ends) hp
    (hfront.mono fun _ _ ⟨hgood, tokens, made, hstretch, hwalk⟩ => ⟨tokens, made, hstretch, hgood, hwalk⟩)
    (fun a _ s' h => hf a s' h.1) (fun a hnever => hno a fun hgood => hnever [] ⟨hgood, .nil 0⟩)
    (fun _ _ _ h => h.2) fun _ _ _ _ hbefore hlater => ⟨hbefore.2.append hlater.1, hlater.2⟩

theorem Crosses.bind (hp : Nearsighted p) (hwalk : Walks 0 0 p s)
    (hf : ∀ a s', Crosses mayClose (Behind ends) (f a) s') :
    Crosses mayClose (Behind ends) (p >>= f) s :=
  .behind (fun _ => True) hp (hwalk.mono fun _ _ h => ⟨trivial, h⟩) (fun a s' _ => hf a s')
    fun _ hnot => absurd trivial hnot

theorem Crosses.advance {kind : TokenKind} {f : Token → Parser β} (hkind : s.current.kind = kind)
    (hfits : kind.fits 0 = true) (hflat : kind.closing = kind.opening)
    (hf : ∀ token s', Crosses mayClose (Behind ends) (f token) s') :
    Crosses mayClose (Behind ends) (Parser.advance >>= f) s :=
  .bind .advance (Delivers.of_bind_pure (Walks.advance hkind hfits (by rw [hflat]) fun _ _ => .pure _)) hf

theorem Crosses.expectName {what : String} {set : RecoverySet} {f : Option Name → Parser β}
    (hyes : ∀ name s', Crosses mayClose (Behind ends) (f (some name)) s') (hno : Retains (f none)) :
    Crosses mayClose (Behind ends) (Parser.expectName what set >>= f) s := by
  refine .behind (fun name => name.isSome = true) (.expectName _ _) ?_ ?_ ?_
  · refine Delivers.of_bind_pure (Delivers.bind Delivers.expectName fun found s' => Delivers.pure ?_)
    rintro ⟨token, hkind, rfl, hstretch⟩
    exact ⟨rfl, _, _, hstretch, .single (by rw [hkind]; rfl) (by rw [hkind]; rfl)⟩
  · rintro (_ | name) s' hsome
    · cases hsome
    · exact hyes name s'
  · rintro (_ | name) hnone
    · exact hno
    · exact absurd rfl hnone

theorem Crosses.expectOperator {op : Operator} {context : String} {set : RecoverySet}
    {f : Bool → Parser β} (hyes : ∀ s', Crosses mayClose (Behind ends) (f true) s')
    (hno : Retains (f false)) :
    Crosses mayClose (Behind ends) (Parser.expectOperator op context set >>= f) s := by
  refine .behind (fun found => found = true) (.expectOperator _ _ _) ?_ ?_ ?_
  · refine Delivers.expectOperator.mono fun found s' ⟨hfound, token, hkind, hstretch⟩ => ?_
    exact ⟨hfound, _, _, hstretch, .single (by rw [hkind]; rfl) (by rw [hkind]; rfl)⟩
  · rintro _ s' rfl
    exact hyes s'
  · rintro (_ | _) hnot
    · exact hno
    · exact absurd rfl hnot

/-- A `;` and what is made of the item. -/
theorem Crosses.terminated {context : String} {set : RecoverySet} {f : Unit → Parser β}
    (hf : Heedless (f ())) : Blockless (Parser.expectSemi context set >>= f) s :=
  Crosses.then Blockless.expectSemi (fun _ => hf) fun _ _ h => h.2.elim

end Parser

end BehaviorTree
