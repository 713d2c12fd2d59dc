import BehaviorTree.Proofs.Parsing.Enough

/-!
# A missing terminator

Two runs of a parser are compared: one on a stream of tokens, and one on the same stream without a
certain `;`, where the token behind it is marked as the first of its line. This file is about the
time before either of them has got to that place. As long as the first run is silent the two do the
same: no term looks past a `;`, and none goes on with a token that starts an item either.

`Mirrors` is the judgement for it. It asks for two things at once, that the parser takes no report
back, so that a silent run has been silent from its start, and that silent runs from related states
end in related states.
-/

namespace BehaviorTree

namespace TokenKind

/-- Whether an item can start with such a token, or a block or the file end with it. -/
def startsItem : TokenKind → Bool
  | docComment _ | identifier | endOfFile => true
  | punctuation mark => mark == .rBrace || mark == .at || mark == .hash
  | keyword word => word.isOpener
  | _ => false

/-- Whether no term goes on with such a token. -/
def endsTerm (kind : TokenKind) : Bool := kind.startsItem || kind == .punctuation .semi

/-- By how much a token raises the number of open square brackets. -/
def opening : TokenKind → Nat
  | punctuation .lBracket => 1
  | _ => 0

/-- By how much a token lowers the number of open square brackets. -/
def closing : TokenKind → Nat
  | punctuation .rBracket => 1
  | _ => 0

theorem operator?_of_endsTerm {kind : TokenKind} (h : kind.endsTerm = true) :
    kind.operator? = none := by
  cases kind <;> first | rfl | cases h

end TokenKind

namespace Token

/-- The square brackets that are opened among some tokens. -/
def openings (tokens : List Token) : Nat := total (fun token => token.kind.opening) tokens

/-- The square brackets that are closed among some tokens. -/
def closings (tokens : List Token) : Nat := total (fun token => token.kind.closing) tokens

end Token

/-- A stream of tokens with a `;` in it that is no part of an array, cut in front of that `;`. -/
structure Omission where
  file : FileId
  before : List Token
  semi : Token
  next : Token
  later : List Token
  /-- What is seen past the end of the stream without the `;`. -/
  final : Token
  isSemi : semi.kind = .punctuation .semi
  balanced : Token.openings before = Token.closings before
  unended : ∀ token ∈ before, token.isEndOfFile = false
  begun : before ≠ []
  ended : final.isEndOfFile = true

namespace Omission

variable (o : Omission)

/-- The stream from the `;` on. -/
def here : List Token := o.semi :: o.next :: o.later

/-- The token that the second run meets in the place of the `;`. Where no item can start behind the
`;` there is nothing to compare, and the second run is the first one. -/
def resumed : Token := if o.next.kind.startsItem then o.next.onNewLine else o.semi

def remaining : List Token := if o.next.kind.startsItem then o.later else o.next :: o.later

/-- What the second run meets in the place of the stream from the `;` on. -/
def there : List Token := o.resumed :: o.remaining

theorem resumed_endsTerm : o.resumed.kind.endsTerm = true := by
  unfold resumed
  split
  · rename_i hstarts
    simp [TokenKind.endsTerm, Token.onNewLine, hstarts]
  · simp [TokenKind.endsTerm, o.isSemi]

/-- Two states with the same tokens in front of the omission, inside as many square brackets as the
level says. -/
structure Faces (level : Nat) (coming : List Token) (s t : ParserState) : Prop where
  file : s.file = o.file
  ended : s.Ended
  final : o.next.isEndOfFile = false → s.final = o.final
  passed : ∃ passed, o.before = passed ++ coming ∧ s.position = passed.length ∧
    Token.openings passed = Token.closings passed + level ∧
    ∀ last, passed.getLast? = some last → s.lastRange = last.range
  rest : s.rest = coming ++ o.here
  same : t = { s with rest := coming ++ o.there, final := o.final }

namespace Faces

variable {o} {level level' : Nat} {token : Token} {coming : List Token} {s t : ParserState}

theorem current (hfaces : o.Faces level (token :: coming) s t) : s.current = token := by
  simp [ParserState.current, ParserState.tokenAt, hfaces.rest]

theorem current' (hfaces : o.Faces level (token :: coming) s t) : t.current = token := by
  simp [ParserState.current, ParserState.tokenAt, hfaces.same]

theorem current_nil (hfaces : o.Faces level [] s t) : s.current = o.semi := by
  simp [ParserState.current, ParserState.tokenAt, hfaces.rest, here]

theorem current_nil' (hfaces : o.Faces level [] s t) : t.current = o.resumed := by
  simp [ParserState.current, ParserState.tokenAt, hfaces.same, there]

/-- As many brackets are still to be closed as are open. -/
theorem balance (hfaces : o.Faces level coming s t) :
    Token.openings coming + level = Token.closings coming := by
  obtain ⟨passed, hbefore, -, hlevel, -⟩ := hfaces.passed
  have hbalanced := o.balanced
  rw [hbefore] at hbalanced
  simp only [Token.openings, Token.closings, total_append] at hbalanced hlevel ⊢
  omega

/-- Inside brackets the omission is not at hand. -/
theorem level_eq_zero (hfaces : o.Faces level [] s t) : level = 0 := by
  have hbalance := hfaces.balance
  simp only [Token.openings, Token.closings, total_nil] at hbalance
  omega

theorem isEndOfFile (hfaces : o.Faces level (token :: coming) s t) :
    token.isEndOfFile = false := by
  obtain ⟨passed, hbefore, -⟩ := hfaces.passed
  exact o.unended token (by simp [hbefore])

theorem skip (hfaces : o.Faces level (token :: coming) s t)
    (hlevel : level' + token.kind.closing = level + token.kind.opening) :
    o.Faces level' coming (s.skip 1) (t.skip 1) where
  file := hfaces.file
  ended := hfaces.ended
  final := hfaces.final
  passed := by
    obtain ⟨passed, hbefore, hposition, hopen, -⟩ := hfaces.passed
    refine ⟨passed ++ [token], by simp [hbefore], ?_, ?_, ?_⟩
    · show s.position + 1 = _
      simp [hposition]
    · simp only [Token.openings, Token.closings, total_append, total_cons, total_nil] at hopen ⊢
      omega
    · intro last hlast
      simp only [List.getLast?_append, List.getLast?_singleton, Option.some_or,
        Option.some.injEq] at hlast
      simp [ParserState.skip, hfaces.rest, hlast]
  rest := by simp [ParserState.skip, hfaces.rest]
  same := by
    rw [hfaces.same]
    simp [ParserState.skip, hfaces.rest]

theorem advance (hfaces : o.Faces level (token :: coming) s t) :
    Parser.advance s = (token, s.skip 1) ∧ Parser.advance t = (token, t.skip 1) := by
  unfold Parser.advance
  rw [hfaces.current, hfaces.current', hfaces.isEndOfFile]
  exact ⟨rfl, rfl⟩

theorem withArena (hfaces : o.Faces level coming s t) (arena : Arena) :
    o.Faces level coming { s with arena := arena } { t with arena := arena } where
  file := hfaces.file
  ended := hfaces.ended
  final := hfaces.final
  passed := hfaces.passed
  rest := hfaces.rest
  same := by rw [hfaces.same]

end Faces

/-- The omission is still ahead, behind fewer tokens than the bound says. -/
def Within (level bound : Nat) (s t : ParserState) : Prop :=
  ∃ coming, coming.length < bound ∧ o.Faces level coming s t

/-- The omission is still ahead, and a certain token comes first. -/
def At (level bound : Nat) (token : Token) (s t : ParserState) : Prop :=
  ∃ coming, coming.length + 1 < bound ∧ o.Faces level (token :: coming) s t

/-- The omission is at hand. -/
def AtEnd (level bound : Nat) (s t : ParserState) : Prop := 0 < bound ∧ o.Faces level [] s t

/-- Behind a turn of a loop. One that asks for another turn has consumed a token. -/
def Turned {α : Type} (level bound : Nat) : Parser.Turn α → ParserState → ParserState → Prop
  | .again _ => o.Within level bound
  | .done _ => o.Within level (bound + 1)

/-- States that differ in the coming tokens only, whatever the trees that were made. -/
class Steady (rel : ParserState → ParserState → Prop) : Prop where
  same : ∀ {s t}, rel s t → t = { s with rest := t.rest, final := t.final }
  withArena : ∀ {s t}, rel s t → ∀ arena : Arena, rel { s with arena := arena } { t with arena := arena }

instance (level bound : Nat) : Steady (o.AtEnd level bound) where
  same hend := by rw [hend.2.same]
  withArena hend arena := ⟨hend.1, hend.2.withArena arena⟩

instance (level bound : Nat) : Steady (o.Within level bound) where
  same := by
    rintro s t ⟨coming, -, hfaces⟩
    rw [hfaces.same]
  withArena := by
    rintro s t ⟨coming, hbound, hfaces⟩ arena
    exact ⟨coming, hbound, hfaces.withArena arena⟩

instance (level bound : Nat) (token : Token) : Steady (o.At level bound token) where
  same := by
    rintro s t ⟨coming, -, hfaces⟩
    rw [hfaces.same]
  withArena := by
    rintro s t ⟨coming, hbound, hfaces⟩ arena
    exact ⟨coming, hbound, hfaces.withArena arena⟩

variable {o} {level bound bound' : Nat} {s t : ParserState}

theorem Within.mono (hwithin : o.Within level bound s t) (hbound : bound ≤ bound') :
    o.Within level bound' s t := by
  obtain ⟨coming, hcoming, hfaces⟩ := hwithin
  exact ⟨coming, Nat.lt_of_lt_of_le hcoming hbound, hfaces⟩

theorem At.mono {token : Token} (hat : o.At level bound token s t) (hbound : bound ≤ bound') :
    o.At level bound' token s t := by
  obtain ⟨coming, hcoming, hfaces⟩ := hat
  exact ⟨coming, Nat.lt_of_lt_of_le hcoming hbound, hfaces⟩

theorem At.within {token : Token} (hat : o.At level bound token s t) : o.Within level bound s t := by
  obtain ⟨coming, hcoming, hfaces⟩ := hat
  exact ⟨token :: coming, hcoming, hfaces⟩

theorem AtEnd.within (hend : o.AtEnd level bound s t) : o.Within level bound s t :=
  ⟨[], hend.1, hend.2⟩

theorem AtEnd.atSemi (hend : o.AtEnd level bound s t) : s.AtSemi := by
  rw [ParserState.AtSemi, hend.2.current_nil, o.isSemi]

end Omission

namespace Parser

open ParserState

variable {α β : Type} {R R' : ParserState → ParserState → Prop} {p q : Parser α}
  {f g : α → Parser β} {mid post' : α → α → ParserState → ParserState → Prop}
  {post : β → β → ParserState → ParserState → Prop}

/-- The first parser takes no report back, and from related states on, if it is silent, both return
related values in related states. -/
def Mirrors (R : ParserState → ParserState → Prop) (p q : Parser α)
    (post : α → α → ParserState → ParserState → Prop) : Prop :=
  Grows p ∧ ∀ s t, s.Honest → R s t → (p s).2.Silent → post (p s).1 (q t).1 (p s).2 (q t).2

/-- Both return the same. -/
def Both (R : α → ParserState → ParserState → Prop) :
    α → α → ParserState → ParserState → Prop :=
  fun a a' s t => a = a' ∧ R a s t

theorem Mirrors.mono (hp : Mirrors R p q mid) (himp : ∀ a a' s t, mid a a' s t → post' a a' s t) :
    Mirrors R p q post' :=
  ⟨hp.1, fun s t hhonest hR hsilent => himp _ _ _ _ (hp.2 s t hhonest hR hsilent)⟩

theorem Mirrors.weaken (hp : Mirrors R p q mid) (himp : ∀ s t, R' s t → R s t) :
    Mirrors R' p q mid :=
  ⟨hp.1, fun s t hhonest hR hsilent => hp.2 s t hhonest (himp s t hR) hsilent⟩

theorem Mirrors.pure {a a' : α} (h : ∀ s t, R s t → mid a a' s t) :
    Mirrors R (pure a) (pure a') mid :=
  ⟨Grows.pure a, fun s t _ hR _ => h s t hR⟩

theorem Mirrors.bind (hp : Mirrors R p q mid)
    (hf : ∀ a a', Mirrors (mid a a') (f a) (g a') post) : Mirrors R (p >>= f) (q >>= g) post := by
  refine ⟨hp.1.bind fun a => (hf a a).1, fun s t hhonest hR hsilent => ?_⟩
  obtain ⟨hhonest', -⟩ := hp.1 s hhonest
  have hsilent' : (p s).2.Silent := ((hf (p s).1 (p s).1).1 _ hhonest').2 hsilent
  exact (hf _ _).2 _ _ hhonest' (hp.2 s t hhonest hR hsilent') hsilent

theorem Mirrors.pure_bind {a a' : α} (hf : Mirrors R (f a) (g a') post) :
    Mirrors R (Pure.pure a >>= f) (Pure.pure a' >>= g) post := hf

/-- Behind parsers that return the same. -/
theorem Mirrors.next {between : α → ParserState → ParserState → Prop}
    (hp : Mirrors R p q (Both between)) (hf : ∀ a, Mirrors (between a) (f a) (g a) post) :
    Mirrors R (p >>= f) (q >>= g) post := by
  refine ⟨hp.1.bind fun a => (hf a).1, fun s t hhonest hR hsilent => ?_⟩
  obtain ⟨hhonest', -⟩ := hp.1 s hhonest
  have hsilent' : (p s).2.Silent := ((hf (p s).1).1 _ hhonest').2 hsilent
  obtain ⟨hsame, hbetween⟩ := hp.2 s t hhonest hR hsilent'
  have hrun := (hf (p s).1).2 _ _ hhonest' hbetween hsilent
  show post _ (g (q t).1 (q t).2).1 _ (g (q t).1 (q t).2).2
  rw [← hsame]
  exact hrun

theorem Mirrors.map {between : α → ParserState → ParserState → Prop}
    {between' : β → ParserState → ParserState → Prop} {h : α → β}
    (hp : Mirrors R p q (Both between)) (himp : ∀ a s t, between a s t → between' (h a) s t) :
    Mirrors R (h <$> p) (h <$> q) (Both between') :=
  Mirrors.next hp fun a => Mirrors.pure fun s t hbetween => ⟨rfl, himp a s t hbetween⟩

theorem Mirrors.loud (hgrows : Grows p) (hloud : Loud p) : Mirrors R p q mid :=
  ⟨hgrows, fun s _ hhonest _ hsilent => (hloud s hhonest hsilent).elim⟩

/-! ### Steps that read the state or make a tree -/

section Steady

variable [Omission.Steady R]

theorem Mirrors.ofArena (make : Arena → α × Arena) :
    Mirrors R (fun s => ((make s.arena).1, { s with arena := (make s.arena).2 }))
      (fun s => ((make s.arena).1, { s with arena := (make s.arena).2 })) (Both fun _ => R) := by
  refine ⟨fun s hhonest => ⟨hhonest, id⟩, fun s t _ hR _ => ?_⟩
  have harena : t.arena = s.arena := by rw [Omission.Steady.same hR]
  dsimp only
  rw [harena]
  exact ⟨rfl, Omission.Steady.withArena hR _⟩

theorem Mirrors.intern (text : String) :
    Mirrors R (intern text) (intern text) (Both fun _ => R) :=
  Mirrors.ofArena fun arena => ((), arena.intern text)

theorem Mirrors.nameOf (token : Token) :
    Mirrors R (nameOf token) (nameOf token) (Both fun _ => R) :=
  Mirrors.ofArena fun arena => ((⟨token.text, token.range⟩ : Name), arena.intern token.text)

theorem Mirrors.newExpr (range : SourceRange) (build : Origin → Expr) :
    Mirrors R (newExpr range build) (newExpr range build) (Both fun _ => R) :=
  Mirrors.ofArena fun arena => arena.addExpr range build

theorem Mirrors.newType (range : SourceRange) (build : Origin → TypeExpr) :
    Mirrors R (newType range build) (newType range build) (Both fun _ => R) :=
  Mirrors.ofArena fun arena => arena.addType range build

theorem Mirrors.widenExpr (expr : Expr) (range : SourceRange) :
    Mirrors R (widenExpr expr range) (widenExpr expr range) (Both fun _ => R) :=
  Mirrors.ofArena fun arena => arena.widenExpr expr range

theorem Mirrors.rangeSince {start : SourceRange} {f g : SourceRange → Parser β}
    (hf : ∀ range, Mirrors R (f range) (g range) post) :
    Mirrors R (Parser.rangeSince start >>= f) (Parser.rangeSince start >>= g) post := by
  refine ⟨fun s => (hf (s.rangeSince start)).1 s, fun s t hhonest hR hsilent => ?_⟩
  have hrange : t.rangeSince start = s.rangeSince start := by
    rw [Omission.Steady.same hR]
    rfl
  have hrun := (hf (s.rangeSince start)).2 s t hhonest hR hsilent
  show post _ (g (t.rangeSince start) t).1 _ (g (t.rangeSince start) t).2
  rw [hrange]
  exact hrun

end Steady

/-! ### Looking at tokens and consuming them -/

section Tokens

variable {o : Omission} {level level' bound : Nat}

/-- What reports where a `;` stands is not silent at the omission. -/
theorem Mirrors.refuses (hgrows : Grows p) (hrefuses : Refuses p) :
    Mirrors (o.AtEnd level bound) p q mid := by
  refine ⟨hgrows, fun s t hhonest hend hsilent => ?_⟩
  exact (hrefuses s hhonest hend.atSemi hsilent).elim

/-- Both runs look at the same token, or the first one is at the `;` and the second one behind it. -/
theorem Mirrors.peek {f g : Token → Parser β}
    (hat : ∀ token, Mirrors (o.At level bound token) (f token) (g token) post)
    (hend : ∀ text range line (resumed : Token), resumed.kind.endsTerm = true →
      Mirrors (o.AtEnd level bound) (f ⟨.punctuation .semi, text, range, line⟩) (g resumed) post) :
    Mirrors (o.Within level bound) (Parser.peek >>= f) (Parser.peek >>= g) post := by
  refine ⟨fun s => (hat s.current).1 s, fun s t hhonest hwithin hsilent => ?_⟩
  obtain ⟨coming, hbound, hfaces⟩ := hwithin
  show post (f s.current s).1 (g t.current t).1 (f s.current s).2 (g t.current t).2
  change (f s.current s).2.Silent at hsilent
  cases coming with
  | nil =>
      have hrun := (hend o.semi.text o.semi.range o.semi.newlineBefore o.resumed
        o.resumed_endsTerm).2 s t hhonest ⟨hbound, hfaces⟩
      rw [← o.isSemi] at hrun
      rw [hfaces.current_nil] at hsilent
      rw [hfaces.current_nil, hfaces.current_nil']
      exact hrun hsilent
  | cons token coming =>
      rw [hfaces.current] at hsilent
      rw [hfaces.current, hfaces.current']
      exact (hat token).2 s t hhonest ⟨coming, hbound, hfaces⟩ hsilent

/-- The rule for a look at the current token where a `;` is refused. -/
theorem Mirrors.peek_refusing {f g : Token → Parser β}
    (hat : ∀ token, Mirrors (o.At level bound token) (f token) (g token) post)
    (hrefuses : ∀ text range line, Refuses (f ⟨.punctuation .semi, text, range, line⟩)) :
    Mirrors (o.Within level bound) (Parser.peek >>= f) (Parser.peek >>= g) post :=
  Mirrors.peek hat fun _ _ _ _ _ => Mirrors.refuses (hat _).1 (hrefuses _ _ _)

/-- The rule for a look at the current token where the first run halts at a `;`. -/
theorem Mirrors.peekHalting {f g : Token → Parser β}
    (hat : ∀ token, Mirrors (o.At level bound token) (f token) (g token) post)
    (hend : ∀ text range line s, s.AtSemi → ∀ b t,
      post (f ⟨.punctuation .semi, text, range, line⟩ s).1 b
        (f ⟨.punctuation .semi, text, range, line⟩ s).2 t) :
    Mirrors (o.Within level bound) (Parser.peek >>= f) (Parser.peek >>= g) post :=
  Mirrors.peek hat fun text range line _ _ =>
    ⟨(hat _).1, fun s _ _ hend' _ => hend text range line s hend'.atSemi _ _⟩

/-- It is enough to look at states with a token in front of the omission where a `;` is refused. -/
theorem Mirrors.ofAt (hat : ∀ token, Mirrors (o.At level bound token) p q mid)
    (hrefuses : Refuses p) : Mirrors (o.Within level bound) p q mid := by
  have hgrows : Grows p := (hat o.semi).1
  refine ⟨hgrows, fun s t hhonest hwithin hsilent => ?_⟩
  obtain ⟨coming, hbound, hfaces⟩ := hwithin
  cases coming with
  | nil => exact (Mirrors.refuses hgrows hrefuses).2 s t hhonest ⟨hbound, hfaces⟩ hsilent
  | cons token coming => exact (hat token).2 s t hhonest ⟨coming, hbound, hfaces⟩ hsilent

theorem Mirrors.peekAt {token : Token} {f g : Token → Parser β}
    (hf : ∀ token, Mirrors (o.At level bound token) (f token) (g token) post) :
    Mirrors (o.At level bound token) (Parser.peek >>= f) (Parser.peek >>= g) post := by
  refine ⟨fun s => (hf s.current).1 s, fun s t hhonest hat hsilent => ?_⟩
  have hs : s.current = token := by
    obtain ⟨coming, -, hfaces⟩ := hat
    exact hfaces.current
  have ht : t.current = token := by
    obtain ⟨coming, -, hfaces⟩ := hat
    exact hfaces.current'
  show post (f s.current s).1 (g t.current t).1 (f s.current s).2 (g t.current t).2
  change (f s.current s).2.Silent at hsilent
  rw [hs] at hsilent ⊢
  rw [ht]
  exact (hf token).2 s t hhonest hat hsilent

/-- A token in front of the omission is consumed. -/
theorem Mirrors.advance {token : Token} {f g : Token → Parser β} (fewer : Nat)
    (hfewer : bound ≤ fewer + 1)
    (hlevel : level' + token.kind.closing = level + token.kind.opening)
    (hf : ∀ token, Mirrors (o.Within level' fewer) (f token) (g token) post) :
    Mirrors (o.At level bound token) (Parser.advance >>= f) (Parser.advance >>= g) post := by
  refine ⟨Grows.advance.bind fun token => (hf token).1, fun s t hhonest hat hsilent => ?_⟩
  obtain ⟨coming, hbound, hfaces⟩ := hat
  obtain ⟨hs, ht⟩ := hfaces.advance
  show post (f (Parser.advance s).1 (Parser.advance s).2).1 (g (Parser.advance t).1
      (Parser.advance t).2).1 (f (Parser.advance s).1 (Parser.advance s).2).2
    (g (Parser.advance t).1 (Parser.advance t).2).2
  change (f (Parser.advance s).1 (Parser.advance s).2).2.Silent at hsilent
  rw [hs] at hsilent
  rw [hs, ht]
  exact (hf token).2 _ _ hhonest ⟨coming, by omega, hfaces.skip hlevel⟩ hsilent

/-- Both return the same and stay in front of the omission. -/
abbrev Follows (o : Omission) (level bound : Nat) (p q : Parser α) : Prop :=
  Mirrors (o.Within level bound) p q (Both fun _ => o.Within level bound)

/-- What one parser does on both streams. -/
abbrev Mirrored (R : ParserState → ParserState → Prop) (p : Parser α)
    (post : α → α → ParserState → ParserState → Prop) : Prop := Mirrors R p p post

/-- One parser returns the same on both streams and stays in front of the omission. -/
abbrev Keeps (o : Omission) (level bound : Nat) (p : Parser α) : Prop := Follows o level bound p p

/-- It is enough to look at states from which the omission can be reached. -/
theorem Mirrors.upTo (hp : ∀ fewer ≤ bound, Follows o level (fewer + 1) p q) :
    ∀ fewer ≤ bound + 1, Follows o level fewer p q := by
  intro fewer hfewer
  cases fewer with
  | zero => exact ⟨(hp 0 (Nat.zero_le _)).1, fun _ _ _ ⟨_, hlength, _⟩ => nomatch hlength⟩
  | succ fewer => exact hp fewer (Nat.le_of_succ_le_succ hfewer)

/-- A choice by the current token that is made the same way at a `;` and at a token that starts an
item. Inside brackets, where the omission is not at hand, it may be any choice. -/
theorem Mirrors.choice (test : Token → Bool) (sample : Token) (hsample : test sample = true)
    {p p' q q' : Parser β}
    (hend : level = 0 → ∀ token : Token, token.kind.endsTerm = true → test token = false)
    (hyes : ∀ token, test token = true → Mirrors (o.At level bound token) p p' post)
    (hno : Mirrors (o.Within level bound) q q' post) :
    Mirrors (o.Within level bound) (Parser.peek >>= fun token => if test token then p else q)
      (Parser.peek >>= fun token => if test token then p' else q') post := by
  apply Mirrors.peek
  · intro token
    split
    · exact hyes token ‹_›
    · exact hno.weaken fun _ _ => Omission.At.within
  · intro text range line resumed hresumed
    have hgrows' : Grows (if test ⟨.punctuation .semi, text, range, line⟩ then p else q) := by
      split
      · exact (hyes sample hsample).1
      · exact hno.1
    refine ⟨hgrows', fun s t hhonest hends hsilent => ?_⟩
    have hlevel : level = 0 := hends.2.level_eq_zero
    rw [if_neg (by simp [hend hlevel ⟨.punctuation .semi, text, range, line⟩ rfl])] at hsilent ⊢
    rw [if_neg (by simp [hend hlevel resumed hresumed])]
    exact hno.2 s t hhonest hends.within hsilent

theorem sample_isPunctuation (mark : Punctuation) :
    Token.isPunctuation ⟨.punctuation mark, "", .none, false⟩ mark = true := by
  simp [Token.isPunctuation]

theorem isPunctuation_of_endsTerm {mark : Punctuation} {token : Token}
    (hmark : (TokenKind.punctuation mark).endsTerm = false) (hends : token.kind.endsTerm = true) :
    token.isPunctuation mark = false := by
  cases hpass : token.isPunctuation mark with
  | false => rfl
  | true =>
      rw [Token.isPunctuation, beq_iff_eq] at hpass
      rw [hpass, hmark] at hends
      cases hends

theorem isOperator_of_endsTerm {op : Operator} {token : Token}
    (hends : token.kind.endsTerm = true) : token.isOperator op = false := by
  cases hpass : token.isOperator op with
  | false => rfl
  | true =>
      rw [Token.isOperator, beq_iff_eq] at hpass
      rw [hpass] at hends
      cases hends

theorem Mirrors.atPunctuation {mark : Punctuation} {f g : Bool → Parser β}
    (hmark : level = 0 → (TokenKind.punctuation mark).endsTerm = false)
    (hyes : ∀ text range line, Mirrors (o.At level bound ⟨.punctuation mark, text, range, line⟩)
      (f true) (g true) post)
    (hno : Mirrors (o.Within level bound) (f false) (g false) post) :
    Mirrors (o.Within level bound) (Parser.atPunctuation mark >>= f)
      (Parser.atPunctuation mark >>= g) post := by
  rw [atPunctuation_bind, atPunctuation_bind]
  refine Mirrors.choice (·.isPunctuation mark) _ (sample_isPunctuation mark)
    (fun hlevel _ => isPunctuation_of_endsTerm (hmark hlevel)) ?_ hno
  rintro ⟨kind, text, range, line⟩ hpass
  rw [Token.isPunctuation, beq_iff_eq] at hpass
  cases hpass
  exact hyes text range line

theorem Mirrors.acceptPunctuation {mark : Punctuation} {f g : Bool → Parser β} (fewer : Nat)
    (hfewer : bound ≤ fewer + 1) (hmark : level = 0 → (TokenKind.punctuation mark).endsTerm = false)
    (hlevel : level' + (TokenKind.punctuation mark).closing =
      level + (TokenKind.punctuation mark).opening)
    (hyes : Mirrors (o.Within level' fewer) (f true) (g true) post)
    (hno : Mirrors (o.Within level bound) (f false) (g false) post) :
    Mirrors (o.Within level bound) (Parser.acceptPunctuation mark >>= f)
      (Parser.acceptPunctuation mark >>= g) post := by
  unfold Parser.acceptPunctuation
  rw [accept_bind, accept_bind]
  refine Mirrors.choice (·.isPunctuation mark) _ (sample_isPunctuation mark)
    (fun hlevel _ => isPunctuation_of_endsTerm (hmark hlevel)) ?_ hno
  rintro ⟨kind, text, range, line⟩ hpass
  rw [Token.isPunctuation, beq_iff_eq] at hpass
  cases hpass
  exact Mirrors.advance fewer hfewer hlevel fun _ => hyes

theorem Mirrors.acceptOperator {op : Operator} {f g : Bool → Parser β} (fewer : Nat)
    (hfewer : bound ≤ fewer + 1) (hyes : Mirrors (o.Within level fewer) (f true) (g true) post)
    (hno : Mirrors (o.Within level bound) (f false) (g false) post) :
    Mirrors (o.Within level bound) (Parser.acceptOperator op >>= f)
      (Parser.acceptOperator op >>= g) post := by
  unfold Parser.acceptOperator
  rw [accept_bind, accept_bind]
  have hsample : Token.isOperator ⟨.operator op, "", .none, false⟩ op = true := by
    simp [Token.isOperator]
  refine Mirrors.choice (·.isOperator op) _ hsample (fun _ _ => isOperator_of_endsTerm) ?_ hno
  rintro ⟨kind, text, range, line⟩ hpass
  rw [Token.isOperator, beq_iff_eq] at hpass
  cases hpass
  exact Mirrors.advance fewer hfewer rfl fun _ => hyes

/-! ### Loops -/

/-- The same, except where the first run has come to a halt. -/
def Unless (halted : ParserState → Prop) (R : α → ParserState → ParserState → Prop) :
    α → α → ParserState → ParserState → Prop :=
  fun a a' s t => halted s ∨ a = a' ∧ R a s t

/-- The same turn, except where the first run ends its loop in a halt. -/
def TurnUnless (halted : ParserState → Prop) (R : Turn α → ParserState → ParserState → Prop) :
    Turn α → Turn α → ParserState → ParserState → Prop :=
  fun turn turn' s t => (∃ last, turn = .done last) ∧ halted s ∨ turn = turn' ∧ R turn s t

/-- The turns do not run out in front of the omission: each that asks for another one consumes a
token. -/
theorem Mirrors.iterateUnless {halted : ParserState → Prop} {body body' : α → Parser (Turn α)}
    {v : α} (hbody : ∀ fewer ≤ bound, ∀ v, Mirrors (o.Within level (fewer + 1)) (body v) (body' v)
      (TurnUnless halted (o.Turned level fewer))) :
    Mirrors (o.Within level (bound + 1)) (Parser.iterate body v) (Parser.iterate body' v)
      (Unless halted fun _ => o.Within level (bound + 1)) := by
  have hturn : ∀ left ≤ bound, ∀ v, ∀ {f g : Turn α → Parser α},
      (∀ last, f (.done last) = Pure.pure last) → (∀ last, g (.done last) = Pure.pure last) →
      (∀ next, Mirrors (o.Within level left) (f (.again next)) (g (.again next))
        (Unless halted fun _ => o.Within level (bound + 1))) →
      Mirrors (o.Within level (left + 1)) (body v >>= f) (body' v >>= g)
        (Unless halted fun _ => o.Within level (bound + 1)) := by
    intro left hleft v f g hf hg hagain
    apply Mirrors.bind (hbody left hleft v)
    rintro (next | last) turn'
    · refine ⟨(hagain next).1, fun s t hhonest hR hsilent => ?_⟩
      obtain ⟨⟨_, hdone⟩, -⟩ | ⟨rfl, hwithin⟩ := hR
      · cases hdone
      · exact (hagain next).2 s t hhonest hwithin hsilent
    · rw [hf last]
      refine ⟨Grows.pure last, fun s t _ hR _ => ?_⟩
      obtain ⟨-, hhalted⟩ | ⟨rfl, hwithin⟩ := hR
      · exact .inl hhalted
      · rw [hg last]
        exact .inr ⟨rfl, hwithin.mono (by omega)⟩
  have hnever : ∀ {p q : Parser α}, Grows p →
      Mirrors (o.Within level 0) p q (Unless halted fun _ => o.Within level (bound + 1)) :=
    fun hgrows => ⟨hgrows, fun _ _ _ ⟨_, hlength, _⟩ => (Nat.not_lt_zero _ hlength).elim⟩
  have halong : ∀ (turns turns' : List Token) (left : Nat) (v : α), left ≤ bound →
      left ≤ turns.length → left ≤ turns'.length →
      Mirrors (o.Within level (left + 1)) (iterateAlong body turns v) (iterateAlong body' turns' v)
        (Unless halted fun _ => o.Within level (bound + 1)) := by
    intro turns
    induction turns with
    | nil =>
        intro turns' left v hbound hleft _
        obtain rfl : left = 0 := Nat.le_zero.mp hleft
        cases turns' <;>
          exact hturn 0 hbound v (fun _ => rfl) (fun _ => rfl) fun next => hnever (Grows.pure next)
    | cons token turns ih =>
        intro turns' left v hbound hleft hleft'
        have hgrows : ∀ next, Grows (iterateAlong body turns next) := fun next =>
          (ih [] 0 next (Nat.zero_le _) (Nat.zero_le _) (Nat.zero_le _)).1
        cases left with
        | zero =>
            cases turns' <;>
              exact hturn 0 hbound v (fun _ => rfl) (fun _ => rfl) fun next => hnever (hgrows next)
        | succ left =>
            cases turns' with
            | nil => cases hleft'
            | cons token' turns' =>
                refine hturn (left + 1) hbound v (fun _ => rfl) (fun _ => rfl) fun next => ?_
                exact ih turns' left next (by omega) (Nat.le_of_succ_le_succ hleft)
                  (Nat.le_of_succ_le_succ hleft')
  refine ⟨fun s => (halong s.rest s.rest 0 v (Nat.zero_le _) (Nat.zero_le _) (Nat.zero_le _)).1 s,
    fun s t hhonest hwithin hsilent => ?_⟩
  obtain ⟨coming, hcoming, hfaces⟩ := hwithin
  have hs : coming.length ≤ s.rest.length := by simp [hfaces.rest]
  have ht : coming.length ≤ t.rest.length := by simp [hfaces.same]
  exact (halong s.rest t.rest coming.length v (by omega) hs ht).2 s t hhonest
    ⟨coming, Nat.lt_succ_self _, hfaces⟩ hsilent

theorem Mirrors.iterate {body body' : α → Parser (Turn α)} {v : α}
    (hbody : ∀ fewer ≤ bound, ∀ v, Mirrors (o.Within level (fewer + 1)) (body v) (body' v)
      (Both (o.Turned level fewer))) :
    Follows o level (bound + 1) (Parser.iterate body v) (Parser.iterate body' v) := by
  have hloop : Mirrors (o.Within level (bound + 1)) (Parser.iterate body v)
      (Parser.iterate body' v) (Unless (fun _ => False) fun _ => o.Within level (bound + 1)) :=
    Mirrors.iterateUnless fun fewer hfewer v =>
      (hbody fewer hfewer v).mono fun _ _ _ _ hboth => .inr hboth
  exact hloop.mono fun _ _ _ _ hunless => hunless.resolve_left id

/-- Behind a part of an item that may have come to a halt at a `;`, if that is refused. -/
theorem Mirrors.nextRefusing
    (hp : Mirrors R p q (Unless ParserState.AtSemi fun _ => o.Within level bound))
    (hrefuses : ∀ a, Refuses (f a))
    (hf : ∀ a token, Mirrors (o.At level bound token) (f a) (g a) post) :
    Mirrors R (p >>= f) (q >>= g) post := by
  have hwithin : ∀ a, Mirrors (o.Within level bound) (f a) (g a) post :=
    fun a => Mirrors.ofAt (hf a) (hrefuses a)
  refine ⟨hp.1.bind fun a => (hwithin a).1, fun s t hhonest hR hsilent => ?_⟩
  obtain ⟨hhonest', -⟩ := hp.1 s hhonest
  have hsilent' : (p s).2.Silent := ((hwithin (p s).1).1 _ hhonest').2 hsilent
  obtain hsemi | ⟨hsame, hbetween⟩ := hp.2 s t hhonest hR hsilent'
  · exact (hrefuses _ _ hhonest' hsemi hsilent).elim
  · have hrun := (hwithin (p s).1).2 _ _ hhonest' hbetween hsilent
    show post _ (g (q t).1 (q t).2).1 _ (g (q t).1 (q t).2).2
    rw [← hsame]
    exact hrun

end Tokens

end Parser

end BehaviorTree
