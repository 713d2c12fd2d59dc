import BehaviorTree.Proofs.Parsing.Omission

/-!
# The first tokens of items

A silent run of a parser for statements or declarations starts at a token that can start one, and
does not look at whether a line starts there too. `Opens` is the judgement for the one and `Blind`
for the other.
-/

namespace BehaviorTree

/-- The state with another answer to whether the coming token starts a line. -/
def ParserState.relined (state : ParserState) (line : Bool) : ParserState :=
  { state with rest := state.rest.modifyHead fun token => { token with newlineBefore := line } }

namespace Parser

open ParserState

variable {α β : Type} {p : Parser α} {f : α → Parser β} {token : Token}

/-! ### What line breaks do not matter to -/

/-- A silent run from a state with a certain token in front does not look at whether the token
starts a line. It consumes the token, and only one that starts an item, or it leaves it alone. -/
def Blind (token : Token) (p : Parser α) : Prop :=
  ∀ (line : Bool) (later : List Token) (s : ParserState), s.rest = token :: later → s.Honest →
    (p s).2.Silent →
      token.kind.startsItem = true ∧ p (s.relined line) = p s ∨
        (p s).2.rest = s.rest ∧ p (s.relined line) = ((p s).1, (p s).2.relined line)

theorem Blind.loud (hloud : Loud p) : Blind token p :=
  fun _ _ s _ hhonest hsilent => (hloud s hhonest hsilent).elim

/-- Parsers that look neither at the token nor consume it. -/
theorem Blind.still (hrest : ∀ s, (p s).2.rest = s.rest)
    (hrun : ∀ s line, p (s.relined line) = ((p s).1, (p s).2.relined line)) : Blind token p :=
  fun line _ s _ _ _ => .inr ⟨hrest s, hrun s line⟩

theorem Blind.pure (a : α) : Blind token (Pure.pure a) :=
  Blind.still (fun _ => rfl) fun _ _ => rfl

theorem Blind.bind (hp : Blind token p) (hgrows : ∀ a, Grows p ∧ Grows (f a))
    (hf : ∀ a, Blind token (f a)) : Blind token (p >>= f) := by
  intro line later s hrest hhonest hsilent
  obtain ⟨hhonest', -⟩ := (hgrows (p s).1).1 s hhonest
  have hsilent' : (p s).2.Silent := ((hgrows (p s).1).2 _ hhonest').2 hsilent
  show _ ∧ f (p (s.relined line)).1 (p (s.relined line)).2 = f (p s).1 (p s).2 ∨
    (f (p s).1 (p s).2).2.rest = s.rest ∧
      f (p (s.relined line)).1 (p (s.relined line)).2 = _
  obtain ⟨hstarts, hsame⟩ | ⟨hstill, hsame⟩ := hp line later s hrest hhonest hsilent'
  · exact .inl ⟨hstarts, by rw [hsame]⟩
  · rw [hsame, ← hstill]
    exact hf (p s).1 line later (p s).2 (hstill.trans hrest) hhonest' hsilent

theorem current_of_rest {s : ParserState} {later : List Token} (hrest : s.rest = token :: later) :
    s.current = token := by
  simp [current, tokenAt, hrest]

theorem current_relined {s : ParserState} {later : List Token} (hrest : s.rest = token :: later)
    (line : Bool) : (s.relined line).current = { token with newlineBefore := line } := by
  simp [current, tokenAt, relined, hrest]

theorem Blind.peek {f : Token → Parser β}
    (hline : ∀ line, f { token with newlineBefore := line } = f token)
    (hf : Blind token (f token)) : Blind token (Parser.peek >>= f) := by
  intro line later s hrest hhonest hsilent
  change (f s.current s).2.Silent at hsilent
  show _ ∧ f (s.relined line).current (s.relined line) = f s.current s ∨
    (f s.current s).2.rest = s.rest ∧ f (s.relined line).current (s.relined line) =
      ((f s.current s).1, (f s.current s).2.relined line)
  rw [current_of_rest hrest] at hsilent ⊢
  rw [current_relined hrest, hline]
  exact hf line later s hrest hhonest hsilent

theorem Blind.peekSecond {f : Token → Parser β} (hf : ∀ second, Blind token (f second)) :
    Blind token (Parser.peekSecond >>= f) := by
  intro line later s hrest hhonest hsilent
  have hsecond : (s.relined line).tokenAt 1 = s.tokenAt 1 := by simp [tokenAt, relined, hrest]
  have hrun := hf (s.tokenAt 1) line later s hrest hhonest hsilent
  show _ ∧ f ((s.relined line).tokenAt 1) (s.relined line) = f (s.tokenAt 1) s ∨
    (f (s.tokenAt 1) s).2.rest = s.rest ∧ f ((s.relined line).tokenAt 1) (s.relined line) = _
  rw [hsecond]
  exact hrun

/-- The token is consumed before anything is looked at. -/
def Eats (token : Token) (p : Parser α) : Prop :=
  ∀ (line : Bool) (later : List Token) (s : ParserState), s.rest = token :: later →
    p (s.relined line) = p s

theorem Eats.advance {f : Token → Parser β} (hcurrent : token.isEndOfFile = false)
    (hline : ∀ line, f { token with newlineBefore := line } = f token) :
    Eats token (Parser.advance >>= f) := by
  intro line later s hrest
  have hs : Parser.advance s = (token, s.skip 1) := by
    unfold Parser.advance
    rw [current_of_rest hrest, hcurrent]
    rfl
  have hrelined : Parser.advance (s.relined line) =
      ({ token with newlineBefore := line }, s.skip 1) := by
    have hskip : (s.relined line).skip 1 = s.skip 1 := by
      unfold ParserState.skip relined
      rw [hrest]
      rfl
    unfold Parser.advance
    rw [current_relined hrest, hskip,
      show Token.isEndOfFile { token with newlineBefore := line } = false from hcurrent]
    rfl
  show f (Parser.advance (s.relined line)).1 (Parser.advance (s.relined line)).2 =
    f (Parser.advance s).1 (Parser.advance s).2
  rw [hs, hrelined, hline]

theorem Eats.bind (hp : Eats token p) : Eats token (p >>= f) := by
  intro line later s hrest
  show f (p (s.relined line)).1 (p (s.relined line)).2 = f (p s).1 (p s).2
  rw [hp line later s hrest]

theorem Blind.eats (hstarts : token.kind.startsItem = true) (hp : Eats token p) : Blind token p :=
  fun line later s hrest _ _ => .inl ⟨hstarts, hp line later s hrest⟩

theorem Blind.acceptPunctuation {mark : Punctuation} {f : Bool → Parser β}
    (hmark : (TokenKind.punctuation mark).startsItem = true) (hf : Blind token (f false)) :
    Blind token (Parser.acceptPunctuation mark >>= f) := by
  unfold Parser.acceptPunctuation
  rw [accept_bind]
  apply Blind.peek (fun _ => rfl)
  split
  · rename_i hfound
    rw [Token.isPunctuation, beq_iff_eq] at hfound
    have hend : token.isEndOfFile = false := by
      rw [Token.isEndOfFile, hfound]
      rfl
    exact Blind.eats (by rw [hfound, hmark]) (Eats.advance hend fun _ => rfl)
  · exact hf

theorem Grows.iterateAlong {body : α → Parser (Turn α)} (hbody : ∀ v, Grows (body v))
    (turns : List Token) (v : α) : Grows (iterateAlong body turns v) := by
  induction turns generalizing v with
  | nil =>
      refine (hbody v).bind ?_
      rintro (last | last)
      · exact Grows.pure last
      · exact Grows.pure last
  | cons token turns ih =>
      refine (hbody v).bind ?_
      rintro (next | last)
      · exact ih next
      · exact Grows.pure last

theorem iterateAlong_congr {body : α → Parser (Turn α)} {turns turns' : List Token} {v : α}
    (hlength : turns.length = turns'.length) :
    iterateAlong body turns v = iterateAlong body turns' v := by
  induction turns generalizing turns' v with
  | nil =>
      cases turns' with
      | nil => rfl
      | cons _ _ => cases hlength
  | cons token turns ih =>
      cases turns' with
      | nil => cases hlength
      | cons token' turns' =>
          rw [iterateAlong, iterateAlong]
          congr 1
          funext turn
          cases turn with
          | again next => exact ih (Nat.succ.inj hlength)
          | done last => rfl

theorem Blind.iterate {body : α → Parser (Turn α)} (hgrows : ∀ v, Grows (body v))
    (hbody : ∀ v, Blind token (body v)) (v : α) : Blind token (Parser.iterate body v) := by
  have halong : ∀ turns v, Blind token (Parser.iterateAlong body turns v) := by
    intro turns
    induction turns with
    | nil =>
        intro v
        refine Blind.bind (hbody v) ?_ ?_
        · rintro (last | last)
          · exact ⟨hgrows v, Grows.pure last⟩
          · exact ⟨hgrows v, Grows.pure last⟩
        · rintro (last | last)
          · exact Blind.pure last
          · exact Blind.pure last
    | cons token turns ih =>
        intro v
        refine Blind.bind (hbody v) ?_ ?_
        · rintro (next | last)
          · exact ⟨hgrows v, Grows.iterateAlong hgrows turns next⟩
          · exact ⟨hgrows v, Grows.pure last⟩
        · rintro (next | last)
          · exact ih next
          · exact Blind.pure last
  intro line later s hrest hhonest hsilent
  have hsame : Parser.iterate body v (s.relined line) =
      Parser.iterateAlong body s.rest v (s.relined line) := by
    have hlength : (s.relined line).rest.length = s.rest.length := by simp [relined]
    show Parser.iterateAlong body (s.relined line).rest v (s.relined line) = _
    rw [iterateAlong_congr hlength]
  rw [hsame]
  exact halong s.rest v line later s hrest hhonest hsilent

/-! ### What an item starts with -/

/-- Silent runs start at a token that can start an item. -/
def Opens (p : Parser α) : Prop :=
  ∀ s, s.Honest → (p s).2.Silent → s.current.kind.startsItem = true

/-- Silent runs do nothing in front of a token that cannot start an item. -/
def Idle (p : Parser α) : Prop :=
  ∀ s, s.Honest → s.current.kind.startsItem = false → (p s).2.Silent → (p s).2 = s

theorem Opens.peek {f : Token → Parser β}
    (hf : ∀ token, token.kind.startsItem = false → Loud (f token)) :
    Opens (Parser.peek >>= f) := by
  intro s hhonest hsilent
  cases hstarts : s.current.kind.startsItem with
  | true => rfl
  | false => exact (hf s.current hstarts s hhonest hsilent).elim

theorem Opens.bind (hp : Opens p) (hgrows : ∀ a, Grows p ∧ Grows (f a)) : Opens (p >>= f) := by
  intro s hhonest hsilent
  obtain ⟨hhonest', -⟩ := (hgrows (p s).1).1 s hhonest
  exact hp s hhonest (((hgrows (p s).1).2 _ hhonest').2 hsilent)

/-- Behind what need not be there. -/
theorem Opens.behind (hp : Idle p) (hgrows : ∀ a, Grows p ∧ Grows (f a)) (hf : ∀ a, Opens (f a)) :
    Opens (p >>= f) := by
  intro s hhonest hsilent
  obtain ⟨hhonest', -⟩ := (hgrows (p s).1).1 s hhonest
  have hsilent' : (p s).2.Silent := ((hgrows (p s).1).2 _ hhonest').2 hsilent
  cases hstarts : s.current.kind.startsItem with
  | true => rfl
  | false =>
      have hrun : (f (p s).1 (p s).2).2.Silent := hsilent
      rw [hp s hhonest hstarts hsilent'] at hrun
      rw [← hstarts]
      exact hf _ s hhonest hrun

theorem Opens.refuses (hp : Opens p) : Refuses p := by
  intro s hhonest hsemi hsilent
  have hstarts := hp s hhonest hsilent
  rw [show s.current.kind = _ from hsemi] at hstarts
  cases hstarts

theorem silent_firstTurn {body : α → Parser (Turn α)} {v : α} {s : ParserState}
    (hgrows : ∀ v, Grows (body v)) (hhonest : s.Honest) (hsilent : (iterate body v s).2.Silent) :
    (body v s).2.Silent := by
  have hrun : ∀ g : Turn α → Parser α, (∀ turn, Grows (g turn)) →
      ((body v >>= g) s).2.Silent → (body v s).2.Silent :=
    fun g hg hall => (hg _ _ (hgrows v s hhonest).1).2 hall
  change (iterateAlong body s.rest v s).2.Silent at hsilent
  cases hrest : s.rest with
  | nil =>
      rw [hrest] at hsilent
      refine hrun _ ?_ hsilent
      rintro (last | last)
      · exact Grows.pure last
      · exact Grows.pure last
  | cons token turns =>
      rw [hrest] at hsilent
      refine hrun _ ?_ hsilent
      rintro (next | last)
      · exact Grows.iterateAlong hgrows turns next
      · exact Grows.pure last

theorem Idle.iterate {body : α → Parser (Turn α)} {v : α} (hgrows : ∀ v, Grows (body v))
    (hbody : ∀ s, s.Honest → s.current.kind.startsItem = false → (body v s).2.Silent →
      ∃ last, body v s = (.done last, s)) : Idle (Parser.iterate body v) := by
  intro s hhonest hstarts hsilent
  obtain ⟨last, hturn⟩ := hbody s hhonest hstarts (silent_firstTurn hgrows hhonest hsilent)
  rw [iterate_done (congrArg Prod.fst hturn), hturn]

/-! ### Statements -/

theorem Grows.docTurn (docs : Docs) : Grows (docTurn docs) :=
  (Agrees.docTurn (rfl : Alike Docs.shape docs docs)).grows

theorem Grows.preconditionTurn (found : List Precondition) : Grows (preconditionTurn found) :=
  (Agrees.preconditionTurn (rfl : Alike (List.map Precondition.shape) found found)).grows

theorem Loud.misplacedModuleDoc (range : SourceRange) (docs : Docs) : Loud (do
    Parser.report (SyntaxReport.misplacedModuleDoc range)
    let _ ← Parser.advance
    Pure.pure (Turn.again docs)) :=
  Loud.report_bind (fun _ => Grows.advance.bind fun _ => Grows.pure _) _

theorem Blind.docComments : Blind token docComments := by
  refine Blind.iterate Grows.docTurn (fun docs => Blind.peek (fun _ => rfl) ?_) _
  obtain ⟨kind, text, range, line⟩ := token
  dsimp only
  split
  · exact Blind.eats rfl (Eats.advance rfl fun _ => rfl)
  · exact Blind.loud (Loud.misplacedModuleDoc range docs)
  · exact Blind.pure _

theorem Idle.docComments : Idle docComments := by
  refine Idle.iterate Grows.docTurn fun s hhonest hstarts hsilent => ?_
  cases hcurrent : s.current with
  | mk kind text range line =>
      simp only [docTurn, bind, StateT.bind, Parser.peek, hcurrent] at hsilent ⊢
      rw [hcurrent] at hstarts
      cases kind with
      | docComment _ => cases hstarts
      | moduleDoc _ => exact (Loud.misplacedModuleDoc range .none s hhonest hsilent).elim
      | _ => exact ⟨.none, rfl⟩

theorem Blind.preconditions : Blind token preconditions :=
  Blind.iterate Grows.preconditionTurn (fun _ => Blind.peek (fun _ => rfl)
    (Blind.acceptPunctuation rfl (Blind.pure _))) _

theorem accept_of_starts {mark : Punctuation} {s : ParserState}
    (hmark : (TokenKind.punctuation mark).startsItem = true)
    (hstarts : s.current.kind.startsItem = false) : acceptPunctuation mark s = (false, s) := by
  refine accept_fails ?_
  cases hfound : s.current.isPunctuation mark with
  | false => rfl
  | true =>
      rw [Token.isPunctuation, beq_iff_eq] at hfound
      rw [hfound, hmark] at hstarts
      cases hstarts

theorem Idle.preconditions : Idle preconditions := by
  refine Idle.iterate Grows.preconditionTurn fun s _ hstarts _ => ⟨[], ?_⟩
  show (if (acceptPunctuation .at s).1 then _ else Pure.pure (Turn.done []) :
    Parser (Turn (List Precondition))) (acceptPunctuation .at s).2 = _
  rw [accept_of_starts rfl hstarts]
  rfl

theorem Blind.unattached (preconditions : List Precondition) (docs : Docs) :
    Blind token (unattached preconditions docs) := by
  cases preconditions with
  | cons first rest => exact Blind.loud (Loud.report _)
  | nil =>
      obtain ⟨lines, range⟩ := docs
      cases range with
      | none => exact Blind.pure ()
      | some range => exact Blind.loud (Loud.report _)

theorem Grows.unattached (preconditions : List Precondition) (docs : Docs) :
    Grows (unattached preconditions docs) :=
  (Same.unattached (rfl : Alike (List.map Precondition.shape) preconditions preconditions)
    (rfl : Alike Docs.shape docs docs)).grows

theorem Loud.skipForeign (word : ForeignWord) : Loud (skipForeign word) := by
  have hrest : ∀ _ : Unit, Grows (do
      let _ ← Parser.advance
      Parser.iterate (Parser.foreignPart word.shape) ()) := fun _ =>
    Grows.advance.bind fun _ => (Agrees.iterate rfl fun _ _ _ => Agrees.foreignPart word.shape).grows
  exact fun s hhonest => Loud.reportOnce_bind hrest _ s hhonest

theorem Token.startsItem_of_isOpenerWord {token : Token} (hword : token.isOpenerWord = true) :
    token.kind.startsItem = true := by
  obtain ⟨kind, text, range, line⟩ := token
  cases kind <;> first | exact hword | cases hword

section Block

variable {block : Parser (List Stmt)} (preconditions : List Precondition) (docs : Docs)

theorem Blind.bareStatement : Blind token (bareStatement block preconditions docs) := by
  have hunattached : Blind token (do
      Parser.unattached preconditions docs
      Pure.pure (none : Option (StmtHead → Stmt))) :=
    Blind.bind (Blind.unattached preconditions docs)
      (fun _ => ⟨Grows.unattached preconditions docs, Grows.pure none⟩) fun _ => Blind.pure none
  refine Blind.peek (fun _ => rfl) ?_
  obtain ⟨kind, text, range, line⟩ := token
  dsimp only
  split
  case h_1 => exact Blind.eats rfl (Eats.bind (Eats.advance rfl fun _ => rfl))
  case h_2 => exact Blind.eats rfl (Eats.bind (Eats.advance rfl fun _ => rfl))
  case h_3 =>
    split
    · exact Blind.loud ((Loud.skipForeign _).bind (Same.skipForeign _).grows fun _ => Grows.pure none)
    · refine Blind.eats rfl fun line' later s hrest => ?_
      have hdrop : (s.relined line').rest.drop 1 = s.rest.drop 1 := by simp [relined, hrest]
      have heats : ∀ isAssignment : Bool, Eats ⟨.identifier, text, range, line⟩
          (if isAssignment then assignment else node block) := by
        intro isAssignment
        split
        · exact Eats.advance rfl fun _ => rfl
        · exact Eats.advance rfl fun _ => rfl
      show (if Skip.assignmentFollows 0 ((s.relined line').rest.drop 1) then assignment
        else node block) (s.relined line') = _
      rw [hdrop]
      exact heats _ line' later s hrest
  case h_4 => exact hunattached
  case h_5 => exact hunattached
  case h_6 =>
    split
    · exact hunattached
    · exact Blind.loud (Loud.expectedWithHelp_bind
        (fun _ => Same.abandonStatement.grows.bind fun _ => Grows.pure none) _ _)

theorem Opens.bareStatement : Opens (bareStatement block preconditions docs) := by
  apply Opens.peek
  rintro token hstarts
  obtain ⟨kind, text, range, line⟩ := token
  dsimp only
  split
  case h_6 =>
    split
    · rename_i hword
      rw [Token.startsItem_of_isOpenerWord hword] at hstarts
      cases hstarts
    · exact Loud.expectedWithHelp_bind
        (fun _ => Same.abandonStatement.grows.bind fun _ => Grows.pure none) _ _
  all_goals cases hstarts

variable (hblock : Agrees block block (Alike Stmt.shapes))

theorem statement_eq (block : Parser (List Stmt)) :
    statement block = docComments >>= fun docs => Parser.preconditions >>= statementBehind block docs :=
  rfl

include hblock

theorem Grows.bareStatement : Grows (bareStatement block preconditions docs) :=
  (Agrees.bareStatement hblock (rfl : Alike (List.map Precondition.shape) preconditions preconditions)
    (rfl : Alike Docs.shape docs docs)).grows

omit hblock in
theorem Grows.finishStmt (start : SourceRange) (build : Option (StmtHead → Stmt)) :
    Grows (finishStmt docs preconditions start build) := by
  cases build with
  | none => exact Grows.pure none
  | some build => exact (Grows.rangeSince _).bind fun _ => (Grows.newStmt _ _).map

theorem Grows.statementBehind : Grows (statementBehind block docs preconditions) :=
  Grows.peek fun _ => (Grows.bareStatement preconditions docs hblock).bind fun build =>
    Grows.finishStmt preconditions docs _ build

theorem Blind.statement : Blind token (statement block) := by
  rw [statement_eq]
  have hbehind := fun docs preconditions => Grows.statementBehind preconditions docs hblock
  refine Blind.bind Blind.docComments (fun docs => ⟨Agrees.docComments.grows,
    Agrees.preconditions.grows.bind (hbehind docs)⟩) fun docs => ?_
  refine Blind.bind Blind.preconditions (fun preconditions => ⟨Agrees.preconditions.grows,
    hbehind docs preconditions⟩) fun preconditions => ?_
  refine Blind.peek (fun _ => rfl) (Blind.bind (Blind.bareStatement preconditions docs)
    (fun build => ⟨Grows.bareStatement preconditions docs hblock, Grows.finishStmt _ _ _ build⟩) ?_)
  rintro (_ | build)
  · exact Blind.pure none
  · exact Blind.still (fun _ => rfl) fun _ _ => rfl

theorem Opens.statementBehind : Opens (statementBehind block docs preconditions) := by
  have hopens : ∀ start, Opens (Parser.bareStatement block preconditions docs >>=
      Parser.finishStmt docs preconditions start) := fun start =>
    (Opens.bareStatement preconditions docs).bind fun build =>
      ⟨Grows.bareStatement preconditions docs hblock, Grows.finishStmt _ _ _ build⟩
  exact fun s => hopens _ s

/-- A statement behind its documentation. -/
theorem Opens.preconditions_bind :
    Opens (Parser.preconditions >>= Parser.statementBehind block docs) :=
  Opens.behind Idle.preconditions (fun preconditions => ⟨Agrees.preconditions.grows,
    Grows.statementBehind preconditions docs hblock⟩)
    fun preconditions => Opens.statementBehind preconditions docs hblock

theorem Opens.statement : Opens (statement block) := by
  rw [statement_eq]
  exact Opens.behind Idle.docComments (fun docs => ⟨Agrees.docComments.grows,
    Agrees.preconditions.grows.bind (Grows.statementBehind · docs hblock)⟩)
    (Opens.preconditions_bind · hblock)

end Block

/-! ### Declarations -/

theorem Blind.attributeHere : Blind token attributeHere :=
  Blind.peek (fun _ => rfl) (Blind.acceptPunctuation rfl (Blind.pure none))

theorem Idle.attributeHere : Idle attributeHere := by
  intro s _ hstarts _
  show ((if (acceptPunctuation .hash s).1 then _ else Pure.pure none :
    Parser (Option Attribute)) (acceptPunctuation .hash s).2).2 = s
  rw [accept_of_starts rfl hstarts]
  rfl

section Declarations

variable (docs : Docs) (attr : Option Attribute)

theorem Blind.plainDecl {parser : Parser (Option (DeclHead → Decl))} (hparser : Eats token parser)
    (hstarts : token.kind.startsItem = true) : Blind token (plainDecl parser docs attr) :=
  Blind.peek (fun _ => rfl) (Blind.eats hstarts (Eats.bind hparser))

theorem Loud.noDeclaration : Loud declarationAfter.noDeclaration :=
  Loud.expectedWithHelp_bind
    (fun _ => (Grows.synchronize _).bind fun _ => Grows.pure none) _ _

theorem Blind.declarationAfter (hend : token.isEndOfFile = false) :
    Blind token (declarationAfter docs attr) := by
  refine Blind.peek (fun _ => rfl) ?_
  obtain ⟨kind, text, range, line⟩ := token
  dsimp only
  split
  case h_1 =>
    split
    · exact Blind.loud ((Loud.skipForeign _).bind (Same.skipForeign _).grows fun _ => Grows.pure none)
    · exact Blind.loud Loud.noDeclaration
  case h_3 =>
    refine Blind.peekSecond fun second => ?_
    split
    · exact Blind.plainDecl docs attr (Eats.advance rfl fun _ => rfl) rfl
    · exact Blind.eats rfl (Eats.bind (Eats.advance rfl fun _ => rfl))
  case h_5 => exact Blind.plainDecl docs attr (Eats.bind (Eats.advance rfl fun _ => rfl)) rfl
  case h_6 => exact Blind.plainDecl docs attr (Eats.bind (Eats.advance rfl fun _ => rfl)) rfl
  case h_8 => cases hend
  case h_9 => exact Blind.loud Loud.noDeclaration
  all_goals exact Blind.plainDecl docs attr (Eats.advance rfl fun _ => rfl) rfl

theorem Opens.declarationAfter : Opens (declarationAfter docs attr) := by
  apply Opens.peek
  intro token hstarts
  obtain ⟨kind, text, range, line⟩ := token
  dsimp only
  split
  case h_9 => exact Loud.noDeclaration
  all_goals cases hstarts

theorem Grows.declarationAfter : Grows (declarationAfter docs attr) :=
  (Agrees.declarationAfter (rfl : Alike Docs.shape docs docs)
    (rfl : Alike (Option.map attributeShape) attr attr)).grows

end Declarations

theorem Blind.declaration (hend : token.isEndOfFile = false) : Blind token declaration :=
  Blind.bind Blind.docComments (fun docs => ⟨Agrees.docComments.grows,
    Agrees.attributeHere.grows.bind (Grows.declarationAfter docs)⟩) fun docs =>
  Blind.bind Blind.attributeHere (fun attr => ⟨Agrees.attributeHere.grows,
    Grows.declarationAfter docs attr⟩) fun attr => Blind.declarationAfter docs attr hend

theorem Opens.declaration : Opens declaration :=
  Opens.behind Idle.docComments (fun docs => ⟨Agrees.docComments.grows,
    Agrees.attributeHere.grows.bind (Grows.declarationAfter docs)⟩) fun docs =>
  Opens.behind Idle.attributeHere (fun attr => ⟨Agrees.attributeHere.grows,
    Grows.declarationAfter docs attr⟩) (Opens.declarationAfter docs)

/-! ### Items in a loop -/

/-- What steps over a token reports nothing by that. -/
theorem silent_of_orStepOver {exempt : Token → Bool} (hgrows : Grows p) {s : ParserState}
    (hhonest : s.Honest) (hsilent : (orStepOver p exempt s).2.Silent) : (p s).2.Silent := by
  change (if _ then _ else _ : α × ParserState).2.Silent at hsilent
  split at hsilent
  · exact (Grows.advance _ (hgrows s hhonest).1).2 hsilent
  · exact hsilent

theorem Opens.orStepOver {exempt : Token → Bool} (hp : Opens p) (hgrows : Grows p) :
    Opens (orStepOver p exempt) :=
  fun s hhonest hsilent => hp s hhonest (silent_of_orStepOver hgrows hhonest hsilent)

/-- Stepping over a token consumes it too. -/
theorem Blind.orStepOver {exempt : Token → Bool} (hend : token.isEndOfFile = false)
    (hexempt : ∀ line, exempt { token with newlineBefore := line } = exempt token)
    (hopens : Opens p) (hp : Blind token p)
    (hreaches : ∀ s : ParserState, s.Reaches (p s).2) : Blind token (orStepOver p exempt) := by
  have hrun : ∀ s, Parser.orStepOver p exempt s =
      if (p s).2.position = s.position ∧ !exempt (p s).2.current then
        ((p s).1, (Parser.advance (p s).2).2) else p s := fun _ => rfl
  intro line later s hrest hhonest hsilent
  have hgrows : Grows p := fun s hhonest => ⟨(hreaches s).honest hhonest, (hreaches s).silent hhonest⟩
  have hsilent' : (p s).2.Silent := silent_of_orStepOver hgrows hhonest hsilent
  obtain ⟨hstarts, hsame⟩ | ⟨hstill, hsame⟩ := hp line later s hrest hhonest hsilent'
  · refine .inl ⟨hstarts, ?_⟩
    rw [hrun, hrun, hsame]
    rfl
  · have hcurrent : (p s).2.current = token := current_of_rest (hstill.trans hrest)
    have hcurrent' : ((p s).2.relined line).current = { token with newlineBefore := line } :=
      current_relined (hstill.trans hrest) line
    have hsame' : exempt ((p s).2.relined line).current = exempt (p s).2.current := by
      rw [hcurrent, hcurrent', hexempt]
    have hposition : (p s).2.position = s.position := by
      apply Decidable.byContradiction
      intro hmoved
      have hless := (hreaches s).length_lt hmoved (by simp [hrest])
      rw [hstill] at hless
      exact Nat.lt_irrefl _ hless
    have hposition' : ((p s).2.relined line).position = (s.relined line).position := hposition
    rw [hrun, hrun, hsame, hsame']
    by_cases hstays : exempt (p s).2.current = true
    · refine .inr ⟨?_, ?_⟩
      · rw [if_neg (by simp [hstays])]
        exact hstill
      · rw [if_neg (by simp [hstays]), if_neg (by simp [hstays])]
    · have hstarts : token.kind.startsItem = true := by
        rw [← current_of_rest hrest]
        exact hopens s hhonest hsilent'
      refine .inl ⟨hstarts, ?_⟩
      rw [if_pos ⟨hposition, by simpa using hstays⟩, if_pos ⟨hposition', by simpa using hstays⟩]
      have hpasses := Eats.advance (f := fun _ => Pure.pure ()) hend (fun _ => rfl) line later
        (p s).2 (hstill.trans hrest)
      exact congrArg (fun run => ((p s).1, run.2)) hpasses

end Parser

end BehaviorTree
