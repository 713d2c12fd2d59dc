import BehaviorTree.Proofs.Parsing.Braces
import BehaviorTree.Proofs.Parsing.ForkedBlocks
import BehaviorTree.Proofs.Parsing.NamedStatements

/-!
# Foreign constructs

A construct of another language has a header and then a `;` or a group of braces, behind which an
`else` may start another part of it. Recovery skips exactly such a construct: the header with its
groups, then the braces by their number, then any parts that follow.
-/

namespace BehaviorTree

/-- The header of a construct. Its parentheses and square brackets are balanced, and none of its
tokens is one that ends a header. -/
inductive Header : List Token → Prop
  | nil : Header []
  | plain {token : Token} {tokens : List Token} :
      Skip.endsHeader token = false → token.closer? = none → token.closing? = none →
        Header tokens → Header (token :: tokens)
  | group {opening closing : Token} {inner later : List Token} {mark : Punctuation} :
      Skip.endsHeader opening = false → opening.closer? = some mark → Header inner →
        closing.kind = .punctuation mark → Header later →
        Header (opening :: (inner ++ closing :: later))

/-- The tokens of a construct behind the word that opens it. Of what a group of braces holds only the
braces are balanced. -/
inductive Construct (shape : ForeignShape) : List Token → Prop
  | terminated {header : List Token} {semi : Token} :
      Header header → semi.kind = .punctuation .semi → Construct shape (header ++ [semi])
  | block {header inner : List Token} {opening closing : Token} :
      Header header → opening.kind = .punctuation .lBrace → Braced inner →
        closing.kind = .punctuation .rBrace → Construct shape (header ++ opening :: (inner ++ [closing]))
  | orElse {header inner later : List Token} {opening closing word : Token} :
      shape = .conditional → Header header → opening.kind = .punctuation .lBrace → Braced inner →
        closing.kind = .punctuation .rBrace → word.kind = .identifier → word.text = "else" →
        Construct shape later →
        Construct shape (header ++ opening :: (inner ++ closing :: word :: later))

namespace Skip

theorem goes_of_header {token : Token} (hends : endsHeader token = false) :
    token.isEndOfFile = false := by
  simp only [endsHeader, Bool.or_eq_false_iff] at hends
  exact hends.1.1.1.1

theorem pendingBehind?_closing {opening closing : Token} {mark : Punctuation}
    (hopens : opening.closer? = some mark) (hclosing : closing.kind = .punctuation mark)
    (pending : List Punctuation) : pendingBehind? (mark :: pending) closing = some pending := by
  have hcloses := Token.closing?_of_closer? hopens hclosing
  simp [pendingBehind?, Token.closer?_eq_none_of_closing? hcloses, hcloses]

/-- A scan over a header with its groups gets to the end of it. -/
theorem headerIn_header {tokens : List Token} (h : Header tokens) (pending : List Punctuation)
    (rest : List Token) : headerIn pending (tokens ++ rest) = tokens.length + headerIn pending rest := by
  induction h generalizing pending rest with
  | nil => simp
  | @plain token tokens hends hopens hcloses _ ih =>
      rw [List.cons_append, headerIn, if_neg (by simp [goes_of_header hends]), List.length_cons]
      cases pending with
      | nil =>
          simp only [pendingBehind?, hends, hopens, Bool.false_eq_true, if_false, Option.toList_none]
          rw [ih]
          omega
      | cons innermost outer =>
          simp only [pendingBehind?, hopens, hcloses]
          rw [ih]
          omega
  | @group opening closing inner later mark hends hopens _ hclosing _ ihinner ihlater =>
      have hbehind : headerIn (mark :: pending) (inner ++ closing :: (later ++ rest)) =
          inner.length + 1 + (later.length + headerIn pending rest) := by
        rw [ihinner, headerIn, if_neg (by simp [Token.isEndOfFile, hclosing]),
          pendingBehind?_closing hopens hclosing]
        dsimp only
        rw [ihlater]
        omega
      rw [List.cons_append, List.append_assoc, List.cons_append, headerIn,
        if_neg (by simp [goes_of_header hends])]
      cases pending with
      | nil =>
          simp only [pendingBehind?, hends, hopens, Bool.false_eq_true, if_false, Option.toList_some]
          rw [hbehind]
          simp only [List.length_cons, List.length_append]
          omega
      | cons innermost outer =>
          simp only [pendingBehind?, hopens]
          rw [hbehind]
          simp only [List.length_cons, List.length_append]
          omega

theorem header_eq {tokens rest : List Token} {next : Token} (h : Header tokens)
    (hends : endsHeader next = true) : header (tokens ++ next :: rest) = tokens.length := by
  rw [header, headerIn_header h, headerIn]
  simp [pendingBehind?, hends]

end Skip

namespace Parser

open ParserState

variable {s : ParserState} {shape : ForeignShape} {header inner rest : List Token}
  {opening closing semi : Token}

/-- Whether a token starts another part of a construct. -/
def goesOn (shape : ForeignShape) (token : Token) : Prop :=
  shape = .conditional ∧ token.isIdentifier = true ∧ token.text = "else"

instance (shape : ForeignShape) (token : Token) : Decidable (goesOn shape token) :=
  inferInstanceAs (Decidable (_ ∧ _))

theorem foreignPart_terminated (shape : ForeignShape) (hheader : Header header)
    (hsemi : semi.kind = .punctuation .semi)
    (hrest : s.rest = header ++ semi :: rest) :
    foreignPart shape () s = (.done (), s.skip (header ++ [semi]).length) := by
  have hcount : Skip.header s.rest = header.length := by
    rw [hrest]
    exact Skip.header_eq hheader (by simp [Skip.endsHeader, Token.isPunctuation, hsemi])
  have hbehind : (s.skip header.length).rest = semi :: rest := by
    show s.rest.drop header.length = _
    rw [hrest, List.drop_left]
  have hcurrent : (s.skip header.length).current = semi := current_of_rest hbehind
  have haccept : acceptPunctuation .semi (s.skip header.length) =
      (true, s.skip (header ++ [semi]).length) := by
    rw [acceptPunctuation, accept_passes (by simp [hcurrent, Token.isPunctuation, hsemi]),
      advance_of_goes (by simp [hcurrent, Token.isEndOfFile, hsemi]), skip_skip, List.length_append]
    rfl
  show (if (s.skip (Skip.header s.rest)).current.isPunctuation .lBrace then _ else _ :
    Parser (Turn Unit)) (s.skip (Skip.header s.rest)) = _
  rw [hcount, hcurrent, if_neg (by simp [Token.isPunctuation, hsemi])]
  show ((.done (), (acceptPunctuation .semi (s.skip header.length)).2) : Turn Unit × ParserState) = _
  rw [haccept]

theorem foreignPart_block (shape : ForeignShape) (hheader : Header header)
    (hopening : opening.kind = .punctuation .lBrace) (hinner : Braced inner)
    (hclosing : closing.kind = .punctuation .rBrace)
    (hrest : s.rest = header ++ opening :: (inner ++ closing :: rest)) :
    let behind := s.skip (header ++ opening :: (inner ++ [closing])).length
    foreignPart shape () s =
      if goesOn shape behind.current then (.again (), (advance behind).2) else (.done (), behind) := by
  intro behind
  have hcount : Skip.header s.rest = header.length := by
    rw [hrest]
    exact Skip.header_eq hheader (by simp [Skip.endsHeader, Token.isPunctuation, hopening])
  have hthere : (s.skip header.length).rest = opening :: (inner ++ closing :: rest) := by
    show s.rest.drop header.length = _
    rw [hrest, List.drop_left]
  have hbehind : (s.skip header.length).skip (Skip.block (s.skip header.length).rest) = behind := by
    rw [hthere, Skip.block_braced hopening hinner hclosing, skip_skip]
    simp only [behind, List.length_append, List.length_cons, List.length_nil]
  show (if (s.skip (Skip.header s.rest)).current.isPunctuation .lBrace then _ else _ :
    Parser (Turn Unit)) (s.skip (Skip.header s.rest)) = _
  rw [hcount, current_of_rest hthere, if_pos (by simp [Token.isPunctuation, hopening])]
  show (if goesOn shape ((s.skip header.length).skip (Skip.block (s.skip header.length).rest)).current
    then _ else _ : Parser (Turn Unit))
      ((s.skip header.length).skip (Skip.block (s.skip header.length).rest)) = _
  rw [hbehind]
  split <;> rfl

/-- **Foreign constructs are skipped exactly.** -/
theorem iterate_foreignPart {tokens : List Token} {next : Token} (h : Construct shape tokens)
    (hsealed : s.Sealed) (hrest : s.rest = tokens ++ next :: rest) (hends : ¬goesOn shape next) :
    iterate (foreignPart shape) () s = ((), s.skip tokens.length) := by
  induction h generalizing s with
  | terminated hheader hsemi =>
      rw [List.append_assoc] at hrest
      have hturn := foreignPart_terminated shape hheader hsemi hrest
      rw [iterate_done (congrArg Prod.fst hturn), hturn]
  | @block header inner opening closing hheader hopening hinner hclosing =>
      have hbehind : (s.skip (header ++ opening :: (inner ++ [closing])).length).current = next := by
        have hdrop : (s.skip (header ++ opening :: (inner ++ [closing])).length).rest = next :: rest := by
          show s.rest.drop _ = _
          rw [hrest, List.drop_left]
        exact current_of_rest hdrop
      rw [List.append_assoc, List.cons_append, List.append_assoc] at hrest
      have hturn := foreignPart_block shape hheader hopening hinner hclosing hrest
      dsimp only at hturn
      rw [hbehind, if_neg hends] at hturn
      rw [iterate_done (congrArg Prod.fst hturn), hturn]
  | @orElse header inner later opening closing word hshape hheader hopening hinner hclosing hword
      hspelled _ ih =>
      let passed := header ++ opening :: (inner ++ [closing])
      have hsplit : s.rest = passed ++ word :: (later ++ next :: rest) := by simp [passed, hrest]
      have hbehind : (s.skip passed.length).rest = word :: (later ++ next :: rest) := by
        show s.rest.drop _ = _
        rw [hsplit, List.drop_left]
      have hcurrent : (s.skip passed.length).current = word := current_of_rest hbehind
      have hturn : foreignPart shape () s = (.again (), s.skip (passed.length + 1)) := by
        have hwhole :
            s.rest = header ++ opening :: (inner ++ closing :: word :: (later ++ next :: rest)) := by
          simp [hrest]
        have hgoes : (s.skip passed.length).current.isEndOfFile = false := by
          simp [hcurrent, Token.isEndOfFile, hword]
        rw [foreignPart_block shape hheader hopening hinner hclosing hwhole, hcurrent,
          if_pos ⟨hshape, by simp [Token.isIdentifier, hword], hspelled⟩, advance_of_goes hgoes, skip_skip]
      have hsealed' : (s.skip (passed.length + 1)).Sealed := by
        have hreached := (Driven.foreignPart shape () s).reached
        rw [hturn] at hreached
        exact hreached.sealed hsealed
      have hrest' : (s.skip (passed.length + 1)).rest = later ++ next :: rest := by
        rw [← skip_skip]
        show (s.skip passed.length).rest.drop 1 = _
        rw [hbehind]
        rfl
      rw [iterate_eq (.foreignPart shape) hsealed, hturn]
      show iterate (foreignPart shape) () (s.skip (passed.length + 1)) = _
      rw [ih hsealed' hrest', skip_skip]
      congr 2
      simp only [passed, List.length_append, List.length_cons, List.length_nil]
      omega

/-- Behind the word that opens it a construct is skipped, and one report is made, at the word. -/
theorem skipForeign_construct {word : ForeignWord} {tokens : List Token} {next : Token}
    (hquiet : s.Quiet) (hname : s.current.kind = .identifier) (h : Construct word.shape tokens)
    (hrest : s.rest = s.current :: (tokens ++ next :: rest)) (hends : ¬goesOn word.shape next) :
    skipForeign word s = ((), (s.reportOnce (SyntaxReport.foreignWord word s.current.range)).skip
      (s.current :: tokens).length) := by
  let reported := s.reportOnce (SyntaxReport.foreignWord word s.current.range)
  have hbeside : reported.Beside s := s.beside_reportOnce _
  have hgoes : reported.current.isEndOfFile = false := by
    rw [hbeside.current]
    simp [Token.isEndOfFile, hname]
  have hadvance : (advance reported).2 = reported.skip 1 := advance_of_goes hgoes
  have hsealed : (reported.skip 1).Sealed := by
    rw [← hadvance]
    exact (Runs.advance reported).sealed (hquiet.sealed.beside hbeside)
  have hbehind : (reported.skip 1).rest = tokens ++ next :: rest := by
    show reported.rest.drop 1 = _
    rw [hbeside.rest, hrest]
    rfl
  show iterate (foreignPart word.shape) () (advance reported).2 = _
  rw [hadvance, iterate_foreignPart h hsealed hbehind hends, skip_skip, List.length_cons,
    Nat.add_comm 1]

/-! ### Where items start -/

theorem statement_foreign {word : ForeignWord} (hname : s.current.kind = .identifier)
    (hword : ForeignWord.ofSpelling? s.current.text = some word) :
    statement block s = (none, (skipForeign word s).2) := by
  rw [statement_named hname]
  show finishStmt _ _ _ (bareStatement block [] Docs.none s).1 (bareStatement block [] Docs.none s).2 = _
  have hbare : bareStatement block [] Docs.none s = (none, (skipForeign word s).2) := by
    unfold bareStatement
    rw [peek_bind, hname]
    dsimp only
    rw [hword]
    rfl
  rw [hbare]
  rfl

theorem declaration_foreign {word : ForeignWord} (hname : s.current.kind = .identifier)
    (hword : ForeignWord.ofSpelling? s.current.text = some word) :
    declaration s = (none, (skipForeign word s).2) := by
  have hdocs : docComments s = (Docs.none, s) := docComments_eq (by simp [hname]) (by simp [hname])
  have hattr : attributeHere s = (none, s) := by
    unfold attributeHere
    rw [peek_bind, acceptPunctuation_bind (by simp [hname])]
    rfl
  unfold declaration
  rw [bind_eq hdocs, bind_eq hattr]
  unfold declarationAfter
  rw [peek_bind, hname]
  dsimp only
  rw [hword]
  rfl

end Parser

end BehaviorTree

/-!
## Runs that come together again

One stream has a foreign construct between two items, the other one has not. Up to the construct the
runs are the same. There the loop that the items belong to has one more turn, which skips the
construct and reports it, and from then on the runs agree, up to the end of the file.
-/

namespace BehaviorTree.Parser

open ParserState

variable {α : Type} {body : α → Parser (Turn α)} {rel : α → α → Prop} {v w : α} {s t u : ParserState}
  {k : Fork} {books : Books} {word : Token} {foreign : ForeignWord} {construct : List Token}

/-- A run on the left ends where the fork is, and it is the same on the right, or it ends behind the
fork, and there the runs have come together again. -/
def Rejoins (k : Fork) (books : Books) (rel : α → α → Prop) (p : Parser α) (s : ParserState) : Prop :=
  (p s).2.rest = k.left ∧ p (k.switch s) = ((p s).1, k.switch (p s).2) ∨
    rel (p (k.switch s)).1 (p s).1 ∧ Twins books (p (k.switch s)).2 (p s).2

/-- On the right there is a foreign construct in front of what comes on the left. -/
structure Inserts (k : Fork) (word : Token) (foreign : ForeignWord) (construct : List Token) : Prop where
  right : k.right = word :: (construct ++ k.left)
  name : word.kind = .identifier
  spelled : ForeignWord.ofSpelling? word.text = some foreign
  construct : Construct foreign.shape construct

/-- The report on the construct, and the tokens that only the run on the right consumes. -/
abbrev constructBooks (word : Token) (foreign : ForeignWord) (construct : List Token) : Books :=
  .behind [SyntaxReport.foreignWord foreign word.range] (word :: construct).length

/-! ### Skipping the construct -/

theorem Inserts.current (h : Inserts k word foreign construct) (hrest : u.rest = k.left) :
    (k.switch u).current = word :=
  current_of_rest ((rest_switch hrest).trans h.right)

theorem Inserts.twins (h : Inserts k word foreign construct) (hquiet : u.Quiet)
    (hbegun : 0 < u.position) (hrest : u.rest = k.left) (hfinal : u.final.blank = k.final.blank)
    (hends : ¬goesOn foreign.shape u.current) :
    Twins (constructBooks word foreign construct) (skipForeign foreign (k.switch u)).2 u := by
  have hcurrent := h.current hrest
  have hquiet' := quiet_switch (k := k) hquiet (sealed_switch hrest)
  have hleft : k.left = u.current :: u.rest.drop 1 := by
    rw [← hrest]
    exact hquiet.sealed.rest_eq
  have hswitch : (k.switch u).rest = (k.switch u).current :: (construct ++ u.current :: u.rest.drop 1) := by
    rw [rest_switch hrest, hcurrent, h.right, ← hleft]
  rw [skipForeign_construct hquiet' (by rw [hcurrent, h.name]) h.construct hswitch hends, hcurrent]
  generalize hreport : SyntaxReport.foreignWord foreign word.range = report
  have hreported : (k.switch u).reportOnce report =
      { (k.switch u).report report with reportedAt := some u.position } := by
    have hgate : (k.switch u).reportedAt = none := hquiet'.gate
    rw [ParserState.reportOnce, if_neg (by simp [hgate])]
    rfl
  rw [hreported]
  refine ⟨congrArg (List.map Token.blank) ?_, hfinal.symm, ?_, ⟨hbegun, Nat.lt_add_right _ hbegun⟩,
    fun _ => hquiet.gate, fun _ => ?_⟩
  · show (k.switch u).rest.drop (word :: construct).length = u.rest
    rw [rest_switch hrest, h.right, hrest, ← List.cons_append, List.drop_left]
  · exact rfl
  · show (k.switch u).diagnostics ++ [report] = _
    rw [show (k.switch u).diagnostics = [] from hquiet.silent, hreport]
    rfl

/-- A silent run meets no word that could go on a construct. -/
theorem not_goesOn {shape : ForeignShape} (htakes : ∀ foreign,
      ForeignWord.ofSpelling? s.current.text = some foreign → s.current.kind ≠ .identifier) :
    ¬goesOn shape s.current := by
  rintro ⟨-, hname, htext⟩
  have hsome : (ForeignWord.ofSpelling? s.current.text).isSome = true := by
    rw [htext]
    decide
  obtain ⟨foreign, hforeign⟩ := Option.isSome_iff_exists.mp hsome
  exact htakes foreign hforeign (by simpa [Token.isIdentifier] using hname)

/-! ### Loops over items -/

/-- A loop over items, in which a foreign construct is skipped in a turn of its own. -/
structure ItemLoop (body : α → Parser (Turn α)) (rel : α → α → Prop) : Prop where
  driven : Driven body
  near : ∀ v, Nearsighted (body v)
  foreign : ∀ v s foreign, s.Sealed → s.current.kind = .identifier →
    ForeignWord.ofSpelling? s.current.text = some foreign →
      body v s = (.again v, (skipForeign foreign s).2)
  agrees : ∀ v v', rel v v' → Agrees (body v) (body v') (Turn.Agrees rel)
  refl : ∀ v, rel v v

theorem ItemLoop.stmts (opening : SourceRange) :
    ItemLoop (blockTurn (statement block) opening) (Alike Stmt.shapes) where
  driven := .statements opening
  near := Nearsighted.blockTurn .block opening
  foreign v s foreign hsealed hname hforeign := by
    have hword : s.current.isOpenerWord = false := by
      simp [Token.isOpenerWord, Token.keyword?, TokenKind.keyword?, hname]
    rw [blockTurn_goes hsealed (by simp [Token.isPunctuation, hname])
      (by simp [breaksBlock, Token.isEndOfFile, hname, hword]), statement_foreign hname hforeign]
    simp
  agrees _ _ := Agrees.blockTurn (Agrees.statement Agrees.block)
  refl _ := rfl

theorem ItemLoop.decls : ItemLoop programTurn (Alike (List.map Decl.shape)) where
  driven := .programTurn
  near := .programTurn
  foreign v s foreign hsealed hname hforeign := by
    rw [programTurn_goes hsealed (by simp [Token.isEndOfFile, hname]), declaration_foreign hname hforeign]
    simp
  agrees _ _ := Agrees.programTurn
  refl _ := rfl

/-- Where the construct is inserted the loop takes one more turn and goes on as it would without. -/
theorem ItemLoop.resume (hbody : ItemLoop body rel) (h : Inserts k word foreign construct)
    (hquiet : u.Quiet) (hsilent : (iterate body v u).2.Silent) (hbegun : 0 < u.position)
    (hrest : u.rest = k.left) (hfinal : u.final.blank = k.final.blank) :
    rel (iterate body v (k.switch u)).1 (iterate body v u).1 ∧
      Twins (constructBooks word foreign construct) (iterate body v (k.switch u)).2
        (iterate body v u).2 := by
  have hends : ¬goesOn foreign.shape u.current := by
    refine not_goesOn fun foreign hforeign hname => ?_
    have hturn := hbody.foreign v u foreign hquiet.sealed hname hforeign
    have hloop := (Loop.iterate (v := v) hbody.driven hquiet.sealed).behind hbody.driven
    have hskip : (skipForeign foreign u).2.Silent := by
      rw [hturn] at hloop
      exact hloop.silent hsilent
    exact Delivers.skipForeign.quietly hquiet hskip
  have hcurrent := h.current hrest
  have hturn := hbody.foreign v (k.switch u) foreign (sealed_switch hrest) (by rw [hcurrent, h.name])
    (by rw [hcurrent, h.spelled])
  rw [iterate_eq hbody.driven (sealed_switch hrest), hturn]
  exact Agrees.iterate (hbody.refl v) hbody.agrees _ _ _
    (h.twins hquiet hbegun hrest hfinal hends)

/-- **Loops rejoin.** If the turn at the fork rejoins, so does the loop. -/
theorem ItemLoop.rejoins (hbody : ItemLoop body rel) (h : Inserts k word foreign construct)
    (hsilent : (iterate body v s).2.Silent) (hfinal : s.final.blank = k.final.blank)
    (hmeets : MeetsFork k body v s w u)
    (hturn : Rejoins k (constructBooks word foreign construct) (Turn.Agrees rel) (body w) u) :
    Rejoins k (constructBooks word foreign construct) rel (iterate body v) s := by
  have hleft := iterate_eq (v := w) hbody.driven hmeets.quiet.sealed
  have hright := iterate_eq (v := w) hbody.driven hmeets.before.switch_sealed
  unfold Rejoins
  rw [hmeets.left] at hsilent ⊢
  rw [hmeets.right]
  rcases hturn with ⟨hrest, hsame⟩ | ⟨hrel, htwins⟩
  · rw [hsame] at hright
    rw [hleft] at hsilent ⊢
    rw [hright]
    cases hasked : (body w u).1 with
    | done last =>
        rw [hasked] at hsilent
        exact .inl ⟨hrest, rfl⟩
    | again next =>
        rw [hasked] at hsilent
        have hreached := (hbody.driven w u).reached
        have hend : (body w u).2.final.blank = k.final.blank := by
          have honward := (hmeets.turns.onward hbody.near).trans ((hbody.near w).onward u)
          rw [honward.final, hfinal]
        refine .inr (hbody.resume h hmeets.behind hsilent ?_ hrest hend)
        exact hmeets.before.begun hreached hrest
  · rw [hleft, hright]
    right
    revert hrel
    generalize (body w u).1 = turn
    generalize (body w (k.switch u)).1 = turn'
    intro hrel
    cases turn with
    | done last =>
        cases turn' with
        | done last' => exact ⟨hrel, htwins⟩
        | again _ => cases hrel
    | again next =>
        cases turn' with
        | done _ => cases hrel
        | again next' =>
            have hvalues : rel next' next := hrel
            exact Agrees.iterate hvalues hbody.agrees _ _ _ htwins

/-! ### Items -/

/-- What is made of a block that rejoins rejoins. -/
theorem Within.rejoins {p : Parser (Option α)} {shape : α → α} {finish : List Stmt → Parser (Option α)}
    (hwithin : Within k p s finish t) (hfinish : Finishes shape finish) (hsilent : (p s).2.Silent)
    (h : Inserts k word foreign construct) (hblock : Rejoins k books (Alike Stmt.shapes) block t) :
    Rejoins k books (Alike (Option.map shape)) p s := by
  rcases hblock with ⟨hrest, hsame⟩ | ⟨hshapes, htwins⟩
  · left
    have hleft : p s = finish (block t).1 (block t).2 := hwithin.left
    have hright : p (k.switch s) = finish (block t).1 (k.switch (block t).2) := by
      rw [hwithin.right]
      show finish (block (k.switch t)).1 (block (k.switch t)).2 = _
      rw [hsame]
    refine ⟨hwithin.still.trans hrest, ?_⟩
    rw [hright, hleft]
    rw [hleft] at hsilent
    exact hfinish.same k _ _ hwithin.behind hsilent (by
      rw [h.current hrest]
      simp [Token.isPunctuation, h.name])
  · right
    rw [hwithin.left, hwithin.right]
    exact hfinish.alike _ _ hshapes _ _ _ htwins

/-- A statement that rejoins in a turn of its block. -/
theorem Rejoins.blockTurn {opening : SourceRange} {stmts : List Stmt} (hquiet : s.Quiet)
    (hbefore : k.Before s) (hopen : s.current.isPunctuation .rBrace = false)
    (hgoes : breaksBlock s.current = false)
    (hstatement : Rejoins k books (Alike (Option.map Stmt.shape)) (statement Parser.block) s) :
    Rejoins k books (Turn.Agrees (Alike Stmt.shapes))
      (Parser.blockTurn (statement Parser.block) opening stmts) s := by
  unfold Rejoins
  rw [blockTurn_goes hquiet.sealed hopen hgoes, blockTurn_goes hbefore.switch_sealed
    (by rw [hbefore.current, hopen]) (by rw [hbefore.current, hgoes])]
  rcases hstatement with ⟨hrest, hsame⟩ | ⟨hshape, htwins⟩
  · exact .inl ⟨hrest, by rw [hsame]⟩
  · refine .inr ⟨?_, htwins⟩
    unfold Alike at hshape
    simp only [Turn.Agrees, Alike, Stmt.shapes_eq_map, List.map_append, ← Option.toList_map, hshape]

theorem Rejoins.programTurn {decls : List Decl} (hquiet : s.Quiet) (hbefore : k.Before s)
    (hgoes : s.current.isEndOfFile = false)
    (hdeclaration : Rejoins k books (Alike (Option.map Decl.shape)) declaration s) :
    Rejoins k books (Turn.Agrees (Alike (List.map Decl.shape))) (Parser.programTurn decls) s := by
  unfold Rejoins
  rw [programTurn_goes hquiet.sealed hgoes, programTurn_goes hbefore.switch_sealed
    (by rw [hbefore.current, hgoes])]
  rcases hdeclaration with ⟨hrest, hsame⟩ | ⟨hshape, htwins⟩
  · exact .inl ⟨hrest, by rw [hsame]⟩
  · refine .inr ⟨?_, htwins⟩
    unfold Alike at hshape
    simp only [Turn.Agrees, Alike, List.map_append, ← Option.toList_map, hshape]

end BehaviorTree.Parser
