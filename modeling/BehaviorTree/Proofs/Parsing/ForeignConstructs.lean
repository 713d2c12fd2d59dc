import BehaviorTree.Proofs.Parsing.Constructs

/-!
# Foreign constructs cost one report

A construct of another language between two items of a faultless file is reported once, at the word
that opens it, and the program is the one of the file without it.
-/

namespace BehaviorTree

namespace Parser

open ParserState

variable {s t u : ParserState} {k : Fork} {word : Token} {foreign : ForeignWord}
  {construct : List Token}

/-! ### Blocks -/

/-- A block rejoins whose blocks inside do. -/
theorem Rejoins.blockAround (h : Inserts k word foreign construct)
    (hinner : ∀ t : ParserState, t.rest.length < s.rest.length → t.Quiet → (block t).2.Silent →
      t.current.kind = .punctuation .lBrace → k.Before t → k.Between t.rest →
      t.final.blank = k.final.blank → (block t).2.rest.length ≤ k.left.length →
        Rejoins k (constructBooks word foreign construct) (Alike Stmt.shapes) block t)
    (hquiet : s.Quiet) (hsilent : (block s).2.Silent)
    (hbrace : s.current.kind = .punctuation .lBrace) (hbefore : k.Before s)
    (hbetween : k.Between s.rest) (hfinal : s.final.blank = k.final.blank)
    (hpassed : (block s).2.rest.length ≤ k.left.length) :
    Rejoins k (constructBooks word foreign construct) (Alike Stmt.shapes) block s := by
  have hloop := ItemLoop.stmts s.current.range
  have hadvance := reached_opening hbrace
  have hleft := block_loop hquiet.sealed.ended hbrace
  have hright := block_switch hbefore hbrace
  unfold Rejoins
  rcases Nat.lt_or_ge k.left.length (s.skip 1).rest.length with hinside | hhere
  · obtain ⟨stmts, u, hmeets, hpasses⟩ :=
      MeetsFork.getsPast hquiet hsilent hbrace hbefore hbetween hinside hpassed
    have hthere : k.Before (s.skip 1) := hbefore.behind (s.onward_skip 1) hinside
    rw [Fork.switch_skip hthere] at hright
    rw [hleft, hright]
    rw [hleft] at hsilent
    refine hloop.rejoins h hsilent hfinal hmeets ?_
    cases hpasses with
    | closed hclosing =>
        have hlast := hmeets.passed
        rw [blockTurn_closed hclosing] at hlast
        have hfork := hmeets.before.skip_one hlast
        left
        rw [blockTurn_closed hclosing, blockTurn_closed (by rw [hmeets.before.current, hclosing]),
          hmeets.before.switch_skip hfork]
        exact ⟨hfork, rfl⟩
    | behind hopen hgoes hrest _ hsame =>
        exact .blockTurn hmeets.quiet hmeets.before hopen hgoes (.inl ⟨hrest, hsame⟩)
    | within hopen hgoes hends hwithin hbehind hlength hshorter hend =>
        refine .blockTurn hmeets.quiet hmeets.before hopen hgoes ?_
        refine hwithin.rejoins hends.finishes hbehind.silent h ?_
        exact hinner _ hshorter hwithin.quiet hwithin.behind.silent hwithin.brace hwithin.before
          hwithin.between (hend ▸ hfinal) hlength
  · -- The construct is in front of the first statement.
    have hrest := hbefore.skip_one hhere
    rw [hbefore.switch_skip hrest] at hright
    rw [hleft, hright]
    rw [hleft] at hsilent
    have hreached := (Loop.iterate (v := []) hloop.driven
      (hadvance.sealed hquiet.sealed)).reached hloop.driven
    exact .inr (hloop.resume h (hadvance.quiet hquiet (hreached.silent hsilent)) hsilent
      (hbefore.begun hadvance hrest) hrest hfinal)

theorem Rejoins.block (h : Inserts k word foreign construct) (hquiet : s.Quiet)
    (hsilent : (Parser.block s).2.Silent) (hbrace : s.current.kind = .punctuation .lBrace)
    (hbefore : k.Before s) (hbetween : k.Between s.rest) (hfinal : s.final.blank = k.final.blank)
    (hpassed : (Parser.block s).2.rest.length ≤ k.left.length) :
    Rejoins k (constructBooks word foreign construct) (Alike Stmt.shapes) Parser.block s := by
  induction hlength : s.rest.length using Nat.strongRecOn generalizing s with
  | ind length ih =>
      refine .blockAround h (fun t hshorter hquiet hsilent hbrace hbefore hbetween hfinal hpassed => ?_)
        hquiet hsilent hbrace hbefore hbetween hfinal hpassed
      exact ih t.rest.length (by omega) hquiet hsilent hbrace hbefore hbetween hfinal hpassed rfl

/-! ### Programs -/

/-- In a declaration all square brackets are closed. -/
theorem declaration_balanced (hquiet : s.Quiet) (hsilent : (declaration s).2.Silent)
    (hgoes : s.current.isEndOfFile = false) : ∃ tokens, s.rest = tokens ++ (declaration s).2.rest ∧
      Token.openings tokens = Token.closings tokens := by
  rcases (Crosses.declaration hquiet hsilent hgoes).quietly hquiet hsilent with
    ⟨-, hclosing⟩ | ⟨finish, t, tokens, made, hplan, hstretch, hopening⟩
  · obtain ⟨tokens, semi, made, hstretch, hwalk, hsemi⟩ := hclosing.item
    refine ⟨tokens ++ [semi], hstretch.rest, ?_⟩
    rw [Token.balanced_append hwalk.balanced, Token.balanced_cons (by rw [hsemi]; rfl)]
    rfl
  · have hfinishes := hplan.finishes
    have hquiet' := hopening.quiet hstretch hquiet hsilent hfinishes.grows
    rw [hopening.run] at hsilent ⊢
    have hbehind : (block t).2.Quiet :=
      Runs.quiet (.ofRespects fun _ => .block) hfinishes.grows hquiet' hsilent
    obtain ⟨inner, closing, hrest, hinner, hclosing⟩ :=
      block_items hquiet' hbehind.silent hopening.brace
    have hstill : ((block >>= finish) t).2.rest = (block t).2.rest :=
      hfinishes.still (block t).1 (block t).2 hbehind hsilent
    refine ⟨tokens ++ t.current :: (inner ++ [closing]), ?_, ?_⟩
    · rw [hstretch.rest, hrest, hstill]
      simp
    · obtain ⟨before, _, rfl, hbefore, _, _, _, ⟨word, name, header, _, rfl, hword, hname, hheader, -⟩, -⟩ :=
        hplan
      rw [List.append_assoc, Token.balanced_append hbefore.balanced, List.cons_append, List.cons_append,
        Token.balanced_cons (by rw [hword]; rfl), Token.balanced_cons (by rw [hname]; rfl),
        Token.balanced_append hheader.balanced, Token.balanced_cons (by rw [hopening.brace]; rfl),
        Token.balanced_append hinner.balanced, Token.balanced_cons (by rw [hclosing]; rfl)]
      rfl

theorem Turns.balanced {decls decls' : List Decl} (h : Turns programTurn decls s decls' u)
    (hquiet : s.Quiet) (hsilent : u.Silent) :
    ∃ tokens, s.rest = tokens ++ u.rest ∧ Token.openings tokens = Token.closings tokens := by
  induction h with
  | nothing decls s => exact ⟨[], rfl, rfl⟩
  | @again decls next _ s _ hagain hlater ih =>
      have hbehind := (Driven.programTurn decls s).reached.quiet hquiet
        ((hlater.reached .programTurn).silent hsilent)
      cases hgoes : s.current.isEndOfFile with
      | true =>
          rw [programTurn_ended hgoes] at hagain
          cases hagain
      | false =>
          rw [programTurn_goes hquiet.sealed hgoes] at hbehind ih
          obtain ⟨first, hfirst, hbalanced⟩ := declaration_balanced hquiet hbehind.silent hgoes
          obtain ⟨more, hmore, hbalanced'⟩ := ih hbehind hsilent
          refine ⟨first ++ more, ?_, (Token.balanced_append hbalanced).mpr hbalanced'⟩
          rw [hfirst, List.append_assoc]
          exact congrArg (first ++ ·) hmore

theorem Rejoins.decls (h : Inserts k word foreign construct) (hquiet : s.Quiet)
    (hsilent : (iterate Parser.programTurn [] s).2.Silent) (hbefore : k.Before s)
    (hbetween : k.Between s.rest) (hfinal : s.final.blank = k.final.blank)
    (hpassed : (iterate Parser.programTurn [] s).2.rest.length ≤ k.left.length) :
    Rejoins k (constructBooks word foreign construct) (Alike (List.map Decl.shape))
      (iterate Parser.programTurn []) s := by
  have hloop := ItemLoop.decls
  obtain ⟨decls, u, hmeets⟩ := MeetsFork.iterate hloop.driven hloop.near hquiet hsilent hbefore hpassed
  refine hloop.rejoins h hsilent hfinal hmeets ?_
  obtain ⟨tokens, htokens, hbalanced⟩ := hmeets.turns.balanced hquiet hmeets.quiet.silent
  rw [htokens] at hbetween
  have hthere := hbetween.past hbalanced hmeets.before.length_lt
  have hpassed := hmeets.passed
  have hbehind := hmeets.behind
  cases hgoes : u.current.isEndOfFile with
  | true =>
      rw [programTurn_ended hgoes] at hpassed
      exact absurd hmeets.before.length_lt (Nat.not_lt_of_le hpassed)
  | false =>
      refine .programTurn hmeets.quiet hmeets.before hgoes ?_
      rw [programTurn_goes hmeets.quiet.sealed hgoes] at hpassed hbehind
      rcases Within.ofDeclaration hmeets.quiet hbehind.silent hgoes hmeets.before hthere hpassed with
        hexact | ⟨tokens, finish, t, hplan, hwithin⟩
      · exact .inl hexact
      · refine hwithin.rejoins hplan.finishes hbehind.silent h ?_
        have hend : t.final = s.final := by
          rw [hwithin.onward.final, (hmeets.turns.onward hloop.near).final]
        refine .block h hwithin.quiet hwithin.behind.silent hwithin.brace hwithin.before
          hwithin.between (hend ▸ hfinal) ?_
        rw [← hwithin.still]
        exact hpassed

/-- A program with a foreign construct between two items. -/
theorem program_inserted {front before : List Token} (h : Inserts k word foreign construct)
    (hquiet : s.Quiet) (hsilent : (program s).2.Silent) (hrest : s.rest = before ++ k.left)
    (hfront : before = front ++ [k.last]) (hunended : ∀ token ∈ before, token.isEndOfFile = false)
    (hbalanced : k.last.kind = .punctuation .semi → Token.openings front = Token.closings front)
    (hfinal : s.final.blank = k.final.blank) :
    (program (k.switch s)).1.shape = (program s).1.shape ∧
      (program (k.switch s)).2.diagnostics = [SyntaxReport.foreignWord foreign word.range] := by
  -- The documentation of the module comes in front of the fork.
  have hsplit : s.rest = front ++ k.last :: k.left := by
    rw [hrest, hfront, List.append_assoc]
    rfl
  have hstop : ∀ line, k.last.kind ≠ .moduleDoc line := by
    intro line hkind
    have hstops := k.stops
    rw [hkind] at hstops
    cases hstops
  obtain ⟨coming, hcoming, hbalance⟩ := moduleDocs_suffix hquiet.sealed hsplit hstop
  have hdocs : Reached s (moduleDocs s).2 := (Runs.ofRespects fun _ => .moduleDocs) s
  have hdecls := (Loop.iterate (v := []) .programTurn (hdocs.sealed hquiet.sealed)).reached .programTurn
  have hquiet' : (moduleDocs s).2.Quiet := hdocs.quiet hquiet (hdecls.silent hsilent)
  have hbefore : k.Before (moduleDocs s).2 := ⟨hquiet'.sealed.ended, coming, hcoming⟩
  have hsame := Nearsighted.moduleDocs.same k s hbefore
  have honward : s.Onward (iterate programTurn [] (moduleDocs s).2).2 :=
    (Nearsighted.moduleDocs.onward s).trans
      ((Nearsighted.iterate .programTurn .programTurn []).onward (moduleDocs s).2)
  have hpassed := Onward.passed honward hrest hunended (outline_atEnd s hquiet.sealed.ended)
  have hfinal' : (moduleDocs s).2.final.blank = k.final.blank := by
    rw [(Nearsighted.moduleDocs.onward s).final]
    exact hfinal
  let resumed := iterate programTurn [] (k.switch (moduleDocs s).2)
  have hright : outline (k.switch s) = (((moduleDocs s).1, resumed.1), resumed.2) := by
    show (((moduleDocs (k.switch s)).1, (iterate programTurn [] (moduleDocs (k.switch s)).2).1),
      (iterate programTurn [] (moduleDocs (k.switch s)).2).2) = _
    rw [hsame]
  rcases Rejoins.decls h hquiet' hsilent hbefore
      ⟨coming, hcoming, fun hsemi => .inr (hbalance (hbalanced hsemi))⟩ hfinal' hpassed with
    ⟨hleft, hsameDecls⟩ | ⟨hshapes, htwins⟩
  · -- The run with the construct would end in front of it.
    have hend := outline_atEnd (k.switch s) k.ended
    rw [hright] at hend
    change resumed.2.current.isEndOfFile = true at hend
    rw [show resumed = _ from hsameDecls, h.current hleft, Token.isEndOfFile, h.name] at hend
    cases hend
  · constructor
    · show Program.mk .detached (outline (k.switch s)).1.1 ((outline (k.switch s)).1.2.map Decl.shape)
        .none = _
      rw [hright]
      exact congrArg (Program.mk .detached (moduleDocs s).1 · .none) hshapes
    · show (outline (k.switch s)).2.diagnostics = _
      rw [hright]
      exact htwins.related.2.reported hsilent

end Parser

/-- Behind the tokens one item ends or a block begins, so that another item can come there. -/
structure EndsInItem (before : List Token) : Prop where
  ends : ∃ last ∈ before.getLast?, last.kind = .punctuation .lBrace ∨
    last.kind = .punctuation .rBrace ∨ last.kind = .punctuation .semi ∧
      Token.openings before = Token.closings before
  unended : ∀ token ∈ before, token.isEndOfFile = false

theorem SyntaxReport.labels_foreignWord (foreign : ForeignWord) {range : SourceRange}
    (hlocated : range.isLocated = true) :
    (foreignWord foreign range).labels = [⟨range, .primary, "unsupported keyword"⟩] := by
  show Diagnostic.setPrimaryMessage _ (if range.isLocated then _ else _) = _
  rw [if_pos hlocated]
  rfl

namespace Parsed

open BehaviorTree.Parser BehaviorTree.ParserState

variable {file : FileId} {before later construct : List Token} {word next : Token} {arena : Arena}
  {foreign : ForeignWord}

/-- What is seen past the end of a stream depends on the tokens at its end. -/
theorem final_append (passed passed' : List Token) :
    (initial file (passed ++ next :: later) arena).final =
      (initial file (passed' ++ next :: later) arena).final := by
  unfold initial closing
  simp only [getLast?_behind]

/-- The stream without the construct and the one with it. -/
theorem exists_fork (file : FileId) (later : List Token) (next : Token) (arena : Arena)
    (hends : EndsInItem before) (hname : word.kind = .identifier)
    (hword : ForeignWord.ofSpelling? word.text = some foreign)
    (hconstruct : Construct foreign.shape construct) :
    let s := initial file (before ++ next :: later) arena
    ∃ k : Fork, Inserts k word foreign construct ∧
      k.switch s = initial file (before ++ word :: (construct ++ next :: later)) arena ∧
      s.rest = before ++ k.left ∧ s.final.blank = k.final.blank ∧
      ∃ front, before = front ++ [k.last] ∧ (k.last.kind = .punctuation .semi →
        Token.openings front = Token.closings front) := by
  intro s
  obtain ⟨last, hlast, hkind⟩ := hends.ends
  obtain ⟨front, rfl⟩ := List.getLast?_eq_some_iff.mp hlast
  have hrest := rest_initial file next later arena (front ++ [last])
  have hleft : ∃ token ∈ next :: behind file next later, token.isEndOfFile = true := by
    obtain ⟨token, htoken, hend⟩ := exists_end file (front ++ [last] ++ next :: later) arena
    rw [hrest] at htoken
    rcases List.mem_append.mp htoken with hpassed | hcoming
    · rw [hends.unended token hpassed] at hend
      cases hend
    · exact ⟨token, hcoming, hend⟩
  let k : Fork := {
    last := last
    left := next :: behind file next later
    right := word :: (construct ++ next :: behind file next later)
    final := s.final
    stops := by rcases hkind with hkind | hkind | ⟨hkind, -⟩ <;> rw [hkind] <;> rfl
    leftClosed := hleft
    rightClosed := by
      obtain ⟨token, htoken, hend⟩ := hleft
      exact ⟨token, List.mem_cons_of_mem _ (List.mem_append_right _ htoken), hend⟩
    ended := initial_ended _ }
  refine ⟨k, ⟨rfl, hname, hword, hconstruct⟩, ?_, hrest, rfl, front, rfl, fun hsemi => ?_⟩
  · have hwhole : front ++ [last] ++ word :: (construct ++ next :: later) =
        (front ++ [last] ++ word :: construct) ++ next :: later := by simp
    have hsplit : s.rest = front ++ k.last :: k.left := by
      rw [hrest, List.append_assoc]
      rfl
    have hright : (k.switch s).rest = (initial file
        (front ++ [last] ++ word :: (construct ++ next :: later)) arena).rest := by
      rw [Fork.switch_before hsplit, hwhole, rest_initial]
      simp [k]
    have hend : (k.switch s).final = (initial file
        (front ++ [last] ++ word :: (construct ++ next :: later)) arena).final := by
      rw [hwhole]
      exact final_append _ _
    exact switch_initial hright hend
  · rcases hkind with hkind | hkind | ⟨_, hbalanced⟩
    · cases hsemi.symm.trans hkind
    · cases hsemi.symm.trans hkind
    · have hflat : last.kind.opening = last.kind.closing := by
        rw [show last.kind = .punctuation .semi from hsemi]
        rfl
      simp only [Token.openings, Token.closings, total_append, total_cons, total_nil] at hbalanced ⊢
      omega

/-- **A foreign construct costs one report.** Put a construct of another language between two items of
a faultless stream. Then one error is reported, at the word that opens the construct, and the program
is the one it was. -/
theorem ofTokens_foreignConstruct (hfile : file.isDetached = false) (hends : EndsInItem before)
    (hname : word.kind = .identifier) (hword : ForeignWord.ofSpelling? word.text = some foreign)
    (hplace : word.range.file = file) (hconstruct : Construct foreign.shape construct)
    (hsilent : (ofTokens file (before ++ next :: later) arena).diagnostics = []) :
    let extended := ofTokens file (before ++ word :: (construct ++ next :: later)) arena
    ∃ report, extended.diagnostics = [report] ∧ report.severity = .error ∧
      report.code = some Code.unsupportedWord ∧
      report.labels = [⟨word.range, .primary, "unsupported keyword"⟩] ∧
      extended.program.shape = (ofTokens file (before ++ next :: later) arena).program.shape := by
  intro extended
  obtain ⟨k, hinserts, hswitch, hrest, hfinal, front, hfront, hbalanced⟩ :=
    exists_fork file later next arena hends hname hword hconstruct
  have hquiet : (initial file (before ++ next :: later) arena).Quiet :=
    ⟨initial_sealed file _ arena, rfl, rfl⟩
  obtain ⟨hshape, hreport⟩ :=
    program_inserted hinserts hquiet hsilent hrest hfront hends.unended hbalanced hfinal
  rw [hswitch] at hshape hreport
  have hlocated : word.range.isLocated = true := by
    rw [SourceRange.isLocated, hplace, hfile]
    rfl
  exact ⟨_, hreport, rfl, rfl, SyntaxReport.labels_foreignWord foreign hlocated, hshape⟩

/-- Between the two calls of a tree there is an `if` with a block in which a parenthesis is not closed,
and an `else` with a header. -/
theorem ofTokens_foreignConstruct_of_conditional :
    let file := FileId.registered 0
    let token (kind : TokenKind) (text : String) : Token := ⟨kind, text, .emptyAt file 0, false⟩
    let name (text : String) : Token := token .identifier text
    let parens : List Token := [token (.punctuation .lParen) "(", token (.punctuation .rParen) ")"]
    let opening := token (.punctuation .lBrace) "\x7b"
    let closing := token (.punctuation .rBrace) "\x7d"
    let semi := token (.punctuation .semi) ";"
    let before := token (.keyword .treeWord) "tree" :: name "Main" :: (parens ++
      opening :: name "Go" :: (parens ++ [semi]))
    let next := name "Stop"
    let later := parens ++ [semi, closing]
    let word := name "if"
    let group := opening :: ([name "Go", token (.punctuation .lParen) "(", semi] ++ [closing])
    let construct := parens ++ opening :: ([name "Go", token (.punctuation .lParen) "(", semi] ++
      closing :: name "else" :: ([name "x"] ++ group))
    let original := ofTokens file (before ++ next :: later) .empty
    let extended := ofTokens file (before ++ word :: (construct ++ next :: later)) .empty
    original.diagnostics = [] ∧ ∃ foreign, ForeignWord.ofSpelling? word.text = some foreign ∧
      Construct foreign.shape construct ∧
      ∃ report, extended.diagnostics = [report] ∧ report.severity = .error ∧
        report.code = some Code.unsupportedWord ∧
        report.labels = [⟨word.range, .primary, "unsupported keyword"⟩] ∧
        extended.program.shape = original.program.shape := by
  intro file token name parens opening closing semi before next later word group construct original extended
  have hsilent : original.diagnostics = [] := by decide +kernel
  have hends : EndsInItem before :=
    ⟨⟨semi, by decide +kernel, .inr (.inr ⟨rfl, by decide +kernel⟩)⟩, by decide +kernel⟩
  obtain ⟨foreign, hword, hshape⟩ : ∃ foreign, ForeignWord.ofSpelling? word.text = some foreign ∧
      foreign.shape = .conditional := ⟨_, rfl, rfl⟩
  have hjunk : Braced [name "Go", token (.punctuation .lParen) "(", semi] :=
    .plain (by decide) (by decide) (by decide) (.plain (by decide) (by decide) (by decide)
      (.plain (by decide) (by decide) (by decide) .nil))
  have hparens : Header parens :=
    show Header (_ :: ([] ++ _ :: [])) from .group rfl rfl .nil rfl .nil
  have helse : Construct foreign.shape ([name "x"] ++ group) :=
    .block (.plain rfl rfl rfl .nil) rfl hjunk rfl
  have hconstruct : Construct foreign.shape construct :=
    .orElse hshape hparens rfl hjunk rfl rfl rfl helse
  exact ⟨hsilent, foreign, hword, hconstruct,
    ofTokens_foreignConstruct rfl hends rfl hword rfl hconstruct hsilent⟩

end Parsed

end BehaviorTree
