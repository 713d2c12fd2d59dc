import BehaviorTree.Proofs.Parsing.OpenBlocks

/-!
# A missing brace costs one report

A tree of a faultless file loses one of its braces, its own or one of a block inside. Then its block is
still open where the next declaration begins. That is reported once, and all the other declarations
are those of the file with the brace.
-/

namespace BehaviorTree

/-! ### Where lists are split -/

variable {α : Type} {p : α → Prop} {a b : α}

/-- An element with more behind it than the second list has is in the first one. -/
theorem exists_split_front {passed rest front later : List α} (h : passed ++ a :: rest = front ++ later)
    (hlength : later.length ≤ rest.length) :
    ∃ more, front = passed ++ a :: more ∧ rest = more ++ later := by
  rcases List.append_eq_append_iff.mp h with ⟨more, rfl, hmore⟩ | ⟨more, rfl, rfl⟩
  · cases more with
    | nil =>
        have hsame := congrArg List.length hmore
        simp only [List.nil_append, List.length_cons] at hsame
        omega
    | cons c more =>
        obtain ⟨rfl, rfl⟩ := List.cons.inj hmore
        exact ⟨more, rfl, rfl⟩
  · simp only [List.length_append, List.length_cons] at hlength
    omega

/-- Where the lists have no such element in front, the first one is where they are split. -/
theorem append_cons_inj_of_first {before before' rest rest' : List α} (hbefore : ∀ x ∈ before, ¬p x)
    (hbefore' : ∀ x ∈ before', ¬p x) (ha : p a) (hb : p b)
    (h : before ++ a :: rest = before' ++ b :: rest') : before = before' ∧ a = b ∧ rest = rest' := by
  rcases List.append_eq_append_iff.mp h with ⟨more, rfl, hmore⟩ | ⟨more, rfl, hmore⟩
  · cases more with
    | nil => exact ⟨by simp, List.cons.inj hmore⟩
    | cons c more =>
        obtain ⟨rfl, -⟩ := List.cons.inj hmore
        exact absurd ha (hbefore' a (by simp))
  · cases more with
    | nil => exact ⟨by simp, (List.cons.inj hmore).imp Eq.symm Eq.symm⟩
    | cons c more =>
        obtain ⟨rfl, -⟩ := List.cons.inj hmore
        exact absurd hb (hbefore b (by simp))

/-- The only such element is where the lists are split. -/
theorem append_cons_inj_of_only {passed before more behind : List α} (hbefore : ∀ x ∈ before, ¬p x)
    (hbehind : ∀ x ∈ behind, ¬p x) (ha : p a) (h : before ++ b :: behind = passed ++ a :: more) :
    passed = before ∧ a = b ∧ more = behind := by
  rcases List.append_eq_append_iff.mp h with ⟨others, rfl, hothers⟩ | ⟨others, rfl, hothers⟩
  · cases others with
    | nil => exact ⟨by simp, (List.cons.inj hothers).imp Eq.symm Eq.symm⟩
    | cons c others =>
        obtain ⟨-, rfl⟩ := List.cons.inj hothers
        exact absurd ha (hbehind a (by simp))
  · cases others with
    | nil => exact ⟨by simp, List.cons.inj hothers⟩
    | cons c others =>
        obtain ⟨rfl, -⟩ := List.cons.inj hothers
        exact absurd ha (hbefore a (by simp))

/-- The tokens of a tree: its word, its name, a header up to the first brace, and a block. -/
structure TreeTokens (word name : Token) (header : List Token) (opening : Token) (inner : List Token)
    (closing : Token) : Prop where
  word : word.kind = .keyword .treeWord
  header : ∀ token ∈ header, token.kind ≠ .punctuation .lBrace
  opening : opening.kind = .punctuation .lBrace
  inner : Braced inner
  closing : closing.kind = .punctuation .rBrace

/-- Tokens of a declaration that the word of a tree is among are those of the tree, behind others. -/
theorem TreeTokens.unique {word name opening closing word' name' opening' closing' : Token}
    {header inner later passed before header' inner' later' : List Token}
    (h : TreeTokens word name header opening inner closing) (hbefore : Enclosed before)
    (hname : name'.kind = .identifier) (hheader : Enclosed header')
    (hopening : opening'.kind = .punctuation .lBrace) (hinner : Items inner')
    (hclosing : closing'.kind = .punctuation .rBrace)
    (hsplit : passed ++ word :: name :: (header ++ opening :: (inner ++ closing :: later)) =
      (before ++ word' :: name' :: (header' ++ opening' :: (inner' ++ [closing']))) ++ later')
    (hlength : later'.length ≤ (name :: (header ++ opening :: (inner ++ closing :: later))).length) :
    name' = name ∧ opening' = opening ∧ inner' = inner ∧ closing' = closing ∧ later' = later := by
  obtain ⟨more, hmore, hlater⟩ := exists_split_front hsplit hlength
  have hnone : ∀ token ∈ name' :: (header' ++ opening' :: (inner' ++ [closing'])),
      ¬token.kind = .keyword .treeWord := by
    simp only [List.mem_cons, List.mem_append, List.not_mem_nil, or_false]
    rintro token (rfl | hmem | rfl | hmem | rfl)
    · simp [hname]
    · exact hheader.not_tree hmem
    · simp [hopening]
    · exact hinner.not_tree token hmem
    · simp [hclosing]
  -- There is one word `tree` among the tokens, one brace first, and one brace that closes that.
  obtain ⟨rfl, rfl, rfl⟩ := append_cons_inj_of_only (fun _ => hbefore.not_tree) hnone h.word hmore
  simp only [List.cons_append, List.append_assoc, List.nil_append] at hlater
  obtain ⟨rfl, hblocks⟩ := List.cons.inj hlater
  obtain ⟨rfl, rfl, hinners⟩ := append_cons_inj_of_first (p := (·.kind = .punctuation .lBrace)) h.header
    (fun _ hmem => (hheader.not_brace hmem).1) h.opening hopening hblocks
  obtain ⟨rfl, rfl, rfl⟩ := h.inner.unique hinner.braced h.closing hclosing hinners
  exact ⟨rfl, rfl, rfl, rfl, rfl⟩

/-- Leaving out a brace parts the streams behind the token in front of it, which ends an item or is a
brace. -/
theorem TreeTokens.parted {word name opening closing brace : Token} {header inner body behind : List Token}
    (htree : TreeTokens word name header opening inner closing)
    (hitems : Items inner) (hbrace : brace.kind = .punctuation .rBrace)
    (hsplit : inner ++ [closing] = body ++ brace :: behind) (ahead : List Token) :
    ∃ front last, opening :: body = front ++ [last] ∧ last.kind.isStop = true ∧
      ∀ rest, ahead ++ word :: name :: (header ++ opening :: (body ++ rest)) =
        (ahead ++ word :: name :: (header ++ front)) ++ last :: rest := by
  obtain ⟨front, last, hfront⟩ : ∃ front last, opening :: body = front ++ [last] :=
    ⟨_, _, (List.dropLast_append_getLast (List.cons_ne_nil _ _)).symm⟩
  have hblock : opening :: (inner ++ [closing]) = front ++ last :: brace :: behind := by
    rw [hsplit, ← List.cons_append, hfront, List.append_assoc]
    rfl
  refine ⟨front, last, hfront, hitems.stop_before htree.opening hbrace hblock, fun rest => ?_⟩
  have hopening := congrArg (· ++ rest) hfront
  simp only [List.append_assoc, List.cons_append, List.nil_append] at hopening
  rw [hopening]
  simp

namespace Parser

open ParserState

variable {s t u : ParserState} {k : Fork} {ahead header inner later passed : List Token}
  {word name opening closing : Token} {decls : List Decl} {finish : List Stmt → Parser (Option Decl)}

/-! ### The turn that parses a tree -/

/-- How a tree with the name is finished behind its block. -/
def FinishesTree (name : Token) (finish : List Stmt → Parser (Option Decl)) : Prop :=
  ∃ params docs start, finish = fun body =>
    finishTree name.asName params body >>= fun build => finishDecl build docs start none

/-- A declaration is a tree with a block of its own. -/
structure ParsesTree (s : ParserState) (name : Token) (inner later : List Token)
    (finish : List Stmt → Parser (Option Decl)) (t : ParserState) : Prop where
  opens : Opening declaration s t finish
  finishes : FinishesTree name finish
  onward : s.Onward t
  quiet : t.Quiet
  behind : (block t).2.Quiet
  rest : t.rest = t.current :: (inner ++ later)
  still : (block t).2.rest = later

/-- A declaration that a `tree` word belongs to is the tree. -/
theorem ParsesTree.ofDeclaration (hquiet : s.Quiet) (hsilent : (declaration s).2.Silent)
    (hgoes : s.current.isEndOfFile = false) (h : TreeTokens word name header opening inner closing)
    (hrest : s.rest = passed ++ word :: name :: (header ++ opening :: (inner ++ closing :: later)))
    (hpassed : (declaration s).2.rest.length ≤
      (name :: (header ++ opening :: (inner ++ closing :: later))).length) :
    Items inner ∧
      ∃ finish t, ParsesTree s name (inner ++ [closing]) later finish t ∧ t.current = opening := by
  rcases (Crosses.declaration hquiet hsilent hgoes).quietly hquiet hsilent with
    ⟨-, hends⟩ | ⟨finish, t, tokens, made, hplan, hstretch, hopens⟩
  · -- There are no trees in other declarations.
    obtain ⟨tokens, semi, made, hstretch, hwalk, hsemi⟩ := hends.item
    obtain ⟨more, hmore, -⟩ := exists_split_front (hrest.symm.trans hstretch.rest) hpassed
    have hmem : word ∈ tokens ++ [semi] := by rw [hmore]; simp
    rcases List.mem_append.mp hmem with hterm | hlast
    · exact absurd h.word (hwalk.not_tree hterm)
    · have hword := h.word
      rw [List.mem_singleton.mp hlast, hsemi] at hword
      cases hword
  · have hfinishes := hplan.finishes
    have hstart := hopens.quiet hstretch hquiet hsilent hfinishes.grows
    rw [hopens.run] at hsilent hpassed
    have hbehind : (block t).2.Quiet :=
      Runs.quiet (.ofRespects fun _ => .block) hfinishes.grows hstart hsilent
    have hstill : ((block >>= finish) t).2.rest = (block t).2.rest :=
      hfinishes.still (block t).1 (block t).2 hbehind hsilent
    rw [hstill] at hpassed
    obtain ⟨inner', closing', hblock, hitems, hclosing'⟩ :=
      block_items hstart hbehind.silent hopens.brace
    obtain ⟨before, _, rfl, hbefore, _, docs, start, ⟨word', name', header', params, rfl, hword', hname',
      hheader', rfl⟩, rfl⟩ := hplan
    have hsplit : s.rest = (before ++ word' :: name' :: (header' ++ t.current :: (inner' ++ [closing']))) ++
        (block t).2.rest := by
      rw [hstretch.rest, hblock]
      simp
    obtain ⟨rfl, rfl, rfl, rfl, rfl⟩ := h.unique hbefore hname' hheader' hopens.brace hitems hclosing'
      (hrest.symm.trans hsplit) hpassed
    have hstart' : t.rest = t.current :: ((inner' ++ [closing']) ++ (block t).2.rest) := by
      rw [hblock]
      simp
    exact ⟨hitems, _, t, ⟨hopens, ⟨params, docs, start, rfl⟩, hstretch.onward, hstart, hbehind, hstart',
      rfl⟩, rfl⟩

/-- A silent program gets to each `tree` word in front of the end of the file in one of its turns. -/
theorem exists_treeTurn {rest : List Token} (hquiet : s.Quiet) (hsilent : (program s).2.Silent)
    (hrest : s.rest = ahead ++ word :: rest) (hword : word.kind = .keyword .treeWord)
    (hunended : ∀ token ∈ ahead, token.isEndOfFile = false) :
    ∃ decls u passed, Turns programTurn [] (moduleDocs s).2 decls u ∧ u.Quiet ∧
      (declaration u).2.Quiet ∧ u.current.isEndOfFile = false ∧ u.rest = passed ++ word :: rest ∧
        (declaration u).2.rest.length ≤ rest.length := by
  -- The documentation of the module comes in front of the tree.
  obtain ⟨coming, hcoming, -⟩ := moduleDocs_suffix hquiet.sealed hrest (by simp [hword])
  have hdocs : Reached s (moduleDocs s).2 := (Runs.ofRespects fun _ => .moduleDocs) s
  have hloop := Loop.iterate (v := []) .programTurn (hdocs.sealed hquiet.sealed)
  have hquiet' := hdocs.quiet hquiet ((hloop.reached .programTurn).silent hsilent)
  have hpassed : (iterate programTurn [] (moduleDocs s).2).2.rest.length ≤ rest.length := by
    have honward : s.Onward (iterate programTurn [] (moduleDocs s).2).2 :=
      (Nearsighted.moduleDocs.onward s).trans
        ((Nearsighted.iterate .programTurn .programTurn []).onward (moduleDocs s).2)
    have hsplit : s.rest = (ahead ++ [word]) ++ rest := by rw [hrest]; simp
    refine Onward.passed honward hsplit (fun token hmem => ?_) (outline_atEnd s hquiet.sealed.ended)
    rcases List.mem_append.mp hmem with hahead | hlast
    · exact hunended token hahead
    · simp [List.mem_singleton.mp hlast, Token.isEndOfFile, hword]
  obtain ⟨decls, u, hturns, hlater, ⟨passed, htarget⟩, hlength⟩ := hloop.passing (word :: rest) .programTurn
    ⟨coming, hcoming.symm⟩ (Nat.lt_succ_of_le hpassed)
  have hreached := hturns.reached .programTurn
  have hturn : (programTurn decls u).2.Silent := (hlater.behind .programTurn).silent hsilent
  have hu := hreached.quiet hquiet' ((Driven.programTurn decls u).reached.silent hturn)
  have hbehind := (Driven.programTurn decls u).reached.quiet hu hturn
  cases hgoes : u.current.isEndOfFile with
  | true =>
      rw [programTurn_ended hgoes, ← htarget, List.length_append] at hlength
      omega
  | false =>
      rw [programTurn_goes hu.sealed hgoes] at hbehind hlength
      exact ⟨decls, u, passed, hturns, hu, hbehind, hgoes, htarget.symm, Nat.le_of_lt_succ hlength⟩

/-- A silent program parses each tree in front of the end of the file. -/
theorem ParsesTree.exists (hquiet : s.Quiet) (hsilent : (program s).2.Silent)
    (h : TreeTokens word name header opening inner closing)
    (hrest : s.rest = ahead ++ word :: name :: (header ++ opening :: (inner ++ closing :: later)))
    (hunended : ∀ token ∈ ahead, token.isEndOfFile = false) :
    Items inner ∧ ∃ decls u finish t, Turns programTurn [] (moduleDocs s).2 decls u ∧ u.Quiet ∧
      u.current.isEndOfFile = false ∧ ParsesTree u name (inner ++ [closing]) later finish t ∧
        t.current = opening := by
  obtain ⟨decls, u, passed, hturns, hquiet', hbehind, hgoes, hthere, hpassed⟩ :=
    exists_treeTurn hquiet hsilent hrest h.word hunended
  obtain ⟨hitems, finish, t, htree, hcurrent⟩ :=
    ParsesTree.ofDeclaration hquiet' hbehind.silent hgoes h hthere hpassed
  exact ⟨hitems, decls, u, finish, t, hturns, hquiet', hgoes, htree, hcurrent⟩

/-! ### Behind the tree -/

/-- The declarations are the same up to places, but for what is in the block of one tree. -/
def SameButBody (name : Name) (decls decls' : List Decl) : Prop :=
  ∃ before after after' head head' params body body',
    decls = before ++ .tree head name params body :: after ∧
      decls' = before ++ .tree head' name params body' :: after' ∧
        head.shape = head'.shape ∧ after.map Decl.shape = after'.map Decl.shape

/-- The same of the programs that the declarations belong to. -/
def SameButTree (name : Name) (program program' : Program) : Prop :=
  program.docs = program'.docs ∧ SameButBody name program.decls program'.decls

theorem SameButBody.append {name : Name} {decls decls' : List Decl} (h : SameButBody name decls decls')
    {later later' : List Decl} (hlater : later.map Decl.shape = later'.map Decl.shape) :
    SameButBody name (decls ++ later) (decls' ++ later') := by
  obtain ⟨before, after, after', head, head', params, body, body', rfl, rfl, hhead, hafter⟩ := h
  refine ⟨before, after ++ later, after' ++ later', head, head', params, body, body', ?_, ?_, hhead, ?_⟩
  · simp
  · simp
  · rw [List.map_append, List.map_append, hafter, hlater]

/-- Loops over declarations keep that. -/
theorem Agrees.declarations {name : Name} {decls decls' : List Decl} (h : SameButBody name decls decls') :
    Agrees (Parser.iterate Parser.programTurn decls) (Parser.iterate Parser.programTurn decls')
      (SameButBody name) := by
  refine .iterate h fun decls decls' h => .programTurnKeeping (fun decl decl' hdecl => ?_) h
  unfold Alike at hdecl
  exact h.append (by rw [← Option.toList_map, ← Option.toList_map, hdecl])

theorem FinishesTree.run (h : FinishesTree name finish) : ∃ params docs, ∀ body s, ∃ origin arena,
    finish body s = (some (.tree ⟨origin, docs⟩ name.asName params body), { s with arena := arena }) := by
  obtain ⟨params, docs, start, rfl⟩ := h
  exact ⟨params, docs.lines, fun body s => ⟨_, _, rfl⟩⟩

/-- A loop over declarations goes on behind one. -/
theorem iterate_declaration (hsealed : u.Sealed) (hgoes : u.current.isEndOfFile = false) :
    iterate programTurn decls u =
      iterate programTurn (decls ++ (declaration u).1.toList) (declaration u).2 := by
  rw [iterate_eq .programTurn hsealed, programTurn_goes hsealed hgoes]
  rfl

/-- A program with a tree whose block ends at the same place on both sides, but for some reports. -/
theorem ParsesTree.program {reports : List Diagnostic} {stmts : List Stmt} {v : ParserState}
    (htree : ParsesTree u name inner later finish t) (hquiet : u.Quiet)
    (hgoes : u.current.isEndOfFile = false) (hbefore : k.Before t)
    (hturns : Turns programTurn [] (moduleDocs s).2 decls u) (hsilent : (program s).2.Silent)
    (hblock : block (k.switch t) = (stmts, v)) (htwins : Twins (.ahead reports 1) (block t).2 v) :
    SameButTree name.asName (program s).1 (program (k.switch s)).1 ∧
      (program (k.switch s)).2.diagnostics = reports := by
  have hu : k.Before u := hbefore.of_onward htree.onward
  have hdocs : k.Before (moduleDocs s).2 := hu.of_onward (hturns.onward .programTurn)
  obtain ⟨params, docs, hfinish⟩ := htree.finishes.run
  obtain ⟨origin, arena, hrun⟩ := hfinish (block t).1 (block t).2
  obtain ⟨origin', arena', hrun'⟩ := hfinish stmts v
  have hleft : declaration u = _ := htree.opens.run.trans hrun
  have hright : declaration (k.switch u) = finish stmts v := by
    rw [htree.opens.same k hbefore]
    show finish (block (k.switch t)).1 (block (k.switch t)).2 = _
    rw [hblock]
  rw [hrun'] at hright
  have hloop : iterate programTurn [] (moduleDocs s).2 = _ :=
    (hturns.iterate .programTurn hdocs.sealed).trans (iterate_declaration hquiet.sealed hgoes)
  have hloop' : iterate programTurn [] (k.switch (moduleDocs s).2) = _ :=
    ((hturns.switch .programTurn hu).iterate .programTurn hdocs.switch_sealed).trans
      (iterate_declaration hu.switch_sealed (by rw [hu.current, hgoes]))
  rw [hleft] at hloop
  rw [hright] at hloop'
  have hbody : SameButBody name.asName
      (decls ++ [.tree ⟨origin, docs⟩ name.asName params (block t).1])
      (decls ++ [.tree ⟨origin', docs⟩ name.asName params stmts]) :=
    ⟨decls, [], [], ⟨origin, docs⟩, ⟨origin', docs⟩, params, (block t).1, stmts, rfl, rfl, rfl, rfl⟩
  obtain ⟨hsame, hend⟩ := Agrees.declarations hbody _ _ _ (htwins.withArena arena arena')
  have hsilent' : (iterate programTurn [] (moduleDocs s).2).2.Silent := hsilent
  have hsame' : moduleDocs (k.switch s) = _ := Nearsighted.moduleDocs.same k s hdocs
  refine ⟨⟨?_, ?_⟩, ?_⟩
  · show (moduleDocs s).1 = (moduleDocs (k.switch s)).1
    rw [hsame']
  · show SameButBody name.asName (iterate programTurn [] (moduleDocs s).2).1
      (iterate programTurn [] (moduleDocs (k.switch s)).2).1
    rw [hsame', hloop, hloop']
    exact hsame
  · show (iterate programTurn [] (moduleDocs (k.switch s)).2).2.diagnostics = reports
    rw [hsame', hloop']
    rw [hloop] at hsilent'
    exact hend.related.2.reported hsilent'

/-- Where the fork is in the block of a tree, the block is still open at what comes behind it, and that
is reported. -/
theorem ParsesTree.unclosed {brace found : Token} {body behind others : List Token}
    (htree : ParsesTree u name inner later finish t) (hquiet : u.Quiet)
    (hgoes : u.current.isEndOfFile = false)
    (hturns : Turns programTurn [] (moduleDocs s).2 decls u) (hsilent : (Parser.program s).2.Silent)
    (hfinal : s.final.blank = k.final.blank) (h : k.Loses brace (behind ++ later))
    (hlast : ∃ front, t.current :: body = front ++ [k.last]) (hinner : inner = body ++ brace :: behind)
    (hright : k.right = behind ++ found :: others)
    (hlater : later.map Token.blank = (found :: others).map Token.blank)
    (hbreaks : breaksBlock found = true) :
    SameButTree name.asName (Parser.program s).1 (Parser.program (k.switch s)).1 ∧
      (Parser.program (k.switch s)).2.diagnostics =
        [SyntaxReport.unclosedBlock found t.current.range] := by
  obtain ⟨front, hfront⟩ := hlast
  have hrest : t.rest = front ++ k.last :: k.left := by
    rw [htree.rest, hinner, h.left, List.append_assoc, List.cons_append, ← List.cons_append, hfront]
    simp
  have hbefore : k.Before t := ⟨htree.quiet.sealed.ended, front, hrest⟩
  have hbetween : k.Between t.rest := ⟨front, hrest, fun _ => .inl ⟨brace, by simp [h.left], h.brace⟩⟩
  have hlength : later.length = (found :: others).length := by
    rw [← List.length_map Token.blank, hlater, List.length_map]
  have hpassed : (block t).2.rest.length < k.left.length := by
    rw [htree.still, h.left, List.length_cons, List.length_append]
    omega
  have hsemi : (block t).2.current.isPunctuation .semi = false := by
    obtain ⟨next, more, rfl⟩ := List.exists_cons_of_length_eq_add_one hlength
    rw [current_of_rest htree.still, ← Token.isPunctuation_blank, (List.cons.inj hlater).1,
      Token.isPunctuation_blank, not_mark_of_breaksBlock hbreaks]
  have hend : t.final.blank = k.final.blank := by
    have honward : s.Onward t :=
      ((Nearsighted.moduleDocs.onward s).trans (hturns.onward .programTurn)).trans htree.onward
    rw [honward.final, hfinal]
  have hopen : StaysOpen k t := .block h htree.quiet htree.behind.silent htree.opens.brace hbefore hbetween
    hend hpassed hsemi
  obtain ⟨stmts, v, hblock, htwins⟩ := hopen.reports htree.quiet hbefore htree.behind
    ⟨behind, hright.symm⟩ (by rw [htree.still, hlength]) hbreaks
  exact htree.program hquiet hgoes hbefore hturns hsilent hblock htwins

end Parser

/-- Nothing comes, or the end of the file, or a word that a declaration begins with and no statement. -/
def EndsBlocks (later : List Token) : Prop :=
  ∀ next ∈ later.head?, next.kind = .endOfFile ∨
    ∃ word ∈ [Keyword.importWord, .externWord, .typeWord, .treeWord], next.kind = .keyword word

theorem EndsBlocks.breaksBlock {next : Token} {later : List Token} (h : EndsBlocks (next :: later)) :
    Parser.breaksBlock next = true := by
  rcases h next rfl with hend | ⟨word, hword, hkind⟩
  · simp [Parser.breaksBlock, Token.isEndOfFile, hend]
  · have hopens : ∀ word ∈ [Keyword.importWord, .externWord, .typeWord, .treeWord],
        word.isOpener = true ∧ word ≠ .varWord ∧ word ≠ .constWord := by decide
    simp [Parser.breaksBlock, Token.isOpenerWord, Token.isKeyword, Token.keyword?, TokenKind.keyword?,
      hkind, hopens word hword]

theorem SyntaxReport.labels_unclosedBlock {found : Token} {opening : SourceRange}
    (hfound : found.range.isLocated = true) (hopening : opening.isLocated = true) :
    (unclosedBlock found opening).labels =
      [⟨found.range, .primary, "expected `\x7d`"⟩, ⟨opening, .secondary, "block opened here"⟩] := by
  rw [unclosedBlock, Diagnostic.withSecondary, if_pos hopening]
  show Diagnostic.setPrimaryMessage _ (if found.range.isLocated then _ else _) ++ _ = _
  rw [if_pos hfound]
  rfl

namespace Parsed

open BehaviorTree.Parser BehaviorTree.ParserState

variable {file : FileId} {ahead header inner body behind later : List Token}
  {word name opening closing brace : Token} {arena : Arena}

/-- The token that closes a stream, if it needs one. -/
def ending (file : FileId) (tokens : List Token) : List Token :=
  if (tokens.getLast?.map Token.isEndOfFile).getD false then [] else [Parsed.closing file tokens]

theorem rest_ending (tokens : List Token) :
    (initial file tokens arena).rest = tokens ++ ending file tokens := by
  unfold initial ending
  split <;> simp_all

/-- Streams of which both or none need a token at the end are closed the same. -/
theorem ending_blank {last : Token} (passed rest : List Token) (hlast : last.isEndOfFile = false)
    (hbrace : brace.isEndOfFile = false) :
    let whole := passed ++ last :: brace :: rest
    let omitted := passed ++ last :: rest
    (ending file whole).map Token.blank = (ending file omitted).map Token.blank ∧
      (initial file whole arena).final.blank = (initial file omitted arena).final.blank := by
  intro whole omitted
  cases rest with
  | nil =>
      have hwhole : whole.getLast? = some brace := by simp [whole]
      have homitted : omitted.getLast? = some last := by simp [omitted]
      constructor
      · simp [ending, Parsed.closing, hwhole, homitted, hlast, hbrace, Token.blank]
      · simp [initial, Parsed.closing, hwhole, homitted, hlast, hbrace, Token.blank]
  | cons next rest =>
      have hwhole : whole.getLast? = (next :: rest).getLast? := by simp [whole, List.getLast?_cons]
      have homitted : omitted.getLast? = (next :: rest).getLast? := by simp [omitted, List.getLast?_cons]
      constructor
      · simp [ending, Parsed.closing, hwhole, homitted]
      · simp [initial, Parsed.closing, hwhole, homitted]

/-- What comes first of the last tokens of a stream and of the token that closes it. -/
theorem ending_found {tokens : List Token} (hends : EndsBlocks later)
    (hsome : later ++ ending file tokens ≠ []) :
    let found := later.head?.getD (Parsed.closing file tokens)
    ∃ others, later ++ ending file tokens = found :: others ∧ breaksBlock found = true := by
  cases later with
  | nil =>
      refine ⟨[], ?_, rfl⟩
      unfold ending at hsome ⊢
      split
      · rename_i hclosed
        simp [hclosed] at hsome
      · rfl
  | cons next later => exact ⟨later ++ ending file tokens, rfl, hends.breaksBlock⟩

/-- The stream with the brace and the one without it. -/
theorem exists_brace_fork {last : Token} (passed : List Token) (arena : Arena)
    (hstop : last.kind.isStop = true) (hbrace : brace.kind = .punctuation .rBrace) :
    let whole := passed ++ last :: brace :: (behind ++ later)
    let omitted := passed ++ last :: (behind ++ later)
    (∃ token ∈ later ++ ending file whole, token.isEndOfFile = true) →
    (later ++ ending file whole).map Token.blank = (later ++ ending file omitted).map Token.blank ∧
    ∃ k : Fork, k.last = last ∧ k.Loses brace (behind ++ (later ++ ending file whole)) ∧
      k.right = behind ++ (later ++ ending file omitted) ∧
      k.switch (initial file whole arena) = initial file omitted arena ∧
      (initial file whole arena).final.blank = k.final.blank := by
  intro whole omitted hclosed
  have hlast : last.isEndOfFile = false := by
    cases hkind : last.kind <;> simp_all [TokenKind.isStop, Token.isEndOfFile]
  have hmark : brace.isEndOfFile = false := by simp [Token.isEndOfFile, hbrace]
  obtain ⟨hending, hfinal⟩ : (ending file whole).map Token.blank = (ending file omitted).map Token.blank ∧
      (initial file whole arena).final.blank = (initial file omitted arena).final.blank :=
    ending_blank passed (behind ++ later) hlast hmark
  have hsame : (later ++ ending file whole).map Token.blank =
      (later ++ ending file omitted).map Token.blank := by
    rw [List.map_append, List.map_append, hending]
  have hclosed' : ∃ token ∈ later ++ ending file omitted, token.isEndOfFile = true := by
    obtain ⟨token, hmem, hend⟩ := hclosed
    have hblank := List.mem_map_of_mem (f := Token.blank) hmem
    rw [hsame] at hblank
    obtain ⟨token', hmem', htoken⟩ := List.mem_map.mp hblank
    refine ⟨token', hmem', ?_⟩
    rw [← Token.isEndOfFile_blank, htoken, Token.isEndOfFile_blank, hend]
  have hleft : (initial file whole arena).rest =
      passed ++ last :: brace :: (behind ++ (later ++ ending file whole)) := by
    rw [rest_ending]
    simp [whole]
  have hright : (initial file omitted arena).rest =
      passed ++ last :: (behind ++ (later ++ ending file omitted)) := by
    rw [rest_ending]
    simp [omitted]
  let k : Fork := {
    last := last
    left := brace :: (behind ++ (later ++ ending file whole))
    right := behind ++ (later ++ ending file omitted)
    final := (initial file omitted arena).final
    stops := hstop
    leftClosed := by
      obtain ⟨token, hmem, hend⟩ := hclosed
      exact ⟨token, List.mem_cons_of_mem _ (List.mem_append_right _ hmem), hend⟩
    rightClosed := by
      obtain ⟨token, hmem, hend⟩ := hclosed'
      exact ⟨token, List.mem_append_right _ hmem, hend⟩
    ended := initial_ended _ }
  refine ⟨hsame, k, rfl, ⟨rfl, hbrace, ?_⟩, rfl, switch_initial ?_ rfl, hfinal⟩
  · show (behind ++ (later ++ ending file omitted)).map Token.blank = _
    rw [List.map_append, ← hsame, ← List.map_append]
  · rw [Fork.switch_before hleft, hright]

/-- What the stream without the brace is parsed as. -/
theorem recovered_missingBrace (htree : TreeTokens word name header opening inner closing)
    (hbrace : brace.kind = .punctuation .rBrace) (hsplit : inner ++ [closing] = body ++ brace :: behind)
    (hends : EndsBlocks later) (hunended : ∀ token ∈ ahead, token.isEndOfFile = false)
    (hsilent : (ofTokens file (ahead ++ word :: name :: (header ++ opening ::
      (body ++ brace :: (behind ++ later)))) arena).diagnostics = []) :
    let omitted := ahead ++ word :: name :: (header ++ opening :: (body ++ (behind ++ later)))
    let found := later.head?.getD (Parsed.closing file omitted)
    SameButTree name.asName (ofTokens file (ahead ++ word :: name :: (header ++ opening ::
        (body ++ brace :: (behind ++ later)))) arena).program (ofTokens file omitted arena).program ∧
      (ofTokens file omitted arena).diagnostics =
        [SyntaxReport.unclosedBlock found opening.range] := by
  intro omitted found
  generalize htokens : ahead ++ word :: name :: (header ++ opening ::
    (body ++ brace :: (behind ++ later))) = tokens at hsilent ⊢
  have hquiet : (initial file tokens arena).Quiet := ⟨initial_sealed file _ arena, rfl, rfl⟩
  have hrest : (initial file tokens arena).rest = ahead ++ word :: name :: (header ++ opening ::
      (inner ++ closing :: (later ++ ending file tokens))) := by
    have hblock := congrArg (· ++ (later ++ ending file tokens)) hsplit
    simp only [List.append_assoc, List.cons_append, List.nil_append] at hblock
    rw [rest_ending, hblock]
    simp [← htokens]
  obtain ⟨hitems, decls, u, finish, t, hturns, hu, hgoes, hparses, hcurrent⟩ :=
    ParsesTree.exists hquiet hsilent htree hrest hunended
  obtain ⟨front, last, hfront, hstop, hparted⟩ := htree.parted hitems hbrace hsplit ahead
  have hwhole : tokens = _ := htokens.symm.trans (hparted (brace :: (behind ++ later)))
  have homitted : omitted = _ := hparted (behind ++ later)
  have hclosed := hparses.behind.sealed.closed
  rw [hparses.still, hwhole] at hclosed
  obtain ⟨hsame, k, hlast, hloses, hright, hswitch, hfinal⟩ :=
    exists_brace_fork _ arena hstop hbrace hclosed
  rw [← hwhole] at hsame hloses hswitch hfinal
  rw [← homitted] at hsame hright hswitch
  have hsome : later ++ ending file omitted ≠ [] := by
    intro hnone
    rw [hnone, List.map_nil, List.map_eq_nil_iff, ← hparses.still] at hsame
    exact hparses.behind.sealed.rest_ne_nil hsame
  obtain ⟨others, hfound, hbreaks⟩ := ending_found hends hsome
  rw [hfound] at hsame hright
  have hunclosed := hparses.unclosed hu hgoes hturns hsilent hfinal hloses
    ⟨front, by rw [hcurrent, hfront, hlast]⟩ hsplit hright hsame hbreaks
  rw [hswitch, hcurrent] at hunclosed
  exact hunclosed

/-- **A missing brace costs one report.** Leave out a brace that closes the block of a tree of a
faultless stream, or a block in it, where nothing or a word that no statement begins with comes behind
the tree. Then one error is reported, at that word or at the end of the file, and the declarations are
those that they were, but for what is in the tree. -/
theorem ofTokens_missingBrace (hfile : file.isDetached = false)
    (htree : TreeTokens word name header opening inner closing)
    (hbrace : brace.kind = .punctuation .rBrace) (hsplit : inner ++ [closing] = body ++ brace :: behind)
    (hends : EndsBlocks later) (hunended : ∀ token ∈ ahead, token.isEndOfFile = false) :
    let tokens := ahead ++ word :: name :: (header ++ opening :: (body ++ brace :: (behind ++ later)))
    let omitted := ahead ++ word :: name :: (header ++ opening :: (body ++ (behind ++ later)))
    let original := ofTokens file tokens arena
    let recovered := ofTokens file omitted arena
    let found := later.head?.getD (Parsed.closing file omitted)
    (∀ token ∈ tokens, token.range.file = file) → original.diagnostics = [] →
    ∃ report, recovered.diagnostics = [report] ∧ report.severity = .error ∧
      report.code = some Code.expectedToken ∧
      report.labels = [⟨found.range, .primary, "expected `\x7d`"⟩,
        ⟨opening.range, .secondary, "block opened here"⟩] ∧
      SameButTree name.asName original.program recovered.program := by
  intro tokens omitted original recovered found hplaced hsilent
  obtain ⟨hprogram, hreport⟩ := recovered_missingBrace htree hbrace hsplit hends hunended hsilent
  have hlocated : ∀ token : Token, token.range.file = file → token.range.isLocated = true := by
    intro token htoken
    rw [SourceRange.isLocated, htoken, hfile]
    rfl
  have hfound : found.range.file = file := by
    cases later with
    | nil => rfl
    | cons next later => exact hplaced next (by simp [tokens])
  have hopening : opening.range.file = file := hplaced opening (by simp [tokens])
  exact ⟨_, hreport, SyntaxReport.severity_unclosedBlock _ _,
    Diagnostic.code_withSecondary _ opening.range "block opened here",
    SyntaxReport.labels_unclosedBlock (hlocated found hfound) (hlocated opening hopening), hprogram⟩

/-- Of the first of two trees the block loses the brace of the block in it. -/
theorem ofTokens_missingBrace_of_nested :
    let file := FileId.registered 0
    let token (kind : TokenKind) (text : String) : Token := ⟨kind, text, .emptyAt file 0, false⟩
    let parens : List Token := [token (.punctuation .lParen) "(", token (.punctuation .rParen) ")"]
    let call (text : String) : List Token :=
      token .identifier text :: (parens ++ [token (.punctuation .semi) ";"])
    let word := token (.keyword .treeWord) "tree"
    let name := token .identifier "Main"
    let opening := token (.punctuation .lBrace) "\x7b"
    let brace := token (.punctuation .rBrace) "\x7d"
    let body := token .identifier "Go" :: opening :: call "Stop"
    let inner := body ++ brace :: call "Wait"
    let behind := call "Wait" ++ [brace]
    let later := word :: token .identifier "Other" :: (parens ++ [opening, brace])
    let original := ofTokens file ([] ++ word :: name :: (parens ++ opening ::
      (body ++ brace :: (behind ++ later)))) .empty
    let recovered := ofTokens file ([] ++ word :: name :: (parens ++ opening ::
      (body ++ (behind ++ later)))) .empty
    TreeTokens word name parens opening inner brace ∧ inner ++ [brace] = body ++ brace :: behind ∧
      EndsBlocks later ∧ original.diagnostics = [] ∧
      ∃ report, recovered.diagnostics = [report] ∧ report.severity = .error ∧
        report.code = some Code.expectedToken ∧
        report.labels = [⟨word.range, .primary, "expected `\x7d`"⟩,
          ⟨opening.range, .secondary, "block opened here"⟩] ∧
        SameButTree name.asName original.program recovered.program := by
  intro file token parens call word name opening brace body inner behind later original recovered
  have hcall : ∀ text, Braced (call text) := fun text =>
    .plain nofun nofun nofun (.plain nofun nofun nofun (.plain nofun nofun nofun
      (.plain nofun nofun nofun .nil)))
  have htree : TreeTokens word name parens opening inner brace :=
    ⟨rfl, by decide, rfl, .plain nofun nofun nofun (.group rfl (hcall "Stop") rfl (hcall "Wait")), rfl⟩
  have hsilent : original.diagnostics = [] := by decide +kernel
  have hends : EndsBlocks later := by
    rintro _ ⟨⟩
    exact .inr ⟨.treeWord, by decide, rfl⟩
  exact ⟨htree, rfl, hends, hsilent, ofTokens_missingBrace rfl htree rfl rfl hends nofun
    (by decide +kernel) hsilent⟩

end Parsed

end BehaviorTree
