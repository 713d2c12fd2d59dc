import BehaviorTree.Proofs.Parsing.Anywhere
import BehaviorTree.Proofs.Parsing.ForkedBlocks
import BehaviorTree.Proofs.Parsing.ItemsAccepted
import BehaviorTree.Proofs.Parsing.ProgramsFlow
import BehaviorTree.Proofs.Parsing.ProgramsRead

/-!
# Declarations behind other declarations

A silent run through a program takes one declaration after another. Each of them ends in a `;` or in
a closing brace, and what comes behind that it does not look at. So the first declarations are parsed
the same in front of any other tokens, and behind any other tokens the last ones are.
-/

namespace BehaviorTree

/-- The kinds that a declaration ends in. -/
def TokenKind.endsDecl (kind : TokenKind) : Bool :=
  kind == .punctuation .semi || kind == .punctuation .rBrace

theorem TokenKind.isStop_of_endsDecl {kind : TokenKind} (h : kind.endsDecl = true) :
    kind.isStop = true := by
  rcases Bool.or_eq_true_iff.mp h with h | h
  · rw [beq_iff_eq.mp h]
    rfl
  · rw [beq_iff_eq.mp h]
    rfl

namespace ParserState

variable {s t : ParserState}

theorem Ready.sealed (h : s.Ready) : s.Sealed := by
  obtain ⟨before, hrest⟩ := h.ended
  exact ⟨h.final, s.final, by simp [hrest], h.final⟩

theorem Ready.quiet (h : s.Ready) (hsilent : s.Silent) : s.Quiet :=
  ⟨h.sealed, hsilent, h.gate hsilent⟩

theorem Level.skip (h : s.Level) (count : Nat) : (s.skip count).Level :=
  ⟨h.final, h.lastLine, fun token htoken => h.lines token (List.mem_of_mem_drop htoken)⟩

theorem Level.of_onward (h : s.Level) (honward : s.Onward t) : t.Level :=
  ⟨honward.final ▸ h.final, honward.final ▸ h.lastLine,
    fun token htoken => h.lines token (honward.rest.subset htoken)⟩

/-- The state with other tokens to come. -/
def facing (s : ParserState) (tokens : List Token) : ParserState := { s with rest := tokens }

theorem current_facing {front tokens rest : List Token} {token : Token}
    (hrest : s.rest = front ++ token :: rest) :
    (s.facing (front ++ token :: tokens)).current = s.current := by
  unfold current tokenAt
  rw [hrest]
  cases front <;> rfl

/-- In front of what comes to another state with the same end of the file. -/
theorem Ready.facing (h : s.Ready) (hready : t.Ready) (hfinal : t.final = s.final) {tokens : List Token}
    (hknown : ∀ token ∈ tokens, token.kind ≠ .unknown) : (s.facing (tokens ++ t.rest)).Ready where
  final := h.final
  ended := by
    obtain ⟨before, hrest⟩ := hready.ended
    refine ⟨tokens ++ before, ?_⟩
    show tokens ++ t.rest = tokens ++ before ++ [s.final]
    rw [hrest, hfinal, List.append_assoc]
  known token htoken := (List.mem_append.mp htoken).elim (hknown token) (hready.known token)
  gate := h.gate

end ParserState

open ParserState

/-- Two runs on tokens that stand on one line. The first has consumed some tokens more, and while it
reports nothing the second reports nothing either. -/
def Books.level (lead : Nat) : Books where
  related s t := s.position = t.position + lead ∧ s.Level ∧
    (s.Silent → s.reportedAt = none ∧ t.Silent)
  lead := lead
  position h := h.1
  begun h hline := by
    rw [h.2.1.newlineBefore_current] at hline
    cases hline
  skip h count := ⟨(congrArg (· + count) h.1).trans (Nat.add_right_comm _ _ _), h.2.1.skip count, h.2.2⟩
  report h _ := ⟨h.1, ⟨h.2.1.final, h.2.1.lastLine, h.2.1.lines⟩,
    fun hsilent => (not_silent_report _ hsilent).elim⟩
  reportOnce {s t d d'} h _ := by
    have hhonest : s.Honest := fun hsilent => (h.2.2 hsilent).1
    refine ⟨?_, ⟨?_, ?_, ?_⟩, fun hsilent => (hhonest.not_silent_reportOnce d hsilent).elim⟩
    · rw [position_reportOnce, position_reportOnce, h.1]
    · rw [final_reportOnce, h.2.1.final]
    · rw [final_reportOnce, h.2.1.lastLine]
    · rw [rest_reportOnce]
      exact h.2.1.lines
  withArena h _ _ := ⟨h.1, ⟨h.2.1.final, h.2.1.lastLine, h.2.1.lines⟩, h.2.2⟩

namespace Parser

variable {s t u s' : ParserState} {k : Fork} {decls decls' last : List Decl}

/-! ### One declaration -/

theorem TreePlan.heedless {tokens : List Token} {finish : List Stmt → Parser (Option Decl)}
    (h : TreePlan tokens finish) (body : List Stmt) : Heedless (finish body) := by
  obtain ⟨_, _, -, -, _, docs, start, ⟨_, name, _, params, -, -, -, -, rfl⟩, rfl⟩ := h
  exact .bind (.pure _) fun _ => .finishDecl _ docs start none

/-- **Declarations end.** What a silent run parses as a declaration ends in a `;` or in a closing
brace, and it is parsed the same whatever comes behind that. -/
theorem declaration_ends (hquiet : s.Quiet) (hsilent : (declaration s).2.Silent)
    (hgoes : s.current.isEndOfFile = false) :
    ∃ front mark, s.rest = front ++ mark :: (declaration s).2.rest ∧ mark.kind.endsDecl = true ∧
      ∀ k : Fork, k.last = mark → k.left = (declaration s).2.rest →
        declaration (k.switch s) = ((declaration s).1, k.switch (declaration s).2) := by
  rcases (Crosses.declaration hquiet hsilent hgoes).quietly hquiet hsilent with
    ⟨-, hclosing⟩ | ⟨finish, t, tokens, made, hplan, hstretch, hopening⟩
  · obtain ⟨tokens, semi, made, hstretch, -, hsemi⟩ := hclosing.item
    have hrest : s.rest = tokens ++ semi :: (declaration s).2.rest := by
      rw [hstretch.rest, List.append_assoc, List.singleton_append]
    refine ⟨tokens, semi, hrest, by rw [hsemi]; rfl, fun k hlast hleft => ?_⟩
    exact hclosing.same k ⟨hquiet.sealed.ended, tokens, by rw [hlast, hleft, hrest]⟩ hleft.symm
  · have hfinishes := hplan.finishes
    have hquiet' := hopening.quiet hstretch hquiet hsilent hfinishes.grows
    have hrun := hopening.run
    rw [hrun] at hsilent ⊢
    have hbehind : (block t).2.Quiet :=
      Runs.quiet (.ofRespects fun _ => .block) hfinishes.grows hquiet' hsilent
    obtain ⟨inner, closing, hinner, -, hclosing⟩ := block_items hquiet' hbehind.silent hopening.brace
    have hstill : ((block >>= finish) t).2.rest = (block t).2.rest :=
      hfinishes.still (block t).1 (block t).2 hbehind hsilent
    rw [hstill]
    refine ⟨tokens ++ t.current :: inner, closing, ?_, by rw [hclosing]; rfl, fun k hlast hleft => ?_⟩
    · rw [hstretch.rest, hinner]
      simp
    · have hbefore : k.Before t := ⟨hquiet'.sealed.ended, t.current :: inner, by
        rw [hlast, hleft, hinner, List.cons_append]⟩
      rw [hopening.same k hbefore]
      show finish (block (k.switch t)).1 (block (k.switch t)).2 = _
      rw [block_exact hquiet' hbehind.silent hopening.brace hbefore hleft.symm]
      exact (hplan.heedless _).same k _

/-- The same, in front of any tokens. -/
theorem declaration_facing (hquiet : s.Quiet) (hsilent : (declaration s).2.Silent)
    (hgoes : s.current.isEndOfFile = false) :
    ∃ front mark, s.rest = front ++ mark :: (declaration s).2.rest ∧ mark.kind.endsDecl = true ∧
      ∀ tokens, (∃ token ∈ tokens, token.isEndOfFile = true) →
        declaration (s.facing (front ++ mark :: tokens)) =
          ((declaration s).1, (declaration s).2.facing tokens) := by
  obtain ⟨front, mark, hrest, hmark, hsame⟩ := declaration_ends hquiet hsilent hgoes
  refine ⟨front, mark, hrest, hmark, fun tokens htokens => ?_⟩
  have hruns : Runs declaration := .ofRespects fun _ => .declaration
  let k : Fork := {
    last := mark
    left := (declaration s).2.rest
    right := tokens
    final := s.final
    stops := TokenKind.isStop_of_endsDecl hmark
    leftClosed := ((hruns s).sealed hquiet.sealed).closed
    rightClosed := htokens
    ended := hquiet.sealed.ended }
  have hhere : k.switch s = s.facing (front ++ mark :: tokens) := by
    have hswitch : (k.switch s).rest = front ++ mark :: tokens := Fork.switch_before hrest
    show { s with rest := (k.switch s).rest } = _
    rw [hswitch]
    rfl
  have hthere : k.switch (declaration s).2 = (declaration s).2.facing tokens := by
    have hswitch : (k.switch (declaration s).2).rest = tokens := rest_switch rfl
    have hfinal : (declaration s).2.final = s.final := (hruns.onward s).final
    show { (declaration s).2 with rest := (k.switch (declaration s).2).rest, final := s.final } = _
    rw [hswitch, ← hfinal]
    rfl
  rw [← hhere, ← hthere]
  exact hsame k rfl rfl

/-! ### Many declarations -/

theorem ready_turns (h : Turns programTurn decls s decls' u) (hready : s.Ready) : u.Ready := by
  induction h with
  | nothing decls s => exact hready
  | @again decls _ _ s _ _ _ ih => exact ih (Reads.programTurn decls hready).1

/-- What a turn of a silent run adds. -/
theorem programTurn_again {next : List Decl} (hquiet : s.Quiet)
    (hagain : (programTurn decls s).1 = .again next) :
    s.current.isEndOfFile = false ∧ next = decls ++ (declaration s).1.toList ∧
      (programTurn decls s).2 = (declaration s).2 := by
  cases hgoes : s.current.isEndOfFile with
  | true =>
      rw [programTurn_ended hgoes] at hagain
      cases hagain
  | false =>
      rw [programTurn_goes hquiet.sealed hgoes] at hagain ⊢
      cases hagain
      exact ⟨rfl, rfl, rfl⟩

/-- The first declarations are parsed the same in front of any other tokens. -/
theorem Turns.facing (h : Turns programTurn decls s decls' u) (hquiet : s.Quiet) (hsilent : u.Silent) :
    ∃ front, s.rest = front ++ u.rest ∧ (∀ mark ∈ front.getLast?, mark.kind.endsDecl = true) ∧
      ∀ tokens, (∃ token ∈ tokens, token.isEndOfFile = true) →
        Turns programTurn decls (s.facing (front ++ tokens)) decls' (u.facing tokens) := by
  induction h with
  | nothing decls s => exact ⟨[], rfl, nofun, fun tokens _ => .nothing _ _⟩
  | @again decls next _ s u hagain hlater ih =>
      have hbehind := (Driven.programTurn decls s).reached.quiet hquiet
        ((hlater.reached .programTurn).silent hsilent)
      obtain ⟨hgoes, rfl, hstate⟩ := programTurn_again hquiet hagain
      rw [hstate] at ih hbehind hlater
      obtain ⟨front, mark, hrest, hmark, hsame⟩ := declaration_facing hquiet hbehind.silent hgoes
      obtain ⟨more, hmore, hmarks, hturns⟩ := ih hbehind hsilent
      refine ⟨front ++ mark :: more, ?_, ?_, fun tokens htokens => ?_⟩
      · rw [hrest, hmore, List.append_assoc, List.cons_append]
      · intro last hlast
        rw [List.getLast?_append, List.getLast?_cons, Option.some_or, Option.mem_some_iff] at hlast
        cases hfinal : more.getLast? with
        | none =>
            rw [hfinal, Option.getD_none] at hlast
            exact hlast ▸ hmark
        | some other =>
            rw [hfinal, Option.getD_some] at hlast
            exact hlast ▸ hmarks other hfinal
      · have hclosed : ∃ token ∈ more ++ tokens, token.isEndOfFile = true := by
          obtain ⟨token, hmem, hend⟩ := htokens
          exact ⟨token, List.mem_append_right _ hmem, hend⟩
        have hthere := hsame (more ++ tokens) hclosed
        have hsealed : (s.facing (front ++ mark :: (more ++ tokens))).Sealed := by
          refine ⟨hquiet.sealed.ended, ?_⟩
          obtain ⟨token, hmem, hend⟩ := hclosed
          exact ⟨token, List.mem_append_right _ (List.mem_cons_of_mem _ hmem), hend⟩
        have hcurrent : (s.facing (front ++ mark :: (more ++ tokens))).current.isEndOfFile = false := by
          rw [current_facing hrest, hgoes]
        have hturn : programTurn decls (s.facing (front ++ mark :: (more ++ tokens))) = _ :=
          programTurn_goes hsealed hcurrent
        rw [hthere] at hturn
        rw [List.append_assoc, List.cons_append]
        refine .again (congrArg Prod.fst hturn) ?_
        rw [show (programTurn decls (s.facing (front ++ mark :: (more ++ tokens)))).2 =
          (declaration s).2.facing (more ++ tokens) from congrArg Prod.snd hturn]
        exact hturns tokens htokens

/-- A silent run finds a declaration wherever the file does not end. -/
theorem declaration_reads (hready : s.Ready) (hsilent : (declaration s).2.Silent)
    (hgoes : s.current.isEndOfFile = false) :
    ∃ decl ts, (declaration s).1 = some decl ∧ DeclForm decl.shape ts ∧
      s.coming = ts ++ (declaration s).2.coming := by
  obtain ⟨-, tokens, hrest, -, hform⟩ := Reads.declaration hgoes hready
  obtain ⟨-, decl, hdecl, hform⟩ := hform hsilent
  exact ⟨decl, _, hdecl, hform, by rw [coming, hrest, List.map_append, coming]⟩

/-- The declarations that a loop is given stay in front. -/
theorem Loop.isPrefix (h : Loop programTurn decls s last s') (hquiet : s.Quiet) (hsilent : s'.Silent) :
    decls <+: last := by
  induction h with
  | @last decls last s hdone =>
      cases hgoes : s.current.isEndOfFile with
      | true =>
          rw [programTurn_ended hgoes] at hdone
          cases hdone
          exact List.prefix_rfl
      | false =>
          rw [programTurn_goes hquiet.sealed hgoes] at hdone
          cases hdone
  | @turn decls next last s s' hagain hlater ih =>
      have hbehind := (Driven.programTurn decls s).reached.quiet hquiet
        ((hlater.reached .programTurn).silent hsilent)
      obtain ⟨-, rfl, -⟩ := programTurn_again hquiet hagain
      exact (List.prefix_append decls _).trans (ih hbehind hsilent)

/-- A silent loop comes to a state in front of each declaration that it adds. -/
theorem Loop.reading {position : Nat} {decl : Decl} (h : Loop programTurn decls s last s')
    (hready : s.Ready) (hsilent : s'.Silent) (hposition : decls.length ≤ position)
    (hdecl : last[position]? = some decl) :
    ∃ front u, Turns programTurn decls s front u ∧ front.length = position ∧
      u.current.isEndOfFile = false ∧ (declaration u).1 = some decl ∧
      Loop programTurn (front ++ [decl]) (declaration u).2 last s' := by
  induction h with
  | @last decls last s hdone =>
      have hquiet := hready.quiet (((Driven.programTurn decls s).reached).silent hsilent)
      cases hgoes : s.current.isEndOfFile with
      | true =>
          rw [programTurn_ended hgoes] at hdone
          cases hdone
          rw [List.getElem?_eq_none hposition] at hdecl
          cases hdecl
      | false =>
          rw [programTurn_goes hquiet.sealed hgoes] at hdone
          cases hdone
  | @turn decls next last s s' hagain hlater ih =>
      have hturn := (hlater.reached .programTurn).silent hsilent
      have hquiet := hready.quiet ((Driven.programTurn decls s).reached.silent hturn)
      have hready' := (Reads.programTurn decls hready).1
      obtain ⟨hgoes, rfl, hstate⟩ := programTurn_again hquiet hagain
      rw [hstate] at hlater hturn hready' ih
      obtain ⟨found, -, hfound, -⟩ := declaration_reads hready hturn hgoes
      rw [hfound, Option.toList_some] at hlater hagain ih
      rcases Nat.eq_or_lt_of_le hposition with rfl | hless
      · obtain ⟨more, rfl⟩ := hlater.isPrefix (hready'.quiet hturn) hsilent
        obtain rfl : found = decl := by simpa using hdecl
        exact ⟨decls, s, .nothing _ _, rfl, hgoes, hfound, hlater⟩
      · have hmore : (decls ++ [found]).length ≤ position := by
          rw [List.length_append]
          exact hless
        obtain ⟨front, u, hturns, hrest⟩ := ih hready' hsilent hmore hdecl
        exact ⟨front, u, .again hagain (hstate ▸ hturns), hrest⟩

/-! ### Imports -/

section Import

variable {word path semi : Token} {text : String} {behind : List Token} {docs : Docs}

/-- An import stands at its tokens, from the word to the `;`. -/
theorem plainDecl_import (hrest : s.rest = word :: path :: semi :: behind)
    (hword : word.kind = .keyword .importWord) (hpath : path.kind = .string text)
    (hsemi : semi.kind = .punctuation .semi) :
    ∃ origin, (plainDecl importDecl docs none s).1 =
        some (.importFile ⟨origin, docs.lines⟩ text path.range) ∧
      origin.range = ⟨s.file, word.range.start, max semi.range.stop word.range.stop⟩ := by
  have hcurrent : s.current = word := current_of_rest hrest
  have hfirst : advance s = (word, s.skip 1) :=
    Prod.ext hcurrent (advance_of_goes (by simp [hcurrent, Token.isEndOfFile, hword]))
  have hrest₁ : (s.skip 1).rest = path :: semi :: behind := by simp [ParserState.skip, hrest]
  have hcurrent₁ : (s.skip 1).current = path := current_of_rest hrest₁
  have hsecond : advance (s.skip 1) = (path, (s.skip 1).skip 1) :=
    Prod.ext hcurrent₁ (advance_of_goes (by simp [hcurrent₁, Token.isEndOfFile, hpath]))
  let s₂ : ParserState := (Parser.intern text ((s.skip 1).skip 1)).2
  have hrest₂ : s₂.rest = semi :: behind := by
    show ((s.skip 1).rest.drop 1) = _
    rw [hrest₁]
    rfl
  have hcurrent₂ : s₂.current = semi := current_of_rest hrest₂
  have hrun : importDecl s = (some (.importFile · text path.range), s₂.skip 1) := by
    have hthird : expectSemi "after import" .top s₂ = ((), s₂.skip 1) :=
      expectSemi_found _ _ (by rw [AtSemi, hcurrent₂, hsemi])
    simp only [importDecl, bind, StateT.bind, Parser.peek, hfirst, hcurrent₁, hpath, hsecond]
    show (some _, (expectSemi "after import" .top s₂).2) = _
    rw [hthird]
  have hlast : (s₂.skip 1).lastRange = semi.range := by
    simp [ParserState.skip, hrest₂]
  refine ⟨⟨(s₂.skip 1).arena.decls.size, (s₂.skip 1).rangeSince word.range⟩, ?_, ?_⟩
  · show (finishDecl (importDecl s).1 docs s.current.range none (importDecl s).2).1 = _
    rw [hrun, hcurrent]
    rfl
  · show (⟨s.file, word.range.start, max (s₂.skip 1).lastRange.stop word.range.stop⟩ : SourceRange) = _
    rw [hlast]

theorem attributeHere_none (hmark : s.current.isPunctuation .hash = false) :
    attributeHere s = (none, s) := by
  have haccept : acceptPunctuation .hash s = (false, s) := accept_fails hmark
  simp only [attributeHere, bind, StateT.bind, Parser.peek, haccept]
  rfl

theorem declarationAfter_import {attr : Option Attribute}
    (hword : s.current.kind = .keyword .importWord) :
    declarationAfter docs attr s = plainDecl importDecl docs attr s := by
  simp only [declarationAfter, bind, StateT.bind, Parser.peek, hword]

/-- **Imports.** An import of a silent run consists of its documentation and three tokens, and these
are its range. -/
theorem declaration_import {head : DeclHead} {range : SourceRange} (hready : s.Ready)
    (hsilent : (declaration s).2.Silent) (hgoes : s.current.isEndOfFile = false)
    (hdecl : (declaration s).1 = some (.importFile head text range)) :
    ∃ docs word path semi, s.rest = docs ++ word :: path :: semi :: (declaration s).2.rest ∧
      docs.map Token.terminal = docTerminals head.docs ∧ word.kind = .keyword .importWord ∧
      path.kind = .string text ∧ semi.kind = .punctuation .semi ∧
      head.origin.range = ⟨s.file, word.range.start, max semi.range.stop word.range.stop⟩ := by
  obtain ⟨-, tokens, hrest, -, hform⟩ := Reads.declaration hgoes hready
  obtain ⟨hsilent', decl, hfound, hform⟩ := hform hsilent
  obtain rfl := Option.some.inj (hdecl.symm.trans hfound)
  generalize htokens : tokens.map Token.terminal = ts at hform
  cases hform with
  | mk lines hhead hbare =>
      obtain rfl : head.docs = lines := congrArg DeclHead.docs hhead
      cases hbare
      obtain ⟨docs, three, rfl, hdocs, hthree⟩ := List.map_eq_append_iff.mp htokens
      obtain ⟨word, two, rfl, hword, htwo⟩ := List.map_eq_cons_iff.mp hthree
      obtain ⟨path, one, rfl, hpath, hone⟩ := List.map_eq_cons_iff.mp htwo
      obtain ⟨semi, nothing, rfl, hsemi, hnothing⟩ := List.map_eq_cons_iff.mp hone
      obtain rfl := List.map_eq_nil_iff.mp hnothing
      replace hword : word.kind = .keyword .importWord := Token.kind_of_terminal hword
      replace hpath : path.kind = .string text := Token.kind_of_terminal hpath
      replace hsemi : semi.kind = .punctuation .semi := Token.kind_of_terminal hsemi
      rw [List.append_assoc] at hrest
      refine ⟨docs, word, path, semi, hrest, hdocs, hword, hpath, hsemi, ?_⟩
      -- behind the documentation the word comes next
      have hcoming : s.rest.map Token.terminal = docTerminals head.docs ++
          (word :: path :: semi :: (declaration s).2.rest).map Token.terminal := by
        rw [hrest, List.map_append, hdocs]
        rfl
      have hlines : ∀ line, word.kind ≠ .docComment line ∧ word.kind ≠ .moduleDoc line := by
        simp [hword]
      have haccepts : Accepts docComments (docTerminals head.docs)
          ((word :: path :: semi :: (declaration s).2.rest).map Token.terminal) (·.lines = head.docs) :=
        Accepts.docComments (fun line => (hlines line).1) fun line => (hlines line).2
      obtain ⟨-, htook⟩ := haccepts.anywhere Flows.docComments Agrees.docComments
        (fun _ _ hgood hsame => (congrArg Prod.fst hsame).symm.trans hgood) hready.sealed.ended hcoming
      have hsilent₁ : (docComments s).2.Silent := htook.diagnostics.trans hsilent'
      have hwalks : Walks 0 0 docComments s := Walks.docComments
      obtain ⟨_, _, hstretch, -⟩ := hwalks.quietly (hready.quiet hsilent') hsilent₁
      have hrest₁ : (docComments s).2.rest = word :: path :: semi :: (declaration s).2.rest := by
        have hlength : (docTerminals head.docs).length = docs.length := by rw [← hdocs, List.length_map]
        rw [htook.rest, hlength, hrest, List.drop_left]
        rfl
      have hcurrent₁ : (docComments s).2.current = word := current_of_rest hrest₁
      have hnone := attributeHere_none (s := (docComments s).2)
        (by simp [hcurrent₁, Token.isPunctuation, hword])
      have hrun : declaration s =
          plainDecl importDecl (docComments s).1 none (docComments s).2 := by
        show declarationAfter (docComments s).1 (attributeHere (docComments s).2).1
          (attributeHere (docComments s).2).2 = _
        rw [hnone, declarationAfter_import (by rw [hcurrent₁, hword])]
      obtain ⟨origin, hbuilt, hrange⟩ := plainDecl_import hrest₁ hword hpath hsemi
      rw [hrun, hbuilt, Option.some.injEq, Decl.importFile.injEq] at hfound
      rw [← hfound.1, hrange, hstretch.file]

end Import

end Parser

end BehaviorTree
