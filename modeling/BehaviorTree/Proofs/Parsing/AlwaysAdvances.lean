import BehaviorTree.Proofs.Parsing.RecoverySteps
import BehaviorTree.Proofs.Parsing.Enough
import BehaviorTree.Proofs.Parsing.Terminators

/-!
# The parser always advances

Where a declaration or a statement is asked for at least one token is consumed, whatever the tokens
are: a construct that begins with a word of its own consumes that word, and where none begins the
recovery does not stop at once. So the steps over a token that nothing consumed are never taken, no
loop runs for ever, and a program ends in front of the end of the file.
-/

namespace BehaviorTree

theorem Skip.untilStop_stopped {set : RecoverySet} {token : Token} (hstops : set.stopsAt token = true)
    (rest : List Token) : Skip.untilStop set (token :: rest) = 0 :=
  (Skip.scan_untilStop set).stopped token rest hstops

/-- Inside a tree body recovery stops at `;`, at the end of a block and at words that open a
declaration. -/
theorem RecoverySet.stopsAt_statement {token : Token} (hend : token.isEndOfFile = false)
    (hclosed : token.isPunctuation .rBrace = false) (hword : token.isOpenerWord = false) :
    RecoverySet.statement.stopsAt token = token.isPunctuation .semi := by
  obtain ⟨kind, text, range, newlineBefore⟩ := token
  cases kind with
  | keyword word =>
      have hopener : word.isOpener = false := hword
      simp [stopsAt, Token.isEndOfFile, Token.isPunctuation, Stop.ofKind?, hopener]
  | endOfFile => simp [Token.isEndOfFile] at hend
  | operator op => cases op <;> rfl
  | punctuation mark => cases mark <;> first | rfl | simp [Token.isPunctuation] at hclosed
  | _ => rfl

namespace Parser

open ParserState SyntaxReport

variable {α β : Type} {s t : ParserState} {p : Parser α} {f : α → Parser β} {goal : β → Prop}

/-! ### Parsers that consume a token -/

/-- A first part that may consume tokens leaves it to the rest where it does not. -/
theorem Drives.unless [Marked α] [Marked β] (hp : ∀ inv, Respects inv p)
    (hruns : ∀ start a, Meets (Invariant.reached start).good a → Respects (.reached start) (f a))
    (hf : ∀ a s', Meets (Invariant.reached s).good a → s'.Beside s → Drives s' goal (f a)) :
    Drives s goal (p >>= f) := by
  have hmeets : Meets (Invariant.reached s).good (p s).1 := (hp (.reached s) s (Reached.refl s)).1
  have hfirst : Reached s (p s).2 := Runs.ofRespects hp s
  have hbehind : Reached (p s).2 ((p >>= f) s).2 := (hruns (p s).2 (p s).1 hmeets (p s).2 (Reached.refl _)).2
  refine ⟨hfirst.trans hbehind, fun hsealed hgoal => ?_⟩
  rcases Nat.eq_or_lt_of_le hfirst.position_le with hstill | hmoved
  · have hbeside : (p s).2.Beside s := hfirst.beside hstill.symm
    have hmoves := (hf (p s).1 (p s).2 hmeets hbeside).moves (hfirst.sealed hsealed) hgoal
    rw [hbeside.position] at hmoves
    exact hmoves
  · exact Nat.lt_of_lt_of_le hmoved hbehind.position_le

/-- A parser that consumes a token whatever comes behind it. -/
theorem Drives.first (hp : Drives s (fun _ => True) p) (hf : ∀ a, Runs (f a)) :
    Drives s goal (p >>= f) :=
  hp.sooner (fun a _ => hf a) fun _ _ hnot => (hnot trivial).elim

/-- The parser consumes a token in the state. -/
abbrev Moves (s : ParserState) (p : Parser α) : Prop := Drives s (fun _ => True) p

theorem Moves.advances (hp : Moves s p) (hsealed : s.Sealed) : s.Advances (p s).2 :=
  hp.reached.advances hsealed (hp.moves hsealed trivial)

/-- What consumes a token needs no step over one. -/
theorem Moves.orStepOver (hp : Moves s p) (hsealed : s.Sealed) (exempt : Token → Bool) :
    orStepOver p exempt s = p s := by
  have hmoved := hp.moves hsealed trivial
  exact if_neg fun hstill => Nat.ne_of_gt hmoved hstill.1

/-! ### Declarations -/

section

variable (docs : Docs) (attr : Option Attribute) (hgoes : s.current.isEndOfFile = false)
include hgoes

theorem Moves.skipForeign (word : ForeignWord) : Moves s (skipForeign word) := by
  have hparts : Runs (iterate (foreignPart word.shape) ()) :=
    .ofRespects fun _ => .iterate (fun value _ => .foreignPart word.shape value) trivial
  let reported := s.reportOnce (SyntaxReport.foreignWord word s.current.range)
  have hbeside : reported.Beside s := s.beside_reportOnce _
  have hbehind : Moves reported (Parser.advance >>= fun _ => iterate (foreignPart word.shape) ()) :=
    .advance (by rw [hbeside.current, hgoes]) fun _ => hparts
  refine ⟨(Runs.ofRespects fun _ => .skipForeign word) s, fun hsealed hgoal => ?_⟩
  have hmoved := hbehind.moves (hsealed.beside hbeside) hgoal
  rw [hbeside.position] at hmoved
  exact hmoved

theorem Moves.noDeclaration (hword : s.current.isOpenerWord = false) :
    Moves s declarationAfter.noDeclaration := by
  refine ⟨(Runs.ofRespects fun _ => .noDeclaration) s, fun hsealed _ => ?_⟩
  have hpositive := Skip.untilStop_pos (RecoverySet.stopsAt_opener hgoes hword) (s.rest.drop 1)
  rw [← hsealed.rest_eq] at hpositive
  show s.position < (s.reportOnce _).position + Skip.untilStop [.opener] (s.reportOnce _).rest
  rw [rest_reportOnce, position_reportOnce]
  exact Nat.lt_add_of_pos_right hpositive

theorem Moves.declarationAfter : Moves s (declarationAfter docs attr) := by
  have hmeets : Meets (Invariant.reached (Parser.advance s).2).good attr := meets_attribute attr
  have hplain : ∀ {parser : Parser (Option (DeclHead → Decl))},
      (∀ inv, Begins inv parser) → Moves s (plainDecl parser docs attr) :=
    fun hparser => .begins (.plainDecl (hparser _) docs hmeets) hgoes
  have hnone : s.current.isOpenerWord = false → Moves s declarationAfter.noDeclaration :=
    Moves.noDeclaration hgoes
  unfold Parser.declarationAfter
  refine .peek ?_
  split
  · rename_i hkind
    split
    · exact .first (Moves.skipForeign hgoes _) fun _ => .pure _
    · exact hnone (by simp [Token.isOpenerWord, Token.keyword?, TokenKind.keyword?, hkind])
  · exact hplain fun _ => .importDecl
  · refine .peekSecond ?_
    split
    · exact hplain fun _ => .opaqueTypeDecl
    · exact .begins (.finishedNodeDecl docs ⟨trivial, trivial⟩ hmeets) hgoes
  · exact hplain fun _ => .typeAliasDecl
  · exact hplain fun _ => .varDecl
  · exact hplain fun _ => .constDecl
  · exact hplain fun _ => .treeDecl
  · rename_i hkind
    simp [Token.isEndOfFile, hkind] at hgoes
  · refine hnone ?_
    unfold Token.isOpenerWord Token.keyword?
    cases hkind : s.current.kind with
    | keyword word => cases word <;> first | rfl | contradiction
    | _ => rfl

end

/-- **A declaration consumes a token.** -/
theorem Moves.declaration (hgoes : s.current.isEndOfFile = false) : Moves s declaration := by
  refine .unless (fun _ => .docComments) (fun start docs hdocs => .bind .attributeHere
    fun attr hattr => .declarationAfter hdocs hattr) fun docs s' hdocs hs' => ?_
  refine .unless (fun _ => .attributeHere) (fun start attr hattr => .declarationAfter hdocs hattr)
    fun attr s'' _ hs'' => ?_
  exact Moves.declarationAfter docs attr (by rw [hs''.current, hs'.current, hgoes])

/-! ### Statements -/

theorem Moves.abandonStatement (hgoes : s.current.isEndOfFile = false)
    (hopen : s.current.isPunctuation .rBrace = false) (hword : s.current.isOpenerWord = false) :
    Moves s abandonStatement := by
  refine ⟨(Runs.ofRespects fun _ => .abandonStatement) s, fun hsealed _ => ?_⟩
  have hstops := RecoverySet.stopsAt_statement hgoes hopen hword
  -- Recovery passes the current token, or stops at it because it is the `;` that is consumed next.
  cases hsemi : s.current.isPunctuation .semi with
  | false =>
      have hpositive := Skip.untilStop_pos (hstops.trans hsemi) (s.rest.drop 1)
      rw [← hsealed.rest_eq] at hpositive
      have hskipped : s.position < (synchronize .statement s).2.position :=
        Nat.lt_add_of_pos_right hpositive
      exact Nat.lt_of_lt_of_le hskipped (Runs.acceptPunctuation .semi _).position_le
  | true =>
      have hstill : synchronize .statement s = ((), s) := by
        show ((), s.skip (Skip.untilStop .statement s.rest)) = _
        rw [hsealed.rest_eq, Skip.untilStop_stopped (hstops.trans hsemi)]
        simp [ParserState.skip]
      have haccept : acceptPunctuation .semi s = (true, (Parser.advance s).2) := accept_passes hsemi
      show s.position < (acceptPunctuation .semi (synchronize .statement s).2).2.position
      rw [hstill, haccept, advance_of_goes hgoes]
      exact Nat.lt_succ_self s.position

section

variable {block : Parser (List Stmt)} (hblock : ∀ inv, Respects inv block)
include hblock

theorem Moves.bareStatement (preconditions : List Precondition) (docs : Docs)
    (hopen : s.current.isPunctuation .rBrace = false) (hgoes : breaksBlock s.current = false) :
    Moves s (bareStatement block preconditions docs) := by
  have hend : s.current.isEndOfFile = false := (Bool.or_eq_false_iff.mp hgoes).1
  unfold Parser.bareStatement
  refine .peek ?_
  split
  · exact .first (.begins (.varParts _) hend) fun _ => .pure _
  · exact .first (.begins (.constParts _) hend) fun _ => .pure _
  · split
    · exact .first (Moves.skipForeign hend _) fun _ => .pure _
    · refine .read ?_
      split
      · exact .begins .assignment hend
      · exact .begins (.node (hblock _)) hend
  · rename_i hkind
    simp [Token.isPunctuation, hkind] at hopen
  · rename_i hkind
    simp [Token.isEndOfFile, hkind] at hend
  · rename_i hvar hconst _ _ _
    cases hword : s.current.isOpenerWord with
    | true =>
        simp only [breaksBlock, hend, hword, Token.isKeyword, Bool.false_or, Bool.true_and,
          Bool.and_eq_false_iff, Bool.not_eq_false', beq_iff_eq] at hgoes
        exact (hgoes.elim hvar hconst).elim
    | false =>
        have habandons : ∀ inv, Respects inv (do
            Parser.abandonStatement
            Pure.pure (none : Option (StmtHead → Stmt))) :=
          fun _ => .bind .abandonStatement fun _ _ => .pure .none
        rw [if_neg (by simp)]
        refine .unless (fun _ => .expectedWithHelp _ _) (fun start _ _ => habandons _)
          fun _ s' _ hbeside => ?_
        have hcurrent := hbeside.current
        exact .first (Moves.abandonStatement (by rw [hcurrent, hend]) (by rw [hcurrent, hopen])
          (by rw [hcurrent, hword])) fun _ => .pure none

/-- **A statement consumes a token** where its block goes on. -/
theorem Moves.statement (hopen : s.current.isPunctuation .rBrace = false)
    (hgoes : breaksBlock s.current = false) : Moves s (statement block) := by
  refine .unless (fun _ => .docComments) (fun start docs hdocs => .bind .preconditions
    fun found hfound => .statementBehind (hblock _) hdocs hfound) fun docs s' hdocs hs' => ?_
  refine .unless (fun _ => .preconditions)
    (fun start found hfound => .statementBehind (hblock _) hdocs hfound) fun found s'' _ hs'' => ?_
  have hcurrent : s''.current = s.current := hs''.current.trans hs'.current
  refine .peek (.first (Moves.bareStatement hblock found docs (by rw [hcurrent, hopen])
    (by rw [hcurrent, hgoes])) fun result => ?_)
  cases result with
  | none => exact .pure none
  | some build => exact .bind (.rangeSince _) fun range => .bind (.newStmt _ _) fun _ => .pure _

end

/-! ### The loops around them -/

theorem Driven.blockTurn {block : Parser (List Stmt)} (hblock : ∀ inv, Respects inv block)
    (opening : SourceRange) : Driven (blockTurn (statement block) opening) := by
  intro stmts s
  have hstep : Reached s (orStepOver (Parser.statement block) (·.isPunctuation .rBrace) s).2 :=
    (Runs.ofRespects fun _ => .orStepOver (.statement (hblock _))) s
  have hclosed : Reached s (s.reportOnce (SyntaxReport.unclosedBlock s.current opening)) :=
    (Reached.refl s).reportOnce (.unclosedBlock opening)
  have hturn := blockTurn_eq (Parser.statement block) opening stmts s
  cases hopen : s.current.isPunctuation .rBrace with
  | true =>
      rw [if_pos hopen] at hturn
      refine ⟨?_, fun _ hgoal => ?_⟩
      · rw [hturn]
        exact Runs.advance s
      · rw [hturn] at hgoal
        exact hgoal.elim
  | false =>
      rw [if_neg (by simp [hopen])] at hturn
      cases hgoes : breaksBlock s.current with
      | true =>
          rw [if_pos hgoes] at hturn
          refine ⟨?_, fun _ hgoal => ?_⟩
          · rw [hturn]
            exact hclosed
          · rw [hturn] at hgoal
            exact hgoal.elim
      | false =>
          rw [if_neg (by simp [hgoes])] at hturn
          have hmoves := Moves.statement hblock hopen hgoes
          refine ⟨?_, fun hsealed _ => ?_⟩
          · rw [hturn]
            exact hstep
          · rw [hturn, hmoves.orStepOver hsealed]
            exact hmoves.moves hsealed trivial

theorem Driven.programTurn : Driven programTurn := by
  intro decls s
  have hstep : Reached s (orStepOver declaration (fun _ => false) s).2 :=
    (Runs.ofRespects fun _ => .orStepOver .declaration) s
  have hturn := programTurn_eq decls s
  cases hgoes : s.current.isEndOfFile with
  | true =>
      rw [if_pos hgoes] at hturn
      refine ⟨?_, fun _ hgoal => ?_⟩
      · rw [hturn]
        exact Reached.refl s
      · rw [hturn] at hgoal
        exact hgoal.elim
  | false =>
      rw [if_neg (by simp [hgoes])] at hturn
      have hmoves := Moves.declaration hgoes
      refine ⟨?_, fun hsealed _ => ?_⟩
      · rw [hturn]
        exact hstep
      · rw [hturn, hmoves.orStepOver hsealed]
        exact hmoves.moves hsealed trivial

theorem NestedRespects.terms {inv : Invariant} : NestedRespects inv terms where
  expression := .expression
  operand s hs := (NestedRespects.along s.rest).operand s hs
  type := .typeExpr

/-! ### Programs -/

/-- Where a run stops at the end of the file it has consumed all tokens in front of that. -/
theorem Reached.position_atEnd (h : Reached s t) (hsealed : s.Sealed)
    (hend : t.current.isEndOfFile = true) :
    t.position = s.position + (s.rest.takeWhile fun token => !token.isEndOfFile).length := by
  obtain ⟨count, hpasses, hbeside⟩ := h.passed
  have hlt := hpasses.lt_length hsealed.closed
  have hcurrent : t.current = s.rest[count] := by
    rw [hbeside.current]
    simp [ParserState.current, tokenAt, ParserState.skip, hlt]
  rw [hcurrent] at hend
  have hsplit : s.rest = s.rest.take count ++ s.rest[count] :: s.rest.drop (count + 1) := by
    rw [← List.drop_eq_getElem_cons hlt, List.take_append_drop]
  have hpassed : s.rest.takeWhile (fun token => !token.isEndOfFile) = s.rest.take count := by
    rw [hsplit, List.takeWhile_append_of_pos (fun token htoken => by simp [hpasses token htoken]),
      List.takeWhile_cons_of_neg (by simp [hend]), List.append_nil, ← hsplit]
  rw [hpassed, List.length_take, Nat.min_eq_left (Nat.le_of_lt hlt)]
  exact hbeside.position

end Parser

namespace Parsed

open BehaviorTree.Parser

variable (file : FileId) (tokens : List Token) (arena : Arena)

theorem initial_sealed : (initial file tokens arena).Sealed :=
  ⟨initial_ended tokens, exists_end file tokens arena⟩

/-- The token that closes a stream is not counted. -/
theorem takeWhile_initial :
    ((initial file tokens arena).rest.takeWhile fun token => !token.isEndOfFile) =
      tokens.takeWhile fun token => !token.isEndOfFile := by
  have hclosing : (closing file tokens).isEndOfFile = true := rfl
  unfold initial
  dsimp only
  split
  · rfl
  · rw [List.takeWhile_append]
    split
    · rename_i hall
      rw [List.takeWhile_cons_of_neg (by simp [hclosing]), List.append_nil]
      exact (List.takeWhile_sublist _).eq_of_length hall |>.symm
    · rfl

end Parsed

namespace Parser

open ParserState

/-- A loop comes to its end: a turn that asks for another one consumes a token, and a loop whose turns
nobody counts gets where the given number of turns leads. -/
structure Ends {α : Type} (body : α → Parser (Turn α)) : Prop where
  advances : ∀ v s next, s.Sealed → (body v s).1 = .again next → s.Advances (body v s).2
  ends : ∀ v s, s.Sealed → Loop body v s (iterate body v s).1 (iterate body v s).2

theorem Driven.ends {α : Type} {body : α → Parser (Turn α)} (hbody : Driven body) : Ends body where
  advances _ _ _ hsealed hagain := hbody.advances hsealed hagain
  ends _ _ hsealed := Loop.iterate hbody hsealed

/-- A call of the parser in a state consumes a token, so that no step over one comes behind it. -/
structure MovesOn {α : Type} (p : Parser α) (exempt : Token → Bool) (s : ParserState) : Prop where
  advances : s.Advances (p s).2
  unguarded : orStepOver p exempt s = p s

theorem Moves.movesOn {α : Type} {p : Parser α} {s : ParserState} (hp : Moves s p)
    (hsealed : s.Sealed) (exempt : Token → Bool) : MovesOn p exempt s where
  advances := hp.advances hsealed
  unguarded := hp.orStepOver hsealed exempt

/-- The parser makes progress. -/
structure MakesProgress : Prop where
  /-- A declaration consumes a token wherever the file goes on. -/
  declaration : ∀ s, s.Sealed → s.current.isEndOfFile = false →
    MovesOn declaration (fun _ => false) s
  /-- A statement consumes a token wherever its block goes on. -/
  statement : ∀ levels s, s.Sealed → s.current.isPunctuation .rBrace = false →
    breaksBlock s.current = false →
      MovesOn (statement (blockAlong levels)) (·.isPunctuation .rBrace) s
  /-- The loops over parts of items and of terms come to their ends. -/
  docs : Ends docTurn ∧ Ends moduleDocTurn
  params : ∀ what, Ends (paramTurn what)
  arguments : Ends argumentTurn
  preconditions : Ends preconditionTurn
  indices : Ends indexTurn
  terms : Ends (nextElement terms) ∧ Ends (suffix terms) ∧
    ∀ layer tighter, Ends (extendChain layer (layered terms tighter))
  /-- The loops of recovery come to their ends, and they skip what is skipped at once. -/
  recovery : ∀ set, Ends (scanTurn (RecoverySet.stopsAt set)) ∧
    ∀ s, s.Sealed → synchronize set s = iterate (scanTurn set.stopsAt) () s
  headers : Ends (scanTurn Skip.endsHeader) ∧
    ∀ s, s.Sealed → skip Skip.header s = iterate (scanTurn Skip.endsHeader) () s
  groups : Ends groupTurn ∧ ∀ s, s.Sealed → s.current.closer?.isSome = true →
    (skip Skip.group s).2 = (iterate groupTurn [] s).2
  foreign : ∀ shape, Ends (foreignPart shape)
  /-- The loops over items come to their ends. -/
  blocks : ∀ levels opening, Ends (blockTurn (Parser.statement (blockAlong levels)) opening)
  program : Ends programTurn
  /-- What is nested is parsed as if nobody counted the levels of nesting. -/
  nesting : ∀ s : ParserState, s.Sealed → expression s = expressionIn Parser.terms s ∧
    operandExpr s = unary Parser.terms s ∧ typeExpr s = typeIn Parser.terms s ∧
    block s = blockOf (Parser.statement block) s
  /-- A program ends in front of the first end of the file. -/
  finished : ∀ file tokens arena,
    let last := (Parser.program (Parsed.initial file tokens arena)).2
    last.current.isEndOfFile = true ∧
      last.position = (tokens.takeWhile fun token => !token.isEndOfFile).length

/-- **The parser always makes progress.** Every declaration and every statement that is asked for
consumes a token, every loop either consumes one in a turn or ends with it, and so every program is
parsed up to the end of the file. -/
theorem makesProgress : MakesProgress where
  declaration _ hsealed hgoes := (Moves.declaration hgoes).movesOn hsealed _
  statement levels _ hsealed hopen hgoes :=
    (Moves.statement (fun _ => .blockAlong levels) hopen hgoes).movesOn hsealed _
  docs := ⟨Driven.docTurn.ends, Driven.moduleDocTurn.ends⟩
  params what := (Driven.paramTurn what).ends
  arguments := Driven.argumentTurn.ends
  preconditions := Driven.preconditionTurn.ends
  indices := Driven.indexTurn.ends
  terms := by
    have hexpression : Runs terms.expression := .ofRespects fun _ => NestedRespects.terms.expression
    have htype : Runs terms.type := .ofRespects fun _ => NestedRespects.terms.type
    have hlayered : ∀ tighter, Runs (layered terms tighter) :=
      fun tighter => .ofRespects fun _ => .layered NestedRespects.terms tighter
    exact ⟨(Driven.nextElement hexpression).ends, (Driven.suffix hexpression htype).ends,
      fun layer tighter => (Driven.extendChain layer (hlayered tighter)).ends⟩
  recovery set := ⟨(Driven.scanTurn (Skip.scan_untilStop set).ended).ends,
    fun _ hsealed => (iterate_scanTurn (Skip.scan_untilStop set) hsealed).symm⟩
  headers := ⟨(Driven.scanTurn Skip.scan_header.ended).ends,
    fun _ hsealed => (iterate_scanTurn Skip.scan_header hsealed).symm⟩
  groups := ⟨Driven.groupTurn.ends,
    fun _ hsealed hopens => (iterate_groupTurn_nil hsealed hopens).symm⟩
  foreign shape := (Driven.foreignPart shape).ends
  blocks levels opening := (Driven.blockTurn (fun _ => .blockAlong levels) opening).ends
  program := Driven.programTurn.ends
  nesting _ hsealed := ⟨expression_eq hsealed.ended, operandExpr_eq hsealed.ended,
    typeExpr_eq hsealed.ended, block_eq hsealed.ended⟩
  finished file tokens arena := by
    have hsealed := Parsed.initial_sealed file tokens arena
    have hreached : Reached (Parsed.initial file tokens arena)
        (Parser.program (Parsed.initial file tokens arena)).2 := (Runs.ofRespects fun _ => .program) _
    have hend : (Parser.program (Parsed.initial file tokens arena)).2.current.isEndOfFile = true :=
      outline_atEnd _ hsealed.ended
    refine ⟨hend, ?_⟩
    rw [hreached.position_atEnd hsealed hend, Parsed.takeWhile_initial]
    exact Nat.zero_add _

end Parser

end BehaviorTree
