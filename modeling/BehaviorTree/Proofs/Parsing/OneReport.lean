import BehaviorTree.Proofs.Parsing.Gates
import BehaviorTree.Proofs.Parsing.Progress

/-!
# One gated report for each token

A gated report is made where a token is still to come, and it is paid for with that token: before
another one is made the parser moves on. So no more of them are made than tokens are consumed. A
construct that begins with a word of its own is a token ahead once the word is consumed; where no
construct begins, the one report is followed by a skip.
-/

namespace BehaviorTree

/-! ### Skipping to a declaration -/

theorem Skip.untilStop_pos {set : RecoverySet} {token : Token} (hgoes : set.stopsAt token = false)
    (rest : List Token) : 0 < Skip.untilStop set (token :: rest) := by
  have hend : token.isEndOfFile = false := (Bool.or_eq_false_iff.mp hgoes).1
  simp [Skip.untilStop, Skip.untilStopIn, hend, hgoes]

theorem RecoverySet.stopsAt_opener {token : Token} (hend : token.isEndOfFile = false)
    (hword : token.isOpenerWord = false) : RecoverySet.stopsAt [.opener] token = false := by
  obtain ⟨kind, text, range, newlineBefore⟩ := token
  cases kind with
  | keyword word =>
      have hopener : word.isOpener = false := hword
      simp [stopsAt, Token.isEndOfFile, Stop.ofKind?, hopener]
  | endOfFile => simp [Token.isEndOfFile] at hend
  | operator op => cases op <;> rfl
  | punctuation mark => cases mark <;> rfl
  | _ => rfl

namespace Parser

open ParserState SyntaxReport

variable {start s : ParserState} {count : Nat} {diagnostic : Diagnostic}

/-! ### Reports and the tokens that pay for them -/

/-- A run has led here that made no more gated reports than it consumed tokens. -/
def Paid (start s : ParserState) : Prop :=
  ∃ log, Run start log s ∧ start.position + (gatedPositions log).length ≤ s.position

/-- A run has led here that is a token ahead of its gated reports, unless its last one is about the
current token. -/
def Ahead (start s : ParserState) : Prop :=
  ∃ log, Run start log s ∧ start.position + (gatedPositions log).length +
    (if s.reportedAt = some s.position then 0 else 1) ≤ s.position

theorem Ahead.paid (h : Ahead start s) : Paid start s := by
  obtain ⟨log, hrun, hle⟩ := h
  exact ⟨log, hrun, Nat.le_trans (Nat.le_add_right _ _) hle⟩

theorem length_gatedPositions_snoc (log : List Step) (step : Step) :
    (gatedPositions (log ++ [step])).length =
      (gatedPositions log).length + if step.act.isGated then 1 else 0 := by
  unfold gatedPositions
  cases hstep : step.act.isGated <;> simp [hstep]

theorem Paid.skip (h : Paid start s) (hpasses : s.Passes count) : Paid start (s.skip count) := by
  obtain ⟨log, hrun, hle⟩ := h
  refine ⟨_, hrun.move hpasses, ?_⟩
  rw [length_gatedPositions_snoc]
  exact Nat.le_add_right_of_le hle

theorem Paid.ahead (h : Paid start s) (hpasses : s.Passes count) (hmoves : 0 < count) :
    Ahead start (s.skip count) := by
  obtain ⟨log, hrun, hle⟩ := h
  refine ⟨_, hrun.move hpasses, ?_⟩
  rw [length_gatedPositions_snoc]
  show start.position + (_ + 0) + _ ≤ s.position + count
  split <;> omega

theorem Paid.report (h : Paid start s) (hungated : Ungated diagnostic) :
    Paid start (s.report diagnostic) := by
  obtain ⟨log, hrun, hle⟩ := h
  refine ⟨_, hrun.report hungated, ?_⟩
  rw [length_gatedPositions_snoc]
  exact hle

/-- A report and the token that pays for it. -/
theorem Paid.reportOnce_skip (h : Paid start s) (hgated : Gated s diagnostic)
    (hpasses : s.Passes count) (hmoves : 0 < count) :
    Paid start ((s.reportOnce diagnostic).skip count) := by
  by_cases hopen : s.reportedAt = some s.position
  · rw [ParserState.reportOnce, if_pos hopen]
    exact h.skip hpasses
  · obtain ⟨log, hrun, hle⟩ := h
    have hnext : (s.reportOnce diagnostic).Passes count := by
      unfold Passes
      rw [rest_reportOnce]
      exact hpasses
    refine ⟨_, (hrun.reportOnce hgated hopen).move hnext, ?_⟩
    rw [length_gatedPositions_snoc, length_gatedPositions_snoc]
    show start.position + (_ + 1 + 0) ≤ (s.reportOnce diagnostic).position + count
    rw [s.position_reportOnce]
    omega

theorem Ahead.skip (h : Ahead start s) (hpasses : s.Passes count) : Ahead start (s.skip count) := by
  cases count with
  | zero => exact h
  | succ count => exact h.paid.ahead hpasses count.succ_pos

theorem Ahead.report (h : Ahead start s) (hungated : Ungated diagnostic) :
    Ahead start (s.report diagnostic) := by
  obtain ⟨log, hrun, hle⟩ := h
  refine ⟨_, hrun.report hungated, ?_⟩
  rw [length_gatedPositions_snoc]
  exact hle

/-- The report uses up the token by which the state is ahead. -/
theorem Ahead.reportOnce (h : Ahead start s) (hgated : Gated s diagnostic) :
    Ahead start (s.reportOnce diagnostic) := by
  by_cases hopen : s.reportedAt = some s.position
  · rw [ParserState.reportOnce, if_pos hopen]
    exact h
  · obtain ⟨log, hrun, hle⟩ := h
    refine ⟨_, hrun.reportOnce hgated hopen, ?_⟩
    rw [if_neg hopen] at hle
    have hclosed : (s.reportOnce diagnostic).reportedAt = some s.position := by
      simp [ParserState.reportOnce, hopen]
    rw [length_gatedPositions_snoc, s.position_reportOnce, hclosed, if_pos rfl]
    exact hle

theorem Ahead.withArena {later : Arena} (h : Ahead start s) :
    Ahead start { s with arena := later } := by
  obtain ⟨log, hrun, hle⟩ := h
  refine ⟨_, hrun.build, ?_⟩
  rw [length_gatedPositions_snoc]
  exact hle

/-- What is a token ahead stays so. -/
def Invariant.ahead (start : ParserState) : Invariant :=
  .ofStates (Ahead start) Ahead.skip Ahead.report Ahead.reportOnce Ahead.withArena

/-! ### Parsers that pay for their reports -/

variable {α β : Type} {p : Parser α} {f : α → Parser β}

/-- The parser consumes a token for every gated report that it makes. -/
def Pays (start : ParserState) (p : Parser α) : Prop :=
  ∀ s, Paid start s → Paid start (p s).2

theorem Pays.pure (a : α) : Pays start (Pure.pure a : Parser α) := fun _ h => h

theorem Pays.bind (hp : Pays start p) (hf : ∀ a, Pays start (f a)) : Pays start (p >>= f) :=
  fun s h => hf (p s).1 (p s).2 (hp s h)

theorem Pays.peek {f : Token → Parser β} (hf : ∀ token, Pays start (f token)) : Pays start (Parser.peek >>= f) :=
  fun s h => hf s.current s h

theorem Pays.skip {count : List Token → Nat} (hstops : Skip.Stops count) : Pays start (skip count) :=
  fun s h => h.skip (s.passes_of_stops hstops)

theorem advance_of_goes {s : ParserState} (hgoes : s.current.isEndOfFile = false) :
    (advance s).2 = s.skip 1 := by
  simp [Parser.advance, hgoes]

theorem advance_of_ended {s : ParserState} (hended : s.current.isEndOfFile = true) :
    (advance s).2 = s := by
  simp [Parser.advance, hended]

theorem Pays.advance : Pays start advance := by
  intro s h
  cases hend : s.current.isEndOfFile with
  | true =>
      rw [advance_of_ended hend]
      exact h
  | false =>
      rw [advance_of_goes hend]
      exact h.skip (passes_one hend)

theorem Pays.accept (test : Token → Bool) : Pays start (accept test) := by
  refine .peek fun token => ?_
  split
  · exact .bind .advance fun _ => .pure _
  · exact .pure _

theorem Pays.report {diagnostic : Diagnostic} (hungated : Ungated diagnostic) :
    Pays start (report diagnostic) := fun _ h => h.report hungated

theorem Pays.iterate {body : α → Parser (Turn α)} (hbody : ∀ value, Pays start (body value)) (value : α) :
    Pays start (iterate body value) := by
  have halong : ∀ (turns : List Token) (value : α), Pays start (iterateAlong body turns value) := by
    intro turns
    induction turns with
    | nil =>
        intro value
        refine .bind (hbody value) fun turn => ?_
        cases turn with
        | again last => exact .pure _
        | done last => exact .pure _
    | cons token turns ih =>
        intro value
        refine .bind (hbody value) fun turn => ?_
        cases turn with
        | again next => exact ih next
        | done last => exact .pure _
  exact fun s h => halong s.rest value s h

theorem Pays.docComments : Pays start docComments := by
  refine .iterate (fun docs => .peek fun token => ?_) Docs.none
  split
  · exact .bind .advance fun _ => .pure _
  · exact .bind (.report (.misplacedModuleDoc _)) fun _ => .bind .advance fun _ => .pure _
  · exact .pure _

theorem Pays.moduleDocs : Pays start moduleDocs := by
  refine .iterate (fun docs => .peek fun token => ?_) []
  split
  · exact .bind .advance fun _ => .pure _
  · exact .pure _

theorem Pays.danglingDocs (range : Option SourceRange) : Pays start (danglingDocs range) := by
  cases range with
  | none => exact .pure _
  | some range => exact .report (.danglingDocs range)

theorem Pays.foreignPart (shape : ForeignShape) (value : Unit) : Pays start (foreignPart shape value) := by
  have hopens : ∀ mark, Pays start (Parser.atPunctuation mark) := fun _ _ h => h
  refine .bind (.skip Skip.stops_header) fun _ => .bind (hopens _) fun opens => ?_
  split
  · refine .bind (.skip Skip.stops_block) fun _ => .peek fun next => ?_
    split
    · exact .bind .advance fun _ => .pure _
    · exact .pure _
  · exact .bind (.accept _) fun _ => .pure _

/-! ### Declarations -/

/-- The parser consumes a token for every gated report that it makes in this state. -/
def PaysAt (start s : ParserState) (p : Parser α) : Prop := Paid start (p s).2

theorem PaysAt.peek {f : Token → Parser β} (hf : PaysAt start s (f s.current)) :
    PaysAt start s (Parser.peek >>= f) := hf

theorem PaysAt.peekSecond {f : Token → Parser β} (hf : PaysAt start s (f (s.tokenAt 1))) :
    PaysAt start s (Parser.peekSecond >>= f) := hf

theorem meets_attribute (attr : Option Attribute) : Meets (fun _ => True) attr := by
  cases attr with
  | none => exact .none
  | some attr => exact .some ⟨fun _ _ => trivial, trivial⟩

section

variable {docs : Docs} {attr : Option Attribute} (h : Paid start s)
include h

/-- A construct that begins with a token is ahead by that token. -/
theorem Paid.begins [Marked α] (hp : Begins (.ahead start) p)
    (hgoes : s.current.isEndOfFile = false) : Ahead start (p s).2 := by
  refine (hp s ⟨trivial, trivial⟩ ?_).2
  rw [advance_of_goes hgoes]
  exact h.ahead (passes_one hgoes) Nat.one_pos

/-- The report on a foreign word is paid for with that word. -/
theorem Paid.skipForeign (word : ForeignWord) (hgoes : s.current.isEndOfFile = false) :
    Paid start (skipForeign word s).2 := by
  have hgoes' : (s.reportOnce (SyntaxReport.foreignWord word s.current.range)).current.isEndOfFile =
      false := by
    rw [(s.beside_reportOnce _).current]
    exact hgoes
  have hword : Paid start (advance (s.reportOnce
      (SyntaxReport.foreignWord word s.current.range))).2 := by
    rw [advance_of_goes hgoes']
    exact h.reportOnce_skip (.foreignWord word) (passes_one hgoes) Nat.one_pos
  exact Pays.iterate (Pays.foreignPart word.shape) () _ hword

/-- Where no declaration starts, the report is paid for with what is skipped. -/
theorem Paid.noDeclaration (hend : ∃ token ∈ start.rest, token.isEndOfFile = true)
    (hgoes : s.current.isEndOfFile = false) (hword : s.current.isOpenerWord = false) :
    Paid start (declarationAfter.noDeclaration s).2 := by
  have hstops := s.passes_of_stops (Skip.stops_untilStop [.opener])
  have hrest : 0 < Skip.untilStop [.opener] s.rest := by
    obtain ⟨log, hrun, -⟩ := h
    obtain ⟨count, hcount, hplace⟩ := hrun.skipped
    have hlt := hcount.lt_length hend
    cases hrest : s.rest with
    | nil =>
        have hlength := congrArg List.length hplace.rest
        rw [hrest] at hlength
        simp only [ParserState.skip, List.length_nil, List.length_drop] at hlength
        omega
    | cons token rest =>
        have hcurrent : s.current = token := by simp [ParserState.current, tokenAt, hrest]
        rw [hcurrent] at hgoes hword
        exact Skip.untilStop_pos (RecoverySet.stopsAt_opener hgoes hword) rest
  have hsame : ∀ d, (s.reportOnce d).rest = s.rest := s.rest_reportOnce
  show Paid start ((s.reportOnce _).skip (Skip.untilStop [.opener] (s.reportOnce _).rest))
  rw [hsame]
  exact h.reportOnce_skip (.expectedWithHelp _ _) hstops hrest

/-- Behind the `#` of an attribute there is a token to pay for one report more. -/
theorem Paid.attributeHere : Paid start (attributeHere s).2 ∧
    ((attributeHere s).1.isSome → Ahead start (attributeHere s).2) := by
  have hrun : Parser.attributeHere s =
      (if s.current.isPunctuation .hash then
        Parser.advance >>= fun _ => attributeBehind s.current.range (Stop.rBracket :: RecoverySet.top)
      else Pure.pure none) s := by
    show (Parser.acceptPunctuation .hash >>= fun opened =>
      if opened then attributeBehind s.current.range (Stop.rBracket :: RecoverySet.top)
      else Pure.pure none) s = _
    rw [Parser.acceptPunctuation, accept_bind]
    rfl
  rw [hrun]
  split
  · rename_i hhash
    have hgoes : s.current.isEndOfFile = false := by
      rw [Token.isPunctuation, beq_iff_eq] at hhash
      simp [Token.isEndOfFile, hhash]
    have hrange : Meets (Invariant.ahead start).good s.current.range := trivial
    have hbehind := Respects.attributeBehind hrange (Stop.rBracket :: RecoverySet.top)
    have hahead := h.begins (.advance fun _ _ => hbehind) hgoes
    exact ⟨hahead.paid, fun _ => hahead⟩
  · exact ⟨h, fun hsome => by cases hsome⟩

/-- What a declaration reports is paid for with its first word, where it has one of its own. -/
theorem PaysAt.declarationAfter (hend : ∃ token ∈ start.rest, token.isEndOfFile = true)
    (hattr : attr.isSome → Ahead start s) : PaysAt start s (declarationAfter docs attr) := by
  have hmeets := meets_attribute attr
  have hgoes : ∀ kind, s.current.kind = kind → kind ≠ .endOfFile → s.current.isEndOfFile = false :=
    fun kind hkind hne => by simp [Token.isEndOfFile, hkind, hne]
  have hplain : ∀ {parser : Parser (Option (DeclHead → Decl))} {word : Keyword},
      Begins (.ahead start) parser → s.current.kind = .keyword word →
        PaysAt start s (plainDecl parser docs attr) := by
    intro parser word hparser hkind
    exact (h.begins (.plainDecl hparser docs hmeets) (hgoes _ hkind (by simp))).paid
  have hnone : s.current.isEndOfFile = false → s.current.isOpenerWord = false →
      PaysAt start s declarationAfter.noDeclaration := h.noDeclaration hend
  unfold Parser.declarationAfter
  refine .peek ?_
  split
  · rename_i hkind
    split
    · exact h.skipForeign _ (hgoes _ hkind (by simp))
    · exact hnone (hgoes _ hkind (by simp)) (by simp [Token.isOpenerWord, Token.keyword?, TokenKind.keyword?, hkind])
  · exact hplain .importDecl (by assumption)
  · rename_i hkind
    refine .peekSecond ?_
    split
    · exact hplain .opaqueTypeDecl hkind
    · exact (h.begins (.finishedNodeDecl docs ⟨trivial, trivial⟩ hmeets) (hgoes _ hkind (by simp))).paid
  · exact hplain .typeAliasDecl (by assumption)
  · exact hplain .varDecl (by assumption)
  · exact hplain .constDecl (by assumption)
  · exact hplain .treeDecl (by assumption)
  · show Paid start (Parser.nothingDeclared docs attr s).2
    cases attr with
    | none => exact Pays.danglingDocs docs.range s h
    | some attr =>
        have hexpected : Respects (.ahead start)
            (Parser.expected "an `extern` declaration after the attribute") := .expected _
        exact Ahead.paid (hexpected s (hattr rfl)).2
  · rename_i hended
    have hword : s.current.isOpenerWord = false := by
      unfold Token.isOpenerWord Token.keyword?
      cases hkind : s.current.kind with
      | keyword word => cases word <;> first | rfl | contradiction
      | _ => rfl
    exact hnone (hgoes _ rfl hended) hword

end

section

variable (hend : ∃ token ∈ start.rest, token.isEndOfFile = true)
include hend

theorem Pays.declaration : Pays start declaration := by
  intro s h
  obtain ⟨hattr, hahead⟩ := Paid.attributeHere (Pays.docComments s h)
  exact PaysAt.declarationAfter hattr hend hahead

theorem Pays.programTurn (decls : List Decl) : Pays start (programTurn decls) := by
  have hdecl : Pays start (Parser.orStepOver Parser.declaration fun _ => false) := by
    intro s h
    rw [orStepOver_apply]
    split
    · exact (Pays.declaration hend).bind (fun _ => .bind .advance fun _ => .pure _) s h
    · exact Pays.declaration hend s h
  have hended : Pays start Parser.atEnd := fun _ h => h
  refine .bind hended fun ended => ?_
  split
  · exact .pure _
  · exact .bind hdecl fun _ => .pure _

theorem Pays.program : Pays start program := by
  refine .bind .moduleDocs fun docs => .bind (.iterate (.programTurn hend) _) fun decls => ?_
  exact fun _ h => h

end

end Parser

namespace Parsed

open BehaviorTree.Parser

/-- The tokens in front of a parser end with the end of the file. -/
theorem exists_end (file : FileId) (tokens : List Token) (arena : Arena) :
    ∃ token ∈ (initial file tokens arena).rest, token.isEndOfFile = true := by
  unfold initial
  cases hlast : tokens.getLast? with
  | none => exact ⟨closing file tokens, by simp, rfl⟩
  | some last =>
      cases hend : last.isEndOfFile with
      | true => exact ⟨last, by simpa [hend] using List.mem_of_getLast? hlast, hend⟩
      | false => exact ⟨closing file tokens, by simp [hend], rfl⟩

theorem length_rest_initial_le (file : FileId) (tokens : List Token) (arena : Arena) :
    (initial file tokens arena).rest.length ≤ tokens.length + 1 := by
  unfold initial
  dsimp only
  split <;> simp

/-- **One gated report for each token.** Whatever tokens a program is parsed from, the parser gets to
its last state in steps between which the position never decreases, and what these steps report is
what the program is returned with. Each step is taken where it says, a gated report there is about
the token at that position, and gated are just the reports of words from elsewhere and of tokens
that should be others. Their positions are those of tokens and increase from one to the next, so no
two of them share a token, and there are no more of them than tokens. -/
theorem ofTokens_gated (file : FileId) (tokens : List Token) (arena : Arena) :
    let start := initial file tokens arena
    let last := (Parser.program start).2
    ∃ log, Run start log last ∧
      (path start log last).Pairwise (· ≤ ·) ∧
      reports log = (ofTokens file tokens arena).diagnostics ∧
      (∀ step ∈ log, step.Fits start) ∧
      (∀ step ∈ log, ∀ gated diagnostic, step.act = .report gated diagnostic →
        (gated = true ↔ SyntaxReport.IsGated diagnostic)) ∧
      (gatedPositions log).Pairwise (· < ·) ∧
      (∀ position ∈ gatedPositions log, position < start.rest.length) ∧
      (gatedPositions log).length ≤ tokens.length := by
  intro start last
  have hend : ∃ token ∈ start.rest, token.isEndOfFile = true := exists_end file tokens arena
  have hlength : start.rest.length ≤ tokens.length + 1 := length_rest_initial_le file tokens arena
  have hstart : Paid start start := ⟨[], .nothing, Nat.le_refl _⟩
  obtain ⟨log, hrun, hpaid⟩ : Paid start last := Pays.program hend start hstart
  obtain ⟨hincrease, hbefore⟩ := hrun.gated
  obtain ⟨count, hcount, hplace⟩ := hrun.skipped
  have hposition : last.position = count := hplace.position.trans (Nat.zero_add count)
  have hconsumed : count < start.rest.length := hcount.lt_length hend
  refine ⟨log, hrun, hrun.monotone, ?_, hrun.fits, ?_, hincrease, ?_, ?_⟩
  · exact hrun.diagnostics.symm
  · intro step hstep gated diagnostic hact
    obtain ⟨_, _, _, hreport⟩ := hrun.fits step hstep
    rcases hreport gated diagnostic hact with ⟨rfl, hgated⟩ | ⟨rfl, hungated⟩
    · exact ⟨fun _ => hgated.isGated, fun _ => rfl⟩
    · exact ⟨fun h => absurd h Bool.false_ne_true, fun h => (hungated.not_isGated h).elim⟩
  · intro position hmem
    exact Nat.lt_of_le_of_lt (hbefore position hmem).1 (hposition ▸ hconsumed)
  · have hstarted : start.position = 0 := rfl
    rw [hstarted, hposition] at hpaid
    omega

end Parsed

end BehaviorTree
