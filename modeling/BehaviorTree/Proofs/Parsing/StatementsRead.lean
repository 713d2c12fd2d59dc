import BehaviorTree.Parsing.Statement
import BehaviorTree.Proofs.Parsing.TermsRead

/-!
# What silent runs read: items and statements

Documentation, lists in parentheses and the parts of `var` and `const` are shared by statements and
declarations. A silent run of the loop that steps over a token has stepped over none, as the parser
inside it reports where it consumes nothing.
-/

namespace BehaviorTree

open ParserState

namespace Parser

variable {α : Type} {s : ParserState}

/-! ### Collecting items -/

/-- One more item at the end of those collected, or the end of the items. -/
def Collects (form : α → List Terminal → Prop) (close : List Terminal) (items : List α)
    (result : Turn (List α)) (ts _us : List Terminal) : Prop :=
  match result with
  | .again longer => ∃ item, longer = items ++ [item] ∧ form item ts
  | .done last => last = items ∧ ts = close

/-- One more item with the mark behind it, or the end of a list in parentheses. -/
def CollectsClosed (form : α → List Terminal → Prop) (items : List α) (result : Turn (List α))
    (ts _us : List Terminal) : Prop :=
  match result with
  | .again longer => ∃ item is, longer = items ++ [item] ∧ form item is ∧ ts = is ++ [.mark .comma]
  | .done last => (last = items ∧ ts = [.mark .rParen]) ∨
      ∃ item is, last = items ++ [item] ∧ form item is ∧ ts = is ++ [.mark .rParen]

variable {form : α → List Terminal → Prop} {close : List Terminal}

theorem Iterated.sequence {first last : List α} {ts us : List Terminal}
    (h : Iterated (Collects form close) first last ts us) : ∃ more is, last = first ++ more ∧
      ts = is ++ close ∧ Sequence form more is := by
  induction h with
  | done hturn =>
      obtain ⟨rfl, rfl⟩ := hturn
      exact ⟨[], [], by simp, by simp, .nil⟩
  | again hturn _ ih =>
      obtain ⟨item, rfl, hitem⟩ := hturn
      obtain ⟨more, is, rfl, rfl, hmore⟩ := ih
      exact ⟨item :: more, _, by simp, by simp, .cons hitem hmore⟩

theorem Iterated.closed {first last : List α} {ts us : List Terminal}
    (h : Iterated (CollectsClosed form) first last ts us) : ∃ more, last = first ++ more ∧
      Closed form more ts := by
  induction h with
  | done hturn =>
      obtain ⟨rfl, rfl⟩ | ⟨item, is, rfl, hitem, rfl⟩ := hturn
      · exact ⟨[], by simp, .nil⟩
      · exact ⟨[item], rfl, .last hitem⟩
  | again hturn _ ih =>
      obtain ⟨item, is, rfl, hitem, rfl⟩ := hturn
      obtain ⟨more, rfl, hmore⟩ := ih
      refine ⟨item :: more, by simp, ?_⟩
      simpa using Closed.more hitem hmore

/-! ### Parts of items -/

/-- Doc comments have a range around them, unless there are none. -/
def Docs.Ranged (docs : Docs) : Prop := docs.range = none → docs.lines = []

theorem Docs.ranged_push (docs : Docs) (line : String) (range : SourceRange) :
    Ranged (docs.push line range) := by
  intro h
  cases h

def DocTurn (docs : Docs) (result : Turn Docs) (ts _us : List Terminal) : Prop :=
  match result with
  | .again longer => ∃ line range, longer = docs.push line range ∧ ts = [.of (.docComment line)]
  | .done last => last = docs ∧ ts = []

theorem Reads.docTurn (docs : Docs) : Reads (docTurn docs) s (DocTurn docs) := by
  unfold Parser.docTurn
  refine Reads.peek ?_
  split
  · rename_i line hkind
    exact Reads.advance_of hkind (by simp) (by simp) fun _ _ => Reads.pure ⟨line, _, rfl, rfl⟩
  · refine Reads.bind_false Reads.report fun _ _ => ?_
    exact Recovers.bind Recovers.advance fun _ _ => Recovers.pure _
  · exact Reads.pure ⟨rfl, rfl⟩

theorem Iterated.docs {first last : Docs} {ts us : List Terminal}
    (h : Iterated DocTurn first last ts us) (hfirst : Docs.Ranged first) :
    ∃ more, last.lines = first.lines ++ more ∧ ts = docTerminals more ∧ Docs.Ranged last := by
  induction h with
  | done hturn =>
      obtain ⟨rfl, rfl⟩ := hturn
      exact ⟨[], by simp, rfl, hfirst⟩
  | again hturn _ ih =>
      obtain ⟨line, range, rfl, rfl⟩ := hturn
      obtain ⟨more, hlines, rfl, hlast⟩ := ih (Docs.ranged_push _ line range)
      exact ⟨line :: more, by simp [hlines, Docs.push], rfl, hlast⟩

theorem Reads.docComments : Reads docComments s fun docs ts _ =>
    ts = docTerminals docs.lines ∧ Docs.Ranged docs := by
  refine (Reads.iterate DocTurn ?_ fun docs s' _ => Reads.docTurn docs).mono
    fun docs ts us _ hloop => ?_
  · rintro v w vs ⟨_, _, _, h⟩
    cases h
  · obtain ⟨more, hlines, rfl, hranged⟩ := hloop.docs fun _ => rfl
    exact ⟨by rw [hlines]; rfl, hranged⟩

theorem Reads.direction : Reads direction s fun direction ts _ =>
    ts = directionTerminals direction := by
  unfold Parser.direction
  refine Reads.peek ?_
  split
  · rename_i direction hdirection
    obtain ⟨word, hword, hof⟩ := Option.bind_eq_some_iff.mp hdirection
    have hkeyword := Direction.keyword_of_ofKeyword? hof
    refine Reads.advance_of (Token.kind_of_keyword? hword) (by simp) (by simp) fun _ _ => ?_
    exact Reads.pure (by simp [directionTerminals, hkeyword, Terminal.word])
  · exact Reads.pure rfl

theorem Reads.listBreaksOff {β : Type} {inBody : Bool} {f : Bool → Parser β}
    {goal : β → List Terminal → List Terminal → Prop} (hf : ∀ b, Reads (f b) s goal) :
    Reads (listBreaksOff inBody >>= f) s goal := hf _

/-- Another item of a list follows, or its end has been read. -/
theorem Reads.listGoesOn {context : String} {inBody : Bool} :
    Reads (listGoesOn context inBody) s fun goesOn ts _ =>
      ts = if goesOn then [] else [.mark .rParen] := by
  unfold Parser.listGoesOn
  refine Reads.acceptPunctuation (fun _ _ => Reads.pure rfl) fun _ => ?_
  refine Reads.listBreaksOff fun breaks => ?_
  split
  · refine Reads.bind_false ?_ fun _ _ => Recovers.pure _
    exact Reads.bind_false Reads.missing fun _ _ => Recovers.pure _
  · exact Reads.pure rfl

theorem Reads.listContinues {context what : String} {inBody : Bool} {set : RecoverySet} :
    Reads (listContinues context what inBody set) s fun goesOn ts _ =>
      ts = [.mark (if goesOn then .comma else .rParen)] := by
  unfold Parser.listContinues
  refine Reads.acceptPunctuation (fun _ _ => Reads.pure rfl) fun _ => ?_
  refine Reads.bind Reads.listGoesOn fun goesOn s₁ _ => ?_
  cases goesOn with
  | true =>
      refine Reads.bind_false Reads.expected fun _ _ => ?_
      refine Recovers.bind Recovers.synchronize fun _ _ => ?_
      refine Recovers.bind Recovers.acceptPunctuation fun found _ => ?_
      cases found with
      | true => exact Recovers.pure _
      | false => exact Recovers.bind Recovers.acceptPunctuation fun _ _ => Recovers.pure _
  | false => exact Reads.pure fun ts hts => by simpa using hts

theorem Reads.declaredType : Reads declaredType s fun type ts _ =>
    TypePart (type.map TypeExpr.shape) ts := by
  unfold Parser.declaredType
  refine Reads.acceptPunctuation (fun s₁ _ => ?_) fun _ => Reads.pure .absent
  exact Reads.map Reads.typeExpr fun type ts us ⟨htype, _⟩ => .present htype

theorem Reads.initializer : Reads initializer s fun init ts _ =>
    ValuePart (init.map Expr.shape) ts := by
  unfold Parser.initializer
  refine Reads.acceptOperator (fun s₁ _ => ?_) fun _ => Reads.pure .absent
  exact Reads.map Reads.expression fun expr ts us ⟨hexpr, _⟩ => .present hexpr

/-- What `var` declares, read from its first word through the `;`. -/
def VarRead (parts : VarParts) (ts : List Terminal) : Prop :=
  ∃ types inits, TypePart (parts.type.map TypeExpr.shape) types ∧
    ValuePart (parts.init.map Expr.shape) inits ∧
    ts = .word .varWord :: .name parts.name.text :: (types ++ inits ++ [.mark .semi])

def ConstRead (parts : ConstParts) (ts : List Terminal) : Prop :=
  ∃ types values, TypePart (parts.type.map TypeExpr.shape) types ∧
    Derives (.expr parts.value.shape) values ∧
    ts = .word .constWord :: .name parts.name.text ::
      (types ++ .op .eq :: (values ++ [.mark .semi]))

theorem Reads.varParts {set : RecoverySet} (hkind : s.current.kind = .keyword .varWord) :
    Reads (varParts set) s fun result ts _ => ∃ parts, result = some parts ∧ VarRead parts ts := by
  unfold Parser.varParts
  refine Reads.advance_of hkind (by simp) (by simp) fun s₁ _ => ?_
  refine Reads.bind Reads.expectName fun found s₂ _ => ?_
  cases found with
  | none =>
      refine (Recovers.bind Recovers.acceptPunctuation fun _ _ => Recovers.pure _).mono ?_
      rintro _ _ _ - - ts ⟨_, h, -⟩
      cases h
  | some name =>
      refine Reads.bind Reads.declaredType fun type s₃ _ => ?_
      refine Reads.bind Reads.initializer fun init s₄ _ => ?_
      refine Reads.bind Reads.expectSemi fun _ s₅ _ => Reads.pure ?_
      rintro _ rfl inits hinits types htypes _ ⟨name', ⟨rfl⟩, rfl⟩
      exact ⟨_, rfl, types, inits, htypes, hinits, by simp [Terminal.word]⟩

theorem Reads.constParts {set : RecoverySet} (hkind : s.current.kind = .keyword .constWord) :
    Reads (constParts set) s fun result ts _ =>
      ∃ parts, result = some parts ∧ ConstRead parts ts := by
  unfold Parser.constParts
  refine Reads.advance_of hkind (by simp) (by simp) fun s₁ _ => ?_
  refine Reads.bind Reads.expectName fun found s₂ _ => ?_
  cases found with
  | none =>
      refine (Recovers.bind Recovers.acceptPunctuation fun _ _ => Recovers.pure _).mono ?_
      rintro _ _ _ - - ts ⟨_, h, -⟩
      cases h
  | some name =>
      refine Reads.bind Reads.declaredType fun type s₃ _ => ?_
      refine Reads.bind Reads.expectOperator fun found s₄ _ => ?_
      dsimp only
      split
      · refine Reads.bind Reads.expression fun value s₅ _ => ?_
        refine Reads.bind Reads.expectSemi fun _ s₆ _ => Reads.pure ?_
        rintro _ rfl values ⟨hvalue, -⟩ _ ⟨-, rfl⟩ types htypes _ ⟨name', ⟨rfl⟩, rfl⟩
        exact ⟨_, rfl, types, values, htypes, hvalue, by simp [Terminal.word]⟩
      · rename_i hfound
        refine (Recovers.bind Recovers.missingExpr fun _ _ => Recovers.bind
          Reads.expectSemi.recovers fun _ _ => Recovers.pure _).mono ?_
        rintro _ _ _ - - _ ⟨h, -⟩
        exact absurd h hfound

/-- A silent run has no reason to step over a token. -/
theorem Reads.orStepOver {parser : Parser α} {exempt : Token → Bool}
    {form : α → List Terminal → List Terminal → Prop} (hparser : Reads parser s form)
    (hprogress : ∀ a us, ¬form a [] us) : Reads (orStepOver parser exempt) s form := by
  intro hready
  obtain ⟨hready', tokens, hrest, hposition, hsilent⟩ := hparser hready
  have hrun : Parser.orStepOver parser exempt s =
      if (parser s).2.position = s.position ∧ !exempt (parser s).2.current then
        ((parser s).1, (Parser.advance (parser s).2).2)
      else parser s := rfl
  rw [hrun]
  split
  · rename_i hstuck
    obtain ⟨hready₂, skipped, hrest₂, hposition₂, hsilent₂⟩ :=
      Recovers.advance (s := (parser s).2) hready'
    have hposition' : s.position + skipped.length ≤ (Parser.advance (parser s).2).2.position := by
      omega
    have hnone : tokens = [] := by
      refine List.eq_nil_of_length_eq_zero ?_
      omega
    refine ⟨hready₂, skipped, by rw [hrest, hnone, List.nil_append, hrest₂], hposition', fun h => ?_⟩
    obtain ⟨-, hform⟩ := hsilent (hsilent₂ h).1
    exact (hprogress _ _ (hnone ▸ hform)).elim
  · exact ⟨hready', tokens, hrest, hposition, hsilent⟩

/-! ### Preconditions, arguments, indices -/

theorem Recovers.preconditionBehind (found : List Precondition) (start : SourceRange)
    (kind : Option PreconditionKind) : Recovers (preconditionBehind found start kind) s := by
  unfold Parser.preconditionBehind Parser.preconditionClosed
  dsimp only
  refine Recovers.bind Reads.expectPunctuation.recovers fun opened s₁ => ?_
  split
  · refine Recovers.bind Reads.expression.recovers fun _ _ => ?_
    refine Recovers.bind Reads.expectPunctuation.recovers fun _ _ => ?_
    refine Reads.rangeSince fun range => ?_
    split
    · exact Recovers.pure _
    · exact Recovers.pure _
  · exact Recovers.pure _

/-- What stands behind the name of a known kind makes a precondition with it. -/
theorem Reads.preconditionBehind (found : List Precondition) (start : SourceRange)
    (kind : PreconditionKind) :
    Reads (preconditionBehind found start (some kind)) s fun turn ts =>
      Collects (fun precondition => PreconditionForm precondition.shape) [] found turn
        (.mark .at :: .name kind.spelling :: ts) := by
  unfold Parser.preconditionBehind Parser.preconditionClosed
  refine Reads.bind Reads.expectPunctuation fun opened s₁ _ => ?_
  split
  · refine Reads.bind Reads.expression fun condition s₂ _ => ?_
    refine Reads.bind Reads.expectPunctuation fun _ s₃ _ => Reads.rangeSince fun range => ?_
    refine Reads.pure ?_
    rintro _ ⟨-, rfl⟩ ts ⟨hcondition, -⟩ _ ⟨-, rfl⟩
    refine ⟨_, rfl, ?_⟩
    simpa [Precondition.shape] using PreconditionForm.mk kind hcondition
  · rename_i hopened
    exact Reads.pure fun _ h => absurd h.1 hopened

theorem Reads.preconditionTurn (found : List Precondition) :
    Reads (preconditionTurn found) s
      (Collects (fun precondition => PreconditionForm precondition.shape) [] found) := by
  unfold Parser.preconditionTurn
  dsimp only
  refine Reads.peek ?_
  refine Reads.acceptPunctuation (fun s₁ _ => ?_) fun _ => Reads.pure ⟨rfl, rfl⟩
  refine Reads.bind Reads.expectName fun name s₂ _ => ?_
  cases name with
  | none =>
      refine (Recovers.bind Recovers.acceptPunctuation fun _ _ => Recovers.pure _).mono ?_
      rintro _ _ _ - - ts ⟨_, h, -⟩
      cases h
  | some name =>
      dsimp only
      split
      · exact Reads.bind_false Reads.report fun _ _ => Recovers.preconditionBehind found _ _
      · rename_i hknown
        obtain ⟨kind, hkind⟩ := Option.ne_none_iff_exists'.mp hknown
        rw [hkind]
        refine (Reads.preconditionBehind found _ kind).mono ?_
        rintro turn ts us - hturn _ ⟨_, ⟨rfl⟩, rfl⟩
        rw [PreconditionKind.spelling_of_ofSpelling? hkind]
        exact hturn

theorem Reads.preconditions : Reads preconditions s fun found ts _ =>
    Sequence PreconditionForm (found.map Precondition.shape) ts := by
  refine (Reads.iterate _ ?_ fun found s' _ => Reads.preconditionTurn found).mono
    fun found ts us _ hloop => ?_
  · rintro v w vs ⟨_, _, h⟩
    cases h
  · obtain ⟨more, is, rfl, rfl, hmore⟩ := hloop.sequence
    simpa using hmore.map

theorem Reads.argumentName : Reads argumentName s fun name ts _ =>
    ts = argumentNameTerminals (name.map Name.shape) := by
  unfold Parser.argumentName
  refine Reads.peek (Reads.peekSecond ?_)
  split
  · rename_i hnamed
    simp only [Bool.and_eq_true] at hnamed
    have hkind : s.current.kind = .identifier := by simpa [Token.isIdentifier] using hnamed.1
    have hcolon : (s.skip 1).current.kind = .punctuation .colon := by
      rw [current_skip_one]
      simpa [Token.isPunctuation] using hnamed.2
    refine Reads.advance_skip (by simp [Token.isEndOfFile, hkind]) fun _ => ?_
    rw [Token.terminal_eq_name hkind]
    refine Reads.advance_of hcolon (by simp) (by simp) fun s₂ _ => ?_
    refine Reads.map Reads.nameOf_self fun name ts us hname => ?_
    obtain ⟨rfl, rfl⟩ := hname
    rfl
  · exact Reads.pure rfl

theorem Reads.argument : Reads argument s fun argument => fun ts _ =>
    ArgumentForm argument.shape ts := by
  unfold Parser.argument
  dsimp only
  refine Reads.peek ?_
  refine Reads.bind Reads.argumentName fun name s₁ _ => ?_
  refine Reads.bind Reads.direction fun direction s₂ _ => ?_
  refine Reads.bind Reads.expression fun value s₃ _ => Reads.rangeSince fun range => Reads.pure ?_
  rintro ts ⟨hvalue, -⟩ ds hdirection ns hname
  subst hdirection hname
  have hform := ArgumentForm.mk (name.map Name.text) direction hvalue
  cases name with
  | none => simpa [Argument.shape] using hform
  | some name => simpa [Argument.shape, Name.shape] using hform

theorem Reads.argumentTurn (arguments : List Argument) : Reads (argumentTurn arguments) s
    (CollectsClosed (fun argument => ArgumentForm argument.shape) arguments) := by
  unfold Parser.argumentTurn
  dsimp only
  refine Reads.bind Reads.listGoesOn fun goesOn s₁ _ => ?_
  cases goesOn with
  | false => exact Reads.pure fun ts hts => .inl ⟨rfl, by simpa using hts⟩
  | true =>
      refine Reads.bind Reads.argument fun argument s₂ _ => ?_
      refine Reads.bind Reads.listContinues fun goesOn s₃ _ => ?_
      cases goesOn with
      | true =>
          refine Reads.pure fun ms hms is hargument ts hts => ⟨argument, is, rfl, hargument, ?_⟩
          simp [hts, hms]
      | false =>
          refine Reads.pure fun ms hms is hargument ts hts => .inr ⟨argument, is, rfl, hargument, ?_⟩
          simp [hts, hms]

theorem Reads.arguments : Reads arguments s fun arguments ts _ =>
    Optional (.mark .lParen) (Closed ArgumentForm)
      (arguments.map fun list => list.map Argument.shape) ts := by
  unfold Parser.arguments
  refine Reads.acceptPunctuation (fun s₁ _ => ?_) fun _ => Reads.pure .absent
  refine Reads.map (Reads.iterate _ ?_ fun arguments s₂ _ => Reads.argumentTurn arguments)
    fun arguments ts us hloop => ?_
  · rintro v w vs ⟨_, _, _, _, h⟩
    simp at h
  · obtain ⟨more, rfl, hmore⟩ := hloop.closed
    exact .present hmore.map

theorem Reads.indexTurn (indices : List Expr) : Reads (indexTurn indices) s
    (Collects (fun index => IndexForm index.shape) [] indices) := by
  unfold Parser.indexTurn
  refine Reads.acceptPunctuation (fun s₁ _ => ?_) fun _ => Reads.pure ⟨rfl, rfl⟩
  refine Reads.bind Reads.expression fun index s₂ _ => ?_
  dsimp only
  refine Reads.acceptPunctuation (fun s₃ _ => Reads.pure ?_) fun _ => Reads.peek ?_
  · rintro ts ⟨hindex, -⟩
    exact ⟨index, rfl, .mk hindex⟩
  · split
    · exact Reads.bind_false Reads.expected fun _ _ => Recovers.pure _
    · refine Reads.bind Reads.expectPunctuation fun _ s₃ _ => Reads.pure ?_
      rintro closer ⟨-, rfl⟩ ts ⟨hindex, -⟩
      exact ⟨index, rfl, by simpa using IndexForm.mk hindex⟩

/-! ### Statements -/

/-- A statement has been read, whatever stands in front of it. -/
def StmtRead (result : Option (StmtHead → Stmt)) (ts : List Terminal) : Prop :=
  ∃ build, result = some build ∧ ∀ head, (build head).head = head ∧
    StmtForm (.bare (build head).shape) ts

theorem Recovers.abandonStatement : Recovers abandonStatement s :=
  Recovers.bind Recovers.synchronize fun _ _ => Recovers.bind Recovers.acceptPunctuation fun _ _ => Recovers.pure _

theorem Reads.assignment (hkind : s.current.kind = .identifier) :
    Reads assignment s fun result ts _ => StmtRead result ts := by
  unfold Parser.assignment
  refine Reads.advance_name hkind fun s₁ _ => Reads.nameOf fun s₂ _ => ?_
  refine Reads.bind (Reads.iterate _ ?_ fun indices s₃ _ => Reads.indexTurn indices)
    fun indices s₃ _ => ?_
  · rintro v w vs ⟨_, _, h⟩
    cases h
  · refine Reads.peek ?_
    split
    · rename_i op hop
      obtain ⟨operator, hoperator, hassign⟩ := Option.bind_eq_some_iff.mp hop
      refine Reads.advance_of (Token.kind_of_operator? hoperator) (by simp) (by simp) fun s₄ _ => ?_
      refine Reads.bind Reads.expression fun value s₅ _ => ?_
      refine Reads.bind Reads.expectSemi fun _ s₆ _ => Reads.pure ?_
      rintro _ rfl vs ⟨hvalue, -⟩ is hloop
      obtain ⟨more, ms, rfl, rfl, hmore⟩ := hloop.sequence
      refine ⟨_, rfl, fun head => ⟨rfl, ?_⟩⟩
      have hform := StmtForm.assignment head.shape s.current.text op hmore.map hvalue
      rw [AssignOp.operator_of_ofOperator? hassign] at hform
      simpa [Name.shape, Terminal.op] using hform
    · exact Reads.bind_false Reads.expected fun _ _ =>
        Recovers.bind Recovers.abandonStatement fun _ _ => Recovers.pure _

/-- What a parser for blocks reads in front of as many tokens as a depth at most. -/
def BlockReads (depth : Nat) (block : Parser (List Stmt)) : Prop :=
  ∀ s : ParserState, s.rest.length ≤ depth → s.current.kind = .punctuation .lBrace →
    Reads block s fun stmts ts _ => ∃ cs, StmtForm (.stmts (Stmt.shapes stmts)) cs ∧
      ts = .mark .lBrace :: (cs ++ [.mark .rBrace])

section Nested

variable {block : Parser (List Stmt)} {depth : Nat}

theorem Reads.semicolonAfterBlock : Reads semicolonAfterBlock s fun _ ts _ => ts = [] := by
  unfold Parser.semicolonAfterBlock
  refine Reads.peek (Reads.acceptPunctuation (fun s₁ _ => ?_) fun _ => Reads.pure rfl)
  exact Reads.report.mono fun _ _ _ _ h => h.elim

/-- A node without a block has its arguments in parentheses in front of what is read. -/
theorem Reads.leafBehind (callee : Name) (arguments : Option (List Argument)) :
    Reads (leafBehind callee arguments) s fun result us _ => ∀ ts,
      Optional (.mark .lParen) (Closed ArgumentForm)
        (arguments.map fun list => list.map Argument.shape) ts →
      StmtRead result (.name callee.text :: (ts ++ us)) := by
  unfold Parser.leafBehind
  split
  · refine Reads.bind Reads.expectSemi fun _ s₁ _ => Reads.pure ?_
    rintro _ rfl ts harguments
    refine ⟨_, rfl, fun head => ⟨rfl, ?_⟩⟩
    cases harguments with
    | present harguments => simpa using StmtForm.leaf head.shape callee.text harguments
  · refine Reads.bind_false Reads.expectedWithHelp fun _ _ => ?_
    exact Recovers.bind Recovers.abandonStatement fun _ _ => Recovers.pure _

theorem Reads.node (hblock : BlockReads depth block) (hlength : s.rest.length ≤ depth)
    (hkind : s.current.kind = .identifier) :
    Reads (node block) s fun result ts _ => StmtRead result ts := by
  unfold Parser.node
  refine Reads.advance_name hkind fun s₁ hlength₁ => Reads.nameOf fun s₂ hstill => ?_
  have hrest := hstill.rest
  refine Reads.bind Reads.arguments fun arguments s₃ hlength₃ => Reads.atPunctuation ?_
  split
  · rename_i hbrace
    rw [hrest] at hlength₃
    refine Reads.bind (hblock s₃ (by omega) (by simpa [Token.isPunctuation] using hbrace))
      fun children s₄ _ => ?_
    refine Reads.bind Reads.semicolonAfterBlock fun _ s₅ _ => Reads.pure ?_
    rintro _ rfl _ ⟨cs, hchildren, rfl⟩ as harguments
    refine ⟨_, rfl, fun head => ⟨rfl, ?_⟩⟩
    simpa using StmtForm.compound head.shape s.current.text harguments hchildren
  · exact Reads.leafBehind _ arguments

theorem Recovers.foreignPart {shape : ForeignShape} : Recovers (foreignPart shape ()) s := by
  unfold Parser.foreignPart
  refine Recovers.bind (Recovers.skip Skip.stops_header) fun _ s₁ => Reads.atPunctuation ?_
  split
  · refine Recovers.bind (Recovers.skip Skip.stops_block) fun _ s₂ => Reads.peek ?_
    split
    · exact Recovers.bind Recovers.advance fun _ _ => Recovers.pure _
    · exact Recovers.pure _
  · exact Recovers.bind Recovers.acceptPunctuation fun _ _ => Recovers.pure _

theorem Reads.skipForeign {word : ForeignWord} :
    Reads (skipForeign word) s fun _ _ _ => False := by
  unfold Parser.skipForeign
  refine Reads.peek (Reads.bind_false Reads.reportOnce fun _ s₁ => ?_)
  refine Recovers.bind Recovers.advance fun _ s₂ => ?_
  exact Recovers.iterate fun _ s₃ => Recovers.foreignPart

/-- Nothing that stands in front of a statement has been read. -/
theorem Reads.unattached {preconditions : List Precondition} {docs : Docs} :
    Reads (unattached preconditions docs) s fun _ ts _ =>
      preconditions = [] ∧ docs.range = none ∧ ts = [] := by
  unfold Parser.unattached
  split
  · exact Reads.report.mono fun _ _ _ _ h => h.elim
  · unfold Parser.danglingDocs
    split
    · exact Reads.report.mono fun _ _ _ _ h => h.elim
    · rename_i hrange
      exact Reads.pure ⟨rfl, hrange, rfl⟩

/-- A token of this kind cannot be in front of a statement. -/
def EndsBlock (kind : TokenKind) : Prop :=
  kind = .punctuation .rBrace ∨ kind = .endOfFile ∨
    ∃ word : Keyword, kind = .keyword word ∧ word.isOpener = true ∧ word ≠ .varWord ∧
      word ≠ .constWord

theorem Reads.bareStatement (hblock : BlockReads depth block) (hlength : s.rest.length ≤ depth)
    {preconditions : List Precondition} {docs : Docs} :
    Reads (bareStatement block preconditions docs) s fun result ts _ =>
      StmtRead result ts ∨ (preconditions = [] ∧ docs.range = none ∧ ts = [] ∧
        EndsBlock s.current.kind) := by
  unfold Parser.bareStatement
  refine Reads.peek ?_
  split
  · rename_i hkind
    refine Reads.bind (Reads.varParts hkind) fun result s₁ _ => Reads.pure ?_
    rintro _ ⟨parts, rfl, types, inits, htypes, hinits, rfl⟩
    refine .inl ⟨_, rfl, fun head => ⟨rfl, ?_⟩⟩
    simpa using StmtForm.varDecl head.shape parts.name.text htypes hinits
  · rename_i hkind
    refine Reads.bind (Reads.constParts hkind) fun result s₁ _ => Reads.pure ?_
    rintro _ ⟨parts, rfl, types, values, htypes, hvalues, rfl⟩
    refine .inl ⟨_, rfl, fun head => ⟨rfl, ?_⟩⟩
    simpa using StmtForm.constDecl head.shape parts.name.text htypes hvalues
  · rename_i hkind
    split
    · exact Reads.bind_false Reads.skipForeign fun _ _ => Recovers.pure _
    · refine Reads.still (p := fun state => (Skip.assignmentFollows 0 (state.rest.drop 1), state))
        ⟨rfl, rfl, rfl, rfl, rfl⟩ fun s₁ hstill => ?_
      rw [← hstill.current] at hkind
      have hlength₁ : s₁.rest.length ≤ depth := hstill.rest ▸ hlength
      dsimp only
      split
      · exact (Reads.assignment hkind).mono fun _ _ _ _ h => .inl h
      · exact (Reads.node hblock hlength₁ hkind).mono fun _ _ _ _ h => .inl h
  · rename_i hkind
    refine Reads.bind Reads.unattached fun _ s₁ _ => Reads.pure ?_
    rintro ts ⟨hpreconditions, hrange, rfl⟩
    exact .inr ⟨hpreconditions, hrange, rfl, .inl hkind⟩
  · rename_i hkind
    refine Reads.bind Reads.unattached fun _ s₁ _ => Reads.pure ?_
    rintro ts ⟨hpreconditions, hrange, rfl⟩
    exact .inr ⟨hpreconditions, hrange, rfl, .inr (.inl hkind)⟩
  · rename_i hvar hconst _ _ _
    split
    · rename_i hopener
      refine Reads.bind Reads.unattached fun _ s₁ _ => Reads.pure ?_
      rintro ts ⟨hpreconditions, hrange, rfl⟩
      obtain ⟨word, hword, hopens⟩ := Token.kind_of_isOpenerWord hopener
      refine .inr ⟨hpreconditions, hrange, rfl, .inr (.inr ⟨word, hword, hopens, ?_, ?_⟩)⟩
      · rintro rfl
        exact hvar hword
      · rintro rfl
        exact hconst hword
    · refine Reads.bind_false Reads.expectedWithHelp fun _ _ => ?_
      exact Recovers.bind Recovers.abandonStatement fun _ _ => Recovers.pure _

theorem Reads.statement (hblock : BlockReads depth block) (hlength : s.rest.length ≤ depth)
    (hstarts : ¬EndsBlock s.current.kind) :
    Reads (statement block) s fun result ts _ =>
      ∃ stmt, result = some stmt ∧ StmtForm (.stmt stmt.shape) ts := by
  refine Reads.of_ready fun hready => ?_
  unfold Parser.statement
  refine Reads.bind_coming Reads.docComments fun docs s₁ hlength₁ => ?_
  refine Reads.bind_coming Reads.preconditions fun preconditions s₂ hlength₂ => ?_
  refine Reads.of_ready fun hready₂ => Reads.peek ?_
  dsimp only
  refine Reads.bind (Reads.bareStatement hblock (by omega)) fun result s₃ _ => ?_
  -- Where nothing was read the token at hand is the first one still, so it starts a statement.
  have hstarted : ∀ ds ps ts, s.coming = ds ++ s₁.coming → s₁.coming = ps ++ s₂.coming →
      ds = docTerminals docs.lines ∧ Docs.Ranged docs →
      Sequence PreconditionForm (preconditions.map Precondition.shape) ps →
      StmtRead result ts ∨
        (preconditions = [] ∧ docs.range = none ∧ ts = [] ∧ EndsBlock s₂.current.kind) →
      StmtRead result ts := by
    rintro ds ps ts hds hps ⟨rfl, hranged⟩ hpreconditions hread
    refine hread.resolve_right ?_
    rintro ⟨rfl, hrange, -, hends⟩
    rw [hranged hrange] at hds
    cases hpreconditions
    rw [hready.current_kind_eq hready₂ (hds.trans hps)] at hends
    exact hstarts hends
  cases result with
  | none =>
      refine Reads.pure fun ts hread ps hps hpreconditions ds hds hdocs => ?_
      obtain ⟨_, h, -⟩ := hstarted ds ps ts hds hps hdocs hpreconditions hread
      cases h
  | some build =>
      refine Reads.rangeSince fun range => Reads.map Reads.newStmt ?_
      rintro _ _ us ⟨⟨origin, rfl⟩, rfl⟩ ts hread ps hps hpreconditions ds hds hdocs
      obtain ⟨_, ⟨rfl⟩, hbuild⟩ := hstarted ds ps ts hds hps hdocs hpreconditions hread
      obtain ⟨hhead, hform⟩ := hbuild ⟨origin, docs.lines, preconditions⟩
      refine ⟨_, rfl, ?_⟩
      have hheadForm : HeadForm (build ⟨origin, docs.lines, preconditions⟩).shape.head (ds ++ ps) := by
        rw [Stmt.head_shape, hhead, hdocs.1]
        exact .mk docs.lines hpreconditions
      simpa using StmtForm.headed hheadForm hform

theorem endsBlock_of_breaksBlock {token : Token} (hbrace : token.isPunctuation .rBrace = false)
    (hbreaks : breaksBlock token = false) : ¬EndsBlock token.kind := by
  rintro (h | h | ⟨word, h, hopener, hvar, hconst⟩)
  · simp [Token.isPunctuation, h] at hbrace
  · simp [breaksBlock, Token.isEndOfFile, h] at hbreaks
  · simp [breaksBlock, Token.isOpenerWord, Token.keyword?, TokenKind.keyword?, Token.isKeyword, h,
      hopener, hvar, hconst] at hbreaks

theorem Reads.blockTurn (hblock : BlockReads depth block) (hlength : s.rest.length ≤ depth)
    {opening : SourceRange} (stmts : List Stmt) :
    Reads (blockTurn (Parser.statement block) opening stmts) s
      (Collects (fun stmt => StmtForm (.stmt stmt.shape)) [.mark .rBrace] stmts) := by
  unfold Parser.blockTurn
  refine Reads.acceptPunctuation (fun _ _ => Reads.pure ⟨rfl, rfl⟩) fun hbrace => Reads.peek ?_
  split
  · exact Reads.bind_false Reads.reportOnce fun _ _ => Recovers.pure _
  · rename_i hbreaks
    have hstarts := endsBlock_of_breaksBlock hbrace (by simpa using hbreaks)
    refine Reads.bind (Reads.orStepOver (Reads.statement hblock hlength hstarts) ?_)
      fun result s₁ _ => Reads.pure ?_
    · rintro _ _ ⟨stmt, -, hform⟩
      exact hform.ne_nil rfl
    · rintro ts ⟨stmt, rfl, hform⟩
      exact ⟨stmt, rfl, by simpa using hform⟩

theorem BlockReads.blockOf (hblock : BlockReads depth block) :
    BlockReads (depth + 1) (blockOf (Parser.statement block)) := by
  intro s hlength hkind
  unfold Parser.blockOf
  dsimp only
  refine Reads.advance_of hkind (by simp) (by simp) fun s₁ hlength₁ => ?_
  refine (Reads.iterate _ ?_ fun stmts s₂ hlength₂ =>
    Reads.blockTurn hblock (by omega) stmts).mono fun stmts ts us _ hloop => ?_
  · rintro v w vs ⟨_, _, h⟩
    exact h.ne_nil rfl
  · obtain ⟨more, cs, rfl, rfl, hmore⟩ := hloop.sequence
    exact ⟨cs, StmtForm.of_sequence hmore, rfl⟩

/-- With one level of nesting for each token at hand, a block is never left unread. -/
theorem BlockReads.along (levels : List Token) : BlockReads levels.length (blockAlong levels) := by
  induction levels with
  | nil =>
      intro s hlength hkind
      refine Reads.of_ready fun hready => ?_
      rw [hready.rest_eq] at hlength
      exact absurd hlength (by simp)
  | cons token levels ih => exact ih.blockOf

end Nested

theorem Reads.block (hkind : s.current.kind = .punctuation .lBrace) :
    Reads block s fun stmts ts _ => ∃ cs, StmtForm (.stmts (Stmt.shapes stmts)) cs ∧
      ts = .mark .lBrace :: (cs ++ [.mark .rBrace]) :=
  BlockReads.along s.rest s (Nat.le_refl _) hkind

end Parser

end BehaviorTree
