import BehaviorTree.Parsing.Item
import BehaviorTree.Proofs.Parsing.Silence

/-!
# What silent runs read: expectations, types and expressions

A demand for a token that is not there is reported, so a silent run has found every token that it
demanded. From this follows what the parsers of types and expressions have read, first relative to
parsers for what is nested and then, by induction on the depth of nesting, outright.
-/

namespace BehaviorTree

open ParserState

namespace Parser

variable {s : ParserState}

/-! ### Demands -/

theorem missing_eq (what context : String) (insertion : Option String) (s : ParserState) :
    ∃ recovery diagnostic, missing what context insertion s = (recovery, s.reportOnce diagnostic) := by
  unfold missing
  dsimp only
  split
  · exact ⟨_, _, rfl⟩
  · exact ⟨_, _, rfl⟩

theorem Reads.missing {what context : String} {insertion : Option String} :
    Reads (missing what context insertion) s fun _ _ _ => False := by
  obtain ⟨recovery, diagnostic, hrun⟩ := missing_eq what context insertion s
  unfold Reads
  rw [hrun]
  exact (Reads.reportOnce : Reads (Parser.reportOnce diagnostic) s _)

theorem Reads.expectPunctuation {mark : Punctuation} {context : String} {set : RecoverySet} :
    Reads (expectPunctuation mark context set) s fun found ts _ =>
      found = true ∧ ts = [.mark mark] := by
  unfold Parser.expectPunctuation
  refine Reads.acceptPunctuation (fun s' _ => Reads.pure ⟨rfl, rfl⟩) fun _ => ?_
  refine Reads.bind_false Reads.missing fun recovery s' => ?_
  cases recovery with
  | insert => exact Recovers.pure _
  | skip => exact Recovers.bind Recovers.synchronize fun _ _ => Recovers.acceptPunctuation

theorem Reads.expectSemi {context : String} {set : RecoverySet} :
    Reads (expectSemi context set) s fun _ ts _ => ts = [.mark .semi] := by
  unfold Parser.expectSemi
  refine Reads.acceptPunctuation (fun s' _ => Reads.pure rfl) fun _ => ?_
  refine Reads.bind_false Reads.missing fun recovery s' => ?_
  cases recovery with
  | insert => exact Recovers.pure _
  | skip =>
      refine Recovers.bind Recovers.synchronize fun _ _ => ?_
      exact Recovers.bind Recovers.acceptPunctuation fun _ _ => Recovers.pure _

theorem Reads.expectOperator {op : Operator} {context : String} {set : RecoverySet} :
    Reads (expectOperator op context set) s fun found ts _ => found = true ∧ ts = [.op op] := by
  unfold Parser.expectOperator
  refine Reads.acceptOperator (fun s' _ => Reads.pure ⟨rfl, rfl⟩) fun _ => ?_
  refine Reads.bind_false Reads.missing fun _ _ => ?_
  exact Recovers.bind Recovers.synchronize fun _ _ => Recovers.acceptOperator

theorem Reads.expectName {what : String} {set : RecoverySet} :
    Reads (expectName what set) s fun found ts _ =>
      ∃ name, found = some name ∧ ts = [.name name.text] := by
  unfold Parser.expectName
  refine Reads.peek ?_
  split
  · rename_i hfound
    have hkind : s.current.kind = .identifier := by simpa [Token.isIdentifier] using hfound
    refine Reads.advance_name hkind fun s' _ => ?_
    exact Reads.nameOf fun s'' _ => Reads.pure ⟨_, rfl, rfl⟩
  · split
    · refine Reads.bind_false Reads.expectedWithHelp fun _ _ => ?_
      split
      · exact Recovers.bind Recovers.synchronize fun _ _ => Recovers.pure _
      · refine Recovers.bind Recovers.advance fun _ _ => ?_
        exact Reads.nameOf fun _ _ => Recovers.pure _
    · refine Reads.bind_false Reads.expected fun _ _ => ?_
      exact Recovers.bind Recovers.synchronize fun _ _ => Recovers.pure _

/-! ### What ends a phrase -/

end Parser

/-- The terminals stand for the phrase, and a `<` behind them is not part of it. -/
def Phrase.Read (phrase : Phrase) (ts us : List Terminal) : Prop :=
  Derives phrase ts ∧ (EndsInString ts → us.head? ≠ some (.op .lt))

theorem Phrase.Read.of_not_endsInString {phrase : Phrase} {ts us : List Terminal}
    (hderives : Derives phrase ts) (hends : ¬EndsInString ts) : phrase.Read ts us :=
  ⟨hderives, fun h => absurd h hends⟩

/-- No type but an unbounded `string` leaves a `<` behind it open. -/
theorem Phrase.Read.of_plainType {type : TypeExpr} {ts us : List Terminal}
    (h : Derives (.plainType type) ts) (hstring : type ≠ .string .blank none) :
    (Phrase.plainType type).Read ts us :=
  .of_not_endsInString h (h.not_endsInString_plainType hstring)

/-- A chain can be extended by an operator that comes behind it. -/
theorem Derives.binary {layer : Nat} {layers : List Nat} {left right : Expr}
    {ls rs us : List Terminal} {op : BinaryOp} (hlayer : op.operator.precedence = layer)
    (hgroups : op.operator.associativity = .none → Derives (.layered layers left) ls)
    (hleft : (Phrase.layered (layer :: layers) left).Read ls (.op op.operator :: us))
    (hright : Derives (.layered layers right) rs) :
    Derives (.layered (layer :: layers) (.binary .blank op left right))
      (ls ++ .op op.operator :: rs) := by
  cases hassociativity : op.operator.associativity with
  | left => exact .grouped op hlayer hassociativity hleft.1 hright
  | right => exact absurd hassociativity op.associativity_ne_right
  | none =>
      refine .single op hlayer hassociativity ?_ (hgroups hassociativity) hright
      rintro rfl hends
      exact hleft.2 hends rfl

namespace Parser

variable {s : ParserState}

theorem head?_coming {t : Terminal} (h : s.coming.head? = some t) : s.current.terminal = t := by
  unfold coming at h
  unfold ParserState.current tokenAt
  cases hrest : s.rest with
  | nil => simp [hrest] at h
  | cons token rest => simpa [hrest] using h

theorem head?_coming_ne {op : Operator} (h : s.current.isOperator op = false) :
    s.coming.head? ≠ some (.op op) := by
  intro hhead
  have hkind := Token.kind_of_terminal (head?_coming hhead)
  simp [Token.isOperator, hkind, Terminal.op, Terminal.of] at h

/-- What the nested parsers read in front of fewer tokens than a depth. -/
structure NestedReads (depth : Nat) (nested : Nested) : Prop where
  expression (s : ParserState) : s.rest.length < depth →
    Reads nested.expression s fun expr => (Phrase.expr expr.shape).Read
  operand (s : ParserState) : s.rest.length < depth →
    Reads nested.operand s fun expr => (Phrase.unary expr.shape).Read
  type (s : ParserState) : s.rest.length < depth →
    Reads nested.type s fun type => (Phrase.type type.shape).Read

section Nested

variable {nested : Nested} {depth : Nat}

/-! ### Types -/

theorem Reads.stringBound : Reads stringBound s fun bound ts _ =>
    ∃ value, bound = some value ∧ ts = [.of (.int value), .op .gt] := by
  unfold Parser.stringBound
  refine Reads.peek ?_
  dsimp only
  split
  · rename_i value hkind
    refine Reads.advance_of hkind (by simp) (by simp) fun s' _ => ?_
    refine Reads.pure_bind (Reads.bind Reads.expectOperator fun _ _ _ => Reads.pure ?_)
    rintro ts ⟨-, rfl⟩
    exact ⟨value, rfl, rfl⟩
  · refine Reads.bind_false Reads.expected fun _ s' => ?_
    exact Reads.pure_bind (Recovers.bind Reads.expectOperator.recovers fun _ _ => Recovers.pure _)

/-- The terminals make a type without its `?`, wherever it stands. -/
def Built (build : Origin → TypeExpr) (ts us : List Terminal) : Prop :=
  ∀ origin, (Phrase.plainType (build origin).shape).Read ts us

theorem Reads.stringType : Reads stringType s fun build ts us =>
    Built build (.word .stringWord :: ts) us := by
  unfold Parser.stringType
  refine Reads.acceptOperator (fun s' _ => ?_) fun hno => Reads.pure fun origin => ?_
  · refine Reads.bind Reads.stringBound fun bound s'' _ => Reads.pure ?_
    rintro ts ⟨value, rfl, rfl⟩ origin
    exact .of_plainType (.boundedString value) (by simp)
  · exact ⟨.string, fun _ => head?_coming_ne hno⟩

theorem Reads.vecType (hnested : NestedReads depth nested) (hlength : s.rest.length < depth) :
    Reads (vecType nested) s fun build ts us => Built build (.word .vecWord :: ts) us := by
  unfold Parser.vecType
  refine Reads.bind Reads.expectOperator fun found s₁ hlength₁ => ?_
  split
  · refine Reads.bind (hnested.type s₁ (by omega)) fun element s₂ _ => ?_
    refine Reads.bind Reads.expectOperator fun _ _ _ => Reads.pure ?_
    rintro closer ⟨-, rfl⟩ ts ⟨helement, -⟩ opener ⟨-, rfl⟩ origin
    exact .of_plainType (by simpa using Derives.vecType helement) (by simp)
  · rename_i hfound
    exact Reads.pure fun ts h => absurd h.1 hfound

theorem Reads.arrayType (hnested : NestedReads depth nested) (hlength : s.rest.length < depth) :
    Reads (arrayType nested) s fun build ts us => Built build (.mark .lBracket :: ts) us := by
  unfold Parser.arrayType
  dsimp only
  refine Reads.bind (hnested.type s hlength) fun element s₁ hlength₁ => ?_
  refine Reads.bind Reads.expectPunctuation fun found s₂ hlength₂ => ?_
  split
  · refine Reads.acceptOperator (fun s₃ hlength₃ => ?_) fun hno => ?_
    · refine Reads.bind (hnested.expression s₃ (by omega)) fun bound s₄ _ => ?_
      refine Reads.bind Reads.expectPunctuation fun _ s₅ _ => ?_
      refine Reads.pure ?_
      rintro closer ⟨-, rfl⟩ bs ⟨hbound, -⟩ semi ⟨-, rfl⟩ ts ⟨helement, -⟩ origin
      exact .of_plainType (by simpa using Derives.boundedArray helement hbound) (by simp)
    · refine Reads.bind (hnested.expression s₂ (by omega)) fun length s₄ _ => ?_
      refine Reads.bind Reads.expectPunctuation fun _ s₅ _ => ?_
      refine Reads.pure ?_
      rintro closer ⟨-, rfl⟩ bs ⟨hbound, -⟩ semi ⟨-, rfl⟩ ts ⟨helement, -⟩ origin
      exact .of_plainType (by simpa using Derives.staticArray helement hbound) (by simp)
  · rename_i hfound
    refine Reads.acceptPunctuation (fun _ _ => ?_) fun _ => ?_
    · exact Reads.pure fun ts h => absurd h.1 hfound
    · exact Reads.pure fun ts h => absurd h.1 hfound

theorem Reads.plainType (hnested : NestedReads depth nested) (hlength : s.rest.length ≤ depth) :
    Reads (plainType nested) s fun result ts us => ∃ build, result = some build ∧ Built build ts us := by
  unfold Parser.plainType
  refine Reads.peek ?_
  split
  · rename_i hkind
    refine Reads.advance_of hkind (by simp) (by simp) fun _ _ => Reads.pure ?_
    exact ⟨_, rfl, fun origin => .of_plainType .infer (by simp)⟩
  · rename_i hkind
    refine Reads.advance_name hkind fun _ _ => Reads.nameOf fun _ _ => Reads.pure ?_
    exact ⟨_, rfl, fun origin => .of_plainType (.named _) (by simp)⟩
  · rename_i hkind
    refine Reads.advance_of hkind (by simp) (by simp) fun _ _ => ?_
    exact Reads.map Reads.stringType fun build ts us hbuilt => ⟨build, rfl, hbuilt⟩
  · rename_i hkind
    refine Reads.advance_of hkind (by simp) (by simp) fun s₁ hlength₁ => ?_
    exact Reads.map (Reads.vecType hnested (by omega)) fun build ts us hbuilt => ⟨build, rfl, hbuilt⟩
  · rename_i hkind
    refine Reads.advance_of hkind (by simp) (by simp) fun s₁ hlength₁ => ?_
    exact Reads.map (Reads.arrayType hnested (by omega)) fun build ts us hbuilt => ⟨build, rfl, hbuilt⟩
  · exact Reads.bind_false Reads.expected fun _ _ => Recovers.pure _

theorem Reads.typeIn (hnested : NestedReads depth nested) (hlength : s.rest.length ≤ depth) :
    Reads (typeIn nested) s fun type => (Phrase.type type.shape).Read := by
  unfold Parser.typeIn
  refine Reads.peek ?_
  refine Reads.bind (Reads.plainType hnested hlength) fun result s₁ _ => ?_
  cases result with
  | none =>
      refine Recovers.missingType.mono ?_
      rintro _ _ _ - - ts ⟨_, hnone, -⟩
      cases hnone
  | some build =>
      refine Reads.rangeSince fun range => Reads.newType fun origin s₂ hstill => ?_
      refine Reads.acceptPunctuation (fun s₃ _ => ?_) fun _ => Reads.pure ?_
      · refine Reads.rangeSince fun range' => ?_
        refine Reads.of_bind_pure (Reads.newType fun origin' _ _ => Reads.pure ?_)
        rintro ts ⟨_, ⟨rfl⟩, hbuilt⟩
        refine .of_not_endsInString (by simpa using Derives.nullable (hbuilt origin).1) ?_
        exact EndsInString.not_append_singleton _ (by decide)
      · rintro ts ⟨_, ⟨rfl⟩, hbuilt⟩
        obtain ⟨hderives, hends⟩ := hbuilt origin
        rw [List.append_nil]
        exact ⟨.plain hderives, hends⟩

/-! ### Operands -/

theorem Reads.literal {kind : TokenKind} {build : Origin → Expr} (hkind : s.current.kind = kind)
    (hend : kind ≠ .endOfFile) (hname : kind ≠ .identifier) :
    Reads (literal build) s fun expr ts _ =>
      (∃ origin, expr = build origin) ∧ ts = [.of kind] := by
  unfold Parser.literal
  refine Reads.advance_of hkind hend hname fun _ _ => Reads.of_bind_pure ?_
  exact Reads.newExpr fun origin _ _ => Reads.pure ⟨⟨origin, rfl⟩, rfl⟩

theorem Reads.parenthesized (hnested : NestedReads depth nested) (hlength : s.rest.length ≤ depth)
    (hkind : s.current.kind = .punctuation .lParen) :
    Reads (parenthesized nested) s fun expr ts _ => Derives (.primary expr.shape) ts := by
  unfold Parser.parenthesized
  refine Reads.advance_of hkind (by simp) (by simp) fun s₁ hlength₁ => ?_
  refine Reads.bind (hnested.expression s₁ (by omega)) fun inner s₂ _ => ?_
  refine Reads.bind Reads.expectPunctuation fun _ s₃ _ => Reads.rangeSince fun range => ?_
  refine Reads.of_bind_pure (Reads.widenExpr fun s₄ _ => Reads.pure ?_)
  rintro closer ⟨-, rfl⟩ ts ⟨hinner, -⟩
  simpa [Terminal.mark] using Derives.parens hinner

/-- One more element with the comma in front of it, or the end with a comma or without one. -/
def ElementTurn (elements : List Expr) (result : Turn (List Expr)) (ts _us : List Terminal) : Prop :=
  match result with
  | .again longer => ∃ element es, longer = elements ++ [element] ∧ ts = .mark .comma :: es ∧
      Derives (.expr element.shape) es
  | .done last => last = elements ∧ (ts = [] ∨ ts = [.mark .comma])

theorem Reads.nextElement (hnested : NestedReads depth nested) (hlength : s.rest.length ≤ depth)
    (elements : List Expr) : Reads (nextElement nested elements) s (ElementTurn elements) := by
  unfold Parser.nextElement
  refine Reads.acceptPunctuation (fun s₁ hlength₁ => ?_) fun _ => Reads.pure ⟨rfl, .inl rfl⟩
  refine Reads.atPunctuation ?_
  split
  · exact Reads.pure ⟨rfl, .inr rfl⟩
  · refine Reads.bind (hnested.expression s₁ (by omega)) fun element s₂ _ => Reads.pure ?_
    rintro ts ⟨helement, -⟩
    exact ⟨element, ts, rfl, by simp, helement⟩

/-- The elements of a list behind its first. -/
theorem Iterated.elements {first last : List Expr} {ts us : List Terminal}
    (h : Iterated ElementTurn first last ts us) : ∃ more, last = first ++ more ∧
      ∀ element es, Derives (.expr element) es →
        Derives (.elements (element :: Expr.shapes more)) (es ++ ts) := by
  induction h with
  | done hturn =>
      obtain ⟨rfl, rfl | rfl⟩ := hturn
      · exact ⟨[], by simp, fun element es helement => by simpa using Derives.last helement⟩
      · exact ⟨[], by simp, fun element es helement => by simpa using Derives.lastComma helement⟩
  | again hturn _ ih =>
      obtain ⟨next, ns, rfl, rfl, hnext⟩ := hturn
      obtain ⟨more, rfl, hmore⟩ := ih
      refine ⟨next :: more, by simp, fun element es helement => ?_⟩
      simpa using Derives.more helement (hmore next.shape ns hnext)

theorem Reads.arrayExpr (hnested : NestedReads depth nested) (hlength : s.rest.length ≤ depth)
    (hkind : s.current.kind = .punctuation .lBracket) :
    Reads (arrayExpr nested) s fun expr ts _ => Derives (.array expr.shape) ts := by
  unfold Parser.arrayExpr
  refine Reads.advance_of hkind (by simp) (by simp) fun s₁ hlength₁ => ?_
  dsimp only
  refine Reads.acceptPunctuation (fun s₂ _ => ?_) fun _ => ?_
  · refine Reads.rangeSince fun range => Reads.of_bind_pure ?_
    exact Reads.newExpr fun origin _ _ => Reads.pure .empty
  · refine Reads.bind (hnested.expression s₁ (by omega)) fun first s₂ hlength₂ => ?_
    refine Reads.acceptPunctuation (fun s₃ hlength₃ => ?_) fun _ => ?_
    · refine Reads.bind (hnested.expression s₃ (by omega)) fun count s₄ _ => ?_
      refine Reads.bind Reads.expectPunctuation fun _ s₅ _ => Reads.rangeSince fun range => ?_
      refine Reads.of_bind_pure (Reads.newExpr fun origin _ _ => Reads.pure ?_)
      rintro closer ⟨-, rfl⟩ cs ⟨hcount, -⟩ ts ⟨hfirst, -⟩
      simpa [Terminal.mark] using Derives.repeated hfirst hcount
    · refine Reads.bind (Reads.iterate ElementTurn ?_ fun elements s₃ hlength₃ =>
        Reads.nextElement hnested (by omega) elements) fun elements s₃ _ => ?_
      · rintro v w vs ⟨_, _, _, h, _⟩
        cases h
      · refine Reads.bind Reads.expectPunctuation fun _ s₅ _ => Reads.rangeSince fun range => ?_
        refine Reads.of_bind_pure (Reads.newExpr fun origin _ _ => Reads.pure ?_)
        rintro closer ⟨-, rfl⟩ cs hloop ts ⟨hfirst, -⟩
        obtain ⟨more, rfl, hmore⟩ := hloop.elements
        simpa [Terminal.mark] using Derives.listed (hmore _ _ hfirst)

theorem Reads.vecExpr (hnested : NestedReads depth nested) (hlength : s.rest.length ≤ depth)
    (hkind : s.current.kind = .keyword .vecWord) :
    Reads (vecExpr nested) s fun expr ts _ => Derives (.primary expr.shape) ts := by
  unfold Parser.vecExpr
  refine Reads.advance_of hkind (by simp) (by simp) fun s₁ hlength₁ => ?_
  dsimp only
  refine Reads.acceptOperator (fun s₂ hlength₂ => Reads.atPunctuation ?_) fun _ => ?_
  · split
    · rename_i hbracket
      refine Reads.bind (Reads.arrayExpr hnested (by omega)
        (by simpa [Token.isPunctuation] using hbracket)) fun inner s₃ _ => ?_
      refine Reads.rangeSince fun range => Reads.of_bind_pure ?_
      refine Reads.newExpr fun origin _ _ => Reads.pure fun ts hinner => ?_
      simpa [Terminal.word] using Derives.vec hinner
    · exact Reads.bind_false Reads.expected fun _ _ => Recovers.missingExpr
  · exact Reads.bind_false Reads.expectedWithHelp fun _ _ => Recovers.missingExpr

theorem Reads.primary (hnested : NestedReads depth nested) (hlength : s.rest.length ≤ depth) :
    Reads (primary nested) s fun expr ts _ => Derives (.primary expr.shape) ts := by
  unfold Parser.primary
  refine Reads.peek ?_
  split
  · rename_i value hkind
    refine (Reads.literal hkind (by simp) (by simp)).mono ?_
    rintro _ _ _ - ⟨⟨origin, rfl⟩, rfl⟩
    exact .int value
  · rename_i value hkind
    refine (Reads.literal hkind (by simp) (by simp)).mono ?_
    rintro _ _ _ - ⟨⟨origin, rfl⟩, rfl⟩
    exact .float value
  · rename_i value hkind
    refine Reads.intern fun s' hstill => ?_
    rw [← hstill.current] at hkind
    refine (Reads.literal hkind (by simp) (by simp)).mono ?_
    rintro _ _ _ - ⟨⟨origin, rfl⟩, rfl⟩
    exact .text value
  · rename_i hkind
    refine (Reads.literal hkind (by simp) (by simp)).mono ?_
    rintro _ _ _ - ⟨⟨origin, rfl⟩, rfl⟩
    exact .trueWord
  · rename_i hkind
    refine (Reads.literal hkind (by simp) (by simp)).mono ?_
    rintro _ _ _ - ⟨⟨origin, rfl⟩, rfl⟩
    exact .falseWord
  · rename_i hkind
    refine (Reads.literal hkind (by simp) (by simp)).mono ?_
    rintro _ _ _ - ⟨⟨origin, rfl⟩, rfl⟩
    exact .nullWord
  · rename_i hkind
    refine Reads.nameOf fun s' hstill => ?_
    rw [← hstill.current] at hkind
    unfold Parser.literal
    refine Reads.advance_name hkind fun _ _ => Reads.of_bind_pure ?_
    refine Reads.newExpr fun origin _ _ => Reads.pure ?_
    rw [hstill.current]
    exact .ref _
  · rename_i hkind
    exact Reads.parenthesized hnested hlength hkind
  · rename_i hkind
    exact (Reads.arrayExpr hnested hlength hkind).mono fun _ _ _ _ harray => .array harray
  · rename_i hkind
    exact Reads.vecExpr hnested hlength hkind
  · rename_i hkind
    exact fun hready => absurd hkind hready.current_kind_ne
  · exact Reads.bind_false Reads.expected fun _ _ => Recovers.missingExpr

/-- One more suffix behind what a suffix can follow, or none. -/
def SuffixTurn (base : Expr) (result : Turn Expr) (ts us : List Terminal) : Prop :=
  match result with
  | .again next => ts ≠ [] ∧ ∀ bs, Derives (.suffixed base.shape) bs →
      (Phrase.suffixed next.shape).Read (bs ++ ts) us
  | .done last => last = base ∧ ts = []

theorem Reads.suffix (hnested : NestedReads depth nested) (hlength : s.rest.length ≤ depth)
    (base : Expr) : Reads (suffix nested base) s (SuffixTurn base) := by
  unfold Parser.suffix
  dsimp only
  refine Reads.acceptPunctuation (fun s₁ hlength₁ => ?_) fun _ => Reads.peek ?_
  · refine Reads.bind (hnested.expression s₁ (by omega)) fun position s₂ _ => ?_
    refine Reads.bind Reads.expectPunctuation fun _ s₃ _ => Reads.rangeSince fun range => ?_
    refine Reads.newExpr fun origin s₄ _ => Reads.pure ?_
    rintro closer ⟨-, rfl⟩ ps ⟨hposition, -⟩
    refine ⟨by simp, fun bs hbase => ?_⟩
    have hread : (Phrase.suffixed (.index .blank base.shape position.shape)).Read
        (bs ++ .mark .lBracket :: (ps ++ [.mark .rBracket])) s₄.coming := by
      refine .of_not_endsInString (.index hbase hposition) fun hends => ?_
      exact EndsInString.not_append_singleton _ (by decide) (hends.of_append_cons (by decide))
    simpa using hread
  · split
    · rename_i hkeyword
      have hkind : s.current.kind = .keyword .asWord := by simpa [Token.isKeyword] using hkeyword
      refine Reads.advance_of hkind (by simp) (by simp) fun s₁ hlength₁ => ?_
      refine Reads.bind (hnested.type s₁ (by omega)) fun type s₂ _ => Reads.rangeSince fun range => ?_
      refine Reads.newExpr fun origin _ _ => Reads.pure ?_
      rintro ts ⟨htype, hends⟩
      refine ⟨by simp, fun bs hbase => ⟨?_, ?_⟩⟩
      · simpa [Terminal.word] using Derives.cast hbase htype
      · intro hstring
        rw [List.append_nil] at hstring
        exact hends (hstring.of_append_cons (by decide))
    · exact Reads.pure ⟨rfl, rfl⟩

theorem Iterated.suffixes {first last : Expr} {ts us : List Terminal}
    (h : Iterated SuffixTurn first last ts us) : ∀ bs,
      (Phrase.suffixed first.shape).Read bs (ts ++ us) →
      (Phrase.suffixed last.shape).Read (bs ++ ts) us := by
  induction h with
  | done hturn =>
      obtain ⟨rfl, rfl⟩ := hturn
      intro bs hbase
      simpa using hbase
  | again hturn _ ih =>
      obtain ⟨-, hnext⟩ := hturn
      intro bs hbase
      rw [← List.append_assoc]
      exact ih _ (hnext bs hbase.1)

theorem Reads.suffixed (hnested : NestedReads depth nested) (hlength : s.rest.length ≤ depth) :
    Reads (suffixed nested) s fun expr => (Phrase.suffixed expr.shape).Read := by
  unfold Parser.suffixed
  refine Reads.bind (Reads.primary hnested hlength) fun base s₁ hlength₁ => ?_
  refine (Reads.iterate SuffixTurn ?_ fun base s₂ hlength₂ =>
    Reads.suffix hnested (by omega) base).mono fun last ts us _ hloop bs hbase => ?_
  · rintro v w vs ⟨h, -⟩
    exact h rfl
  · exact hloop.suffixes bs (.of_not_endsInString (.unsuffixed hbase) hbase.not_endsInString_primary)

theorem Reads.unary (hnested : NestedReads depth nested) (hlength : s.rest.length ≤ depth) :
    Reads (unary nested) s fun expr => (Phrase.unary expr.shape).Read := by
  unfold Parser.unary
  refine Reads.peek ?_
  split
  · rename_i op hop
    have hkind := Token.kind_of_unaryOp? hop
    refine Reads.advance_of hkind (by simp) (by simp) fun s₁ hlength₁ => ?_
    dsimp only
    refine Reads.bind (hnested.operand s₁ (by omega)) fun operand s₂ _ => ?_
    refine Reads.of_bind_pure (Reads.newExpr fun origin _ _ => Reads.pure ?_)
    rintro ts ⟨hoperand, hends⟩
    rw [List.append_nil]
    exact ⟨.prefixed op hoperand, fun h => hends (h.of_cons (by simp [Terminal.of, Terminal.word]))⟩
  · exact (Reads.suffixed hnested hlength).mono fun _ _ _ _ hread =>
      ⟨.unprefixed hread.1, hread.2⟩

/-! ### Operators between operands -/

/-- What comes is no operator of a layer. -/
def OffLayer (layer : Nat) (us : List Terminal) : Prop :=
  ∀ op : BinaryOp, us.head? = some (.op op.operator) → op.operator.precedence ≠ layer

theorem offLayer_coming {layer : Nat} (h : ¬(s.current.binaryOpOn? layer).isSome) :
    OffLayer layer s.coming := by
  intro op hhead hlayer
  have hkind := Token.kind_of_terminal (head?_coming hhead)
  apply h
  simp [Token.binaryOpOn?, Token.operator?, hkind, Terminal.op, Terminal.of, TokenKind.operator?,
    BinaryOp.ofOperator?_operator, Option.filter, hlayer]

/-- A chain in which nothing was reported. -/
def ChainRead (layers : List Nat) (chain : Chain) (ts us : List Terminal) : Prop :=
  chain.reported = false ∧ (Phrase.layered layers chain.left.shape).Read ts us

/-- One more operator of a layer and its right operand, or none. Behind an operator that does not
group comes no other one of its layer. -/
def ChainTurn (layer : Nat) (tighter : List Nat) (chain : Chain) (result : Turn Chain)
    (ts us : List Terminal) : Prop :=
  match result with
  | .again next => ∃ (op : BinaryOp) (right : Expr) (rs : List Terminal),
      op.operator.precedence = layer ∧ ts = .op op.operator :: rs ∧
      next.left.shape = .binary .blank op chain.left.shape right.shape ∧
      (Phrase.layered tighter right.shape).Read rs us ∧
      (chain.reported = false → next.reported = false ∧
        (op.operator.associativity = .none → OffLayer layer us))
  | .done last => last = chain ∧ ts = []

theorem Reads.extendChain {layer : Nat} {layers : List Nat} {tighter : Parser Chain}
    (hlength : s.rest.length ≤ depth)
    (htighter : ∀ s', s'.rest.length ≤ depth → Reads tighter s' (ChainRead layers))
    (chain : Chain) : Reads (extendChain layer tighter chain) s (ChainTurn layer layers chain) := by
  unfold Parser.extendChain
  refine Reads.peek ?_
  split
  · rename_i op hop
    obtain ⟨hkind, hlayer⟩ := Token.kind_of_binaryOpOn? hop
    refine Reads.advance_of hkind (by simp) (by simp) fun s₁ hlength₁ => ?_
    dsimp only
    refine Reads.bind (htighter s₁ (by omega)) fun right s₂ _ => ?_
    refine Reads.newExpr fun origin s₃ _ => Reads.peek ?_
    split
    · refine Reads.bind_false Reads.report fun _ _ => Recovers.pure _
    · rename_i hunchained
      refine Reads.pure fun rs hright => ⟨op, right.left, rs, hlayer, by simp [Terminal.op], rfl, hright.2, ?_⟩
      intro hreported
      refine ⟨hreported, fun hnone => offLayer_coming fun hnext => ?_⟩
      exact hunchained ⟨hnone, by simp [hreported], hnext⟩
  · exact Reads.pure ⟨rfl, rfl⟩

theorem Iterated.chain {layer : Nat} {layers : List Nat} {first last : Chain}
    {ts us : List Terminal} (h : Iterated (ChainTurn layer layers) first last ts us) :
    ∀ ls, ChainRead (layer :: layers) first ls (ts ++ us) →
      (Derives (.layered layers first.left.shape) ls ∨
        ∀ op : BinaryOp, op.operator.precedence = layer → op.operator.associativity = .none →
          OffLayer layer (ts ++ us)) →
      ChainRead (layer :: layers) last (ls ++ ts) us := by
  induction h with
  | done hturn =>
      obtain ⟨rfl, rfl⟩ := hturn
      intro ls hfirst _
      simpa using hfirst
  | @again first next last ts us vs hturn _ ih =>
      obtain ⟨op, right, rs, hlayer, rfl, hshape, hright, hnext⟩ := hturn
      intro ls hfirst hgroups
      obtain ⟨hreported, hsingle⟩ := hnext hfirst.1
      have hleft : op.operator.associativity = .none →
          Derives (.layered layers first.left.shape) ls := by
        intro hnone
        refine hgroups.resolve_right fun hoff => ?_
        exact hoff op hlayer hnone op rfl hlayer
      have hwhole : ChainRead (layer :: layers) next (ls ++ .op op.operator :: rs) (us ++ vs) := by
        refine ⟨hreported, ?_, fun hends => ?_⟩
        · rw [hshape]
          exact .binary hlayer hleft hfirst.2 hright.1
        · exact hright.2 (hends.of_append_cons (by simp [Terminal.op, Terminal.of, Terminal.word]))
      rw [← List.append_assoc]
      refine ih _ hwhole (.inr fun other hother hnone => hsingle ?_)
      rw [← hnone]
      exact Operator.associativity_eq_of_precedence_eq (hlayer.trans hother.symm)
        op.precedence_pos

theorem Reads.layered (hnested : NestedReads depth nested) (layers : List Nat) :
    ∀ s : ParserState, s.rest.length ≤ depth → Reads (layered nested layers) s (ChainRead layers) := by
  induction layers with
  | nil =>
      intro s hlength
      refine Reads.bind (Reads.unary hnested hlength) fun operand s₁ _ => Reads.pure ?_
      rintro ts ⟨hoperand, hends⟩
      rw [List.append_nil]
      exact ⟨rfl, .operand hoperand, hends⟩
  | cons layer layers ih =>
      intro s hlength
      refine Reads.bind (ih s hlength) fun start s₁ hlength₁ => ?_
      refine (Reads.iterate (ChainTurn layer layers) ?_ fun chain s₂ hlength₂ =>
        Reads.extendChain (by omega) ih chain).mono fun last ts us _ hloop ls hstart => ?_
      · rintro v w vs ⟨_, _, _, _, h, _⟩
        cases h
      · obtain ⟨hreported, hderives, hends⟩ := hstart
        exact hloop.chain ls ⟨hreported, .tighter hderives, hends⟩ (.inl hderives)

theorem Reads.expressionIn (hnested : NestedReads depth nested) (hlength : s.rest.length ≤ depth) :
    Reads (expressionIn nested) s fun expr => (Phrase.expr expr.shape).Read := by
  unfold Parser.expressionIn
  refine Reads.bind (Reads.layered hnested _ s hlength) fun chain s₁ _ => Reads.pure ?_
  rintro ts ⟨-, hread⟩
  simpa using hread

end Nested

/-! ### Nesting -/

theorem NestedReads.around {depth : Nat} {inner : Unit → Nested}
    (hinner : NestedReads depth (inner ())) : NestedReads (depth + 1) (around inner) where
  expression s hlength := Reads.expressionIn (s := s) hinner (by omega)
  operand s hlength := Reads.unary (s := s) hinner (by omega)
  type s hlength := Reads.typeIn (s := s) hinner (by omega)

/-- With one level of nesting for each token at hand, the parsers never get to the bottom. -/
theorem NestedReads.along (levels : List Token) :
    NestedReads (levels.length + 1) (nestedAlong levels) := by
  induction levels with
  | nil =>
      have hbottom : NestedReads 0 Nested.nothing :=
        ⟨fun s h => absurd h (by omega), fun s h => absurd h (by omega),
          fun s h => absurd h (by omega)⟩
      exact NestedReads.around hbottom
  | cons token levels ih => exact NestedReads.around ih

theorem Reads.expression : Reads expression s fun expr => (Phrase.expr expr.shape).Read :=
  (NestedReads.along s.rest).expression s (Nat.lt_succ_self _)

theorem Reads.typeExpr : Reads typeExpr s fun type => (Phrase.type type.shape).Read :=
  (NestedReads.along s.rest).type s (Nat.lt_succ_self _)

end Parser

end BehaviorTree
