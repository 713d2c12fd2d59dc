import BehaviorTree.Proofs.Parsing.Omission
import BehaviorTree.Proofs.Parsing.ProgramsLaid
import BehaviorTree.Proofs.Parsing.StatementsLaid

/-!
# The tokens of terms

The tokens that are consumed for a term without an error have their square brackets closed, none of
them is a brace, and a `;` among them lies inside square brackets. `Walks` is the judgement for it: a
run without errors leads from inside as many square brackets to inside as many others.
-/

namespace BehaviorTree

namespace TokenKind

/-- Whether a term can have such a token inside as many square brackets. -/
def fits (level : Nat) : TokenKind → Bool
  | .punctuation .semi => level != 0
  | .punctuation .lBrace | .punctuation .rBrace | .endOfFile | .keyword .treeWord => false
  | _ => true

end TokenKind

/-- Tokens that lead from inside as many square brackets to inside as many others. -/
inductive Walk : Nat → List Token → Nat → Prop
  | nil (level : Nat) : Walk level [] level
  | cons {level next last : Nat} {token : Token} {tokens : List Token} :
      token.kind.fits level = true → next + token.kind.closing = level + token.kind.opening →
        Walk next tokens last → Walk level (token :: tokens) last

/-- Tokens of terms. -/
abbrev Enclosed (tokens : List Token) : Prop := Walk 0 tokens 0

namespace Walk

variable {level next last : Nat} {tokens later : List Token} {token : Token}

theorem append (h : Walk level tokens next) (hlater : Walk next later last) :
    Walk level (tokens ++ later) last := by
  induction h with
  | nil level => exact hlater
  | cons hfits hlevel _ ih => exact .cons hfits hlevel (ih hlater)

theorem single (hfits : token.kind.fits level = true)
    (hlevel : last + token.kind.closing = level + token.kind.opening) : Walk level [token] last :=
  .cons hfits hlevel (.nil _)

theorem split (h : Walk level (tokens ++ later) last) :
    ∃ next, Walk level tokens next ∧ Walk next later last := by
  induction tokens generalizing level with
  | nil => exact ⟨level, .nil _, h⟩
  | cons token tokens ih =>
      cases h with
      | cons hfits hlevel hrest =>
          obtain ⟨next, hfirst, hsecond⟩ := ih hrest
          exact ⟨next, .cons hfits hlevel hfirst, hsecond⟩

theorem balance (h : Walk level tokens last) :
    last + Token.closings tokens = level + Token.openings tokens := by
  induction h with
  | nil level => rfl
  | cons hfits hlevel _ ih =>
      simp only [Token.openings, Token.closings, total_cons] at ih ⊢
      omega

theorem fits_of_mem (h : Walk level tokens last) (hmem : token ∈ tokens) :
    ∃ level, token.kind.fits level = true := by
  induction h with
  | nil level => cases hmem
  | cons hfits _ _ ih =>
      rcases List.mem_cons.mp hmem with rfl | hrest
      · exact ⟨_, hfits⟩
      · exact ih hrest

end Walk

namespace Enclosed

variable {tokens before later : List Token} {token : Token}

theorem balanced (h : Enclosed tokens) : Token.openings tokens = Token.closings tokens := by
  have hbalance := h.balance
  omega

/-- No token of a term is a brace. -/
theorem not_brace (h : Enclosed tokens) (hmem : token ∈ tokens) :
    token.kind ≠ .punctuation .lBrace ∧ token.kind ≠ .punctuation .rBrace := by
  obtain ⟨level, hfits⟩ := h.fits_of_mem hmem
  constructor
  all_goals
    intro hkind
    rw [hkind] at hfits
    cases hfits

/-- No token of a term starts a tree. -/
theorem not_tree (h : Enclosed tokens) (hmem : token ∈ tokens) : token.kind ≠ .keyword .treeWord := by
  obtain ⟨level, hfits⟩ := h.fits_of_mem hmem
  intro hkind
  rw [hkind] at hfits
  cases hfits

/-- A `;` lies inside square brackets. -/
theorem open_of_semi (h : Enclosed (before ++ token :: later)) (hsemi : token.kind = .punctuation .semi) :
    Token.openings before ≠ Token.closings before := by
  obtain ⟨level, hbefore, hlater⟩ := h.split
  cases hlater with
  | cons hfits _ _ =>
      rw [hsemi] at hfits
      have hpositive : level ≠ 0 := bne_iff_ne.mp hfits
      have hbalance := hbefore.balance
      omega

end Enclosed

namespace Parser

open ParserState

variable {α β : Type} {p : Parser α} {f : α → Parser β} {s : ParserState} {level n last : Nat}

/-- From the state the parser consumes tokens that lead from one level to the other, unless it
reports an error. -/
def Walks (level last : Nat) (p : Parser α) (s : ParserState) : Prop :=
  Delivers p s fun _ s' => ∃ tokens made, Stretch s tokens made s' ∧ Walk level tokens last

theorem Walks.pure (a : α) : Walks level level (Pure.pure a) s :=
  Delivers.pure ⟨_, _, .refl s, .nil _⟩

theorem Walks.bind (hp : Walks level n p s) (hf : ∀ a s', Walks n last (f a) s') :
    Walks level last (p >>= f) s := by
  refine Delivers.bind hp fun a s' => (hf a s').mono fun b s'' h hbefore => ?_
  obtain ⟨tokens, made, hstretch, hwalk⟩ := hbefore
  obtain ⟨tokens', made', hstretch', hwalk'⟩ := h
  exact ⟨_, _, hstretch.trans hstretch', hwalk.append hwalk'⟩

theorem Walks.map {g : α → β} (hp : Walks level last p s) : Walks level last (g <$> p) s :=
  Walks.bind (f := fun a => Pure.pure (g a)) hp fun a _ => .pure (g a)

theorem Walks.retains (hp : ∀ s, Walks level last p s) : Retains p :=
  fun s => Delivers.retains (hp s)

/-- Behind an error report anything goes. -/
theorem Walks.fail (hp : Delivers p s fun _ _ => False) (hf : ∀ a, Retains (f a)) :
    Walks level last (p >>= f) s := Delivers.fail hp hf

theorem Walks.peek {f : Token → Parser β} (hf : Walks level last (f s.current) s) :
    Walks level last (Parser.peek >>= f) s := hf

theorem Walks.peekSecond {f : Token → Parser β} (hf : Walks level last (f (s.tokenAt 1)) s) :
    Walks level last (Parser.peekSecond >>= f) s := hf

/-- What is read off the state. -/
theorem Walks.read {g : ParserState → α} (hf : Walks level last (f (g s)) s) :
    Walks level last ((fun state => (g state, state)) >>= f) s := hf

theorem Walks.rangeSince {start : SourceRange} {f : SourceRange → Parser β}
    (hf : ∀ range, Walks level last (f range) s) : Walks level last (Parser.rangeSince start >>= f) s :=
  hf _

theorem Walks.atPunctuation {mark : Punctuation} {f : Bool → Parser β}
    (hf : ∀ found, Walks level last (f found) s) :
    Walks level last (Parser.atPunctuation mark >>= f) s := hf _

/-- A step that makes a node. -/
theorem Walks.making (hp : Delivers p s fun _ s' => ∃ made, Stretch s [] made s') :
    Walks level level p s :=
  hp.mono fun _ _ ⟨_, hstretch⟩ => ⟨_, _, hstretch, .nil _⟩

/-- Behind a step that makes nodes. -/
theorem Walks.later {s' : ParserState} {made : List Stamp} (hstretch : Stretch s [] made s')
    (hp : Walks level last p s') : Delivers p s' fun _ s'' =>
      ∃ tokens made, Stretch s tokens made s'' ∧ Walk level tokens last :=
  hp.mono fun _ _ ⟨_, _, hbehind, hwalk⟩ => ⟨_, _, hstretch.trans hbehind, hwalk⟩

theorem Walks.intern (text : String) : Walks level level (intern text) s :=
  .making (Delivers.of_bind_pure (Delivers.intern fun _ h => Delivers.pure ⟨_, h⟩))

theorem Walks.nameOf (token : Token) : Walks level level (nameOf token) s :=
  .making (Delivers.of_bind_pure (Delivers.nameOf fun _ h => Delivers.pure ⟨_, h⟩))

theorem Walks.newExpr (range : SourceRange) (build : Origin → Expr) :
    Walks level level (newExpr range build) s :=
  .making (Delivers.of_bind_pure (Delivers.newExpr fun _ _ h => Delivers.pure ⟨_, h⟩))

theorem Walks.newType (range : SourceRange) (build : Origin → TypeExpr) :
    Walks level level (newType range build) s :=
  .making (Delivers.of_bind_pure (Delivers.newType fun _ _ h => Delivers.pure ⟨_, h⟩))

theorem Walks.widenExpr (expr : Expr) (range : SourceRange) :
    Walks level level (widenExpr expr range) s :=
  .making (Delivers.of_bind_pure (Delivers.widenExpr fun _ h => Delivers.pure ⟨_, h⟩))

theorem Walks.missingExpr : Walks level level missingExpr s :=
  .making (Delivers.of_bind_pure (Delivers.missingExpr fun _ _ h => Delivers.pure ⟨_, h⟩))

theorem Walks.missingType : Walks level level missingType s := by
  unfold Parser.missingType Parser.emptyHere
  exact .read (.newType _ _)

theorem Walks.report (diagnostic : Diagnostic) : Walks level level (report diagnostic) s :=
  .making (Delivers.of_bind_pure (Delivers.warn fun _ h => Delivers.pure ⟨_, h⟩))

/-! ### Consuming tokens -/

/-- Behind a token. -/
theorem Walks.behind {s' : ParserState} {token : Token} (hp : Walks n last p s')
    (hfits : token.kind.fits level = true)
    (hlevel : n + token.kind.closing = level + token.kind.opening) :
    Delivers p s' fun _ s'' => Stretch s [token] [] s' →
      ∃ tokens made, Stretch s tokens made s'' ∧ Walk level tokens last :=
  hp.mono fun _ _ ⟨_, _, hstretch', hwalk⟩ hstretch =>
    ⟨_, _, hstretch.trans hstretch', (Walk.single hfits hlevel).append hwalk⟩

theorem Walks.advance {kind : TokenKind} {f : Token → Parser β} (hkind : s.current.kind = kind)
    (hfits : kind.fits level = true) (hlevel : n + kind.closing = level + kind.opening)
    (hf : ∀ token s', Walks n last (f token) s') : Walks level last (Parser.advance >>= f) s := by
  have hend : kind ≠ .endOfFile := by
    rintro rfl
    cases hfits
  subst hkind
  exact Delivers.advance_of rfl hend fun s' hstretch =>
    (Walks.behind (hf s.current s') hfits hlevel).mono fun _ _ h => h hstretch

section Marks

variable {mark : Punctuation} {f : Bool → Parser β}
  (hfits : (TokenKind.punctuation mark).fits level = true)
  (hlevel : n + (TokenKind.punctuation mark).closing =
    level + (TokenKind.punctuation mark).opening)
  (hyes : ∀ s', Walks n last (f true) s')
include hfits hlevel hyes

theorem Walks.acceptPunctuation
    (hno : s.current.isPunctuation mark = false → Walks level last (f false) s) :
    Walks level last (Parser.acceptPunctuation mark >>= f) s := by
  refine Delivers.acceptPunctuation (fun hkind s' hstretch => ?_) hno
  exact (Walks.behind (hyes s') (by rw [hkind, hfits]) (by rw [hkind, hlevel])).mono
    fun _ _ h => h hstretch

/-- A mark that is demanded. -/
theorem Walks.expectPunctuation {context : String} {set : RecoverySet} (hno : Retains (f false)) :
    Walks level last (Parser.expectPunctuation mark context set >>= f) s := by
  refine Delivers.bind Delivers.expectPunctuation fun found s' => ?_
  cases found with
  | false => exact (hno s').mono fun _ _ _ h => nomatch h.1
  | true =>
      refine (hyes s').mono fun _ _ ⟨_, _, hstretch', hwalk⟩ ⟨_, token, hkind, hstretch⟩ => ?_
      have hfirst : Walk level [token] n := .single (by rw [hkind, hfits]) (by rw [hkind, hlevel])
      exact ⟨_, _, hstretch.trans hstretch', hfirst.append hwalk⟩

end Marks

theorem Walks.acceptOperator {op : Operator} {f : Bool → Parser β}
    (hyes : ∀ s', Walks level last (f true) s') (hno : Walks level last (f false) s) :
    Walks level last (Parser.acceptOperator op >>= f) s := by
  refine Delivers.acceptOperator (fun hkind s' hstretch => ?_) fun _ => hno
  exact (Walks.behind (hyes s') (by rw [hkind]; rfl) (by rw [hkind]; rfl)).mono fun _ _ h => h hstretch

theorem Walks.expectOperator {op : Operator} {context : String} {set : RecoverySet}
    {f : Bool → Parser β} (hyes : ∀ s', Walks level last (f true) s') (hno : Retains (f false)) :
    Walks level last (Parser.expectOperator op context set >>= f) s := by
  refine Delivers.bind Delivers.expectOperator fun found s' => ?_
  cases found with
  | false => exact (hno s').mono fun _ _ _ h => nomatch h.1
  | true =>
      refine (hyes s').mono fun _ _ ⟨_, _, hstretch', hwalk⟩ ⟨_, token, hkind, hstretch⟩ => ?_
      have hfirst : Walk level [token] level := .single (by rw [hkind]; rfl) (by rw [hkind]; rfl)
      exact ⟨_, _, hstretch.trans hstretch', hfirst.append hwalk⟩

theorem Walks.expectName {what : String} {set : RecoverySet} {f : Option Name → Parser β}
    (hyes : ∀ name s', Walks level last (f (some name)) s') (hno : Retains (f none)) :
    Walks level last (Parser.expectName what set >>= f) s := by
  refine Delivers.bind Delivers.expectName fun found s' => ?_
  cases found with
  | none => exact (hno s').mono fun _ _ _ ⟨_, _, hnone, _⟩ => nomatch hnone
  | some name =>
      refine (hyes name s').mono fun _ _ ⟨_, _, hstretch', hwalk⟩ ⟨token, hkind, _, hstretch⟩ => ?_
      have hfirst : Walk level [token] level := .single (by rw [hkind]; rfl) (by rw [hkind]; rfl)
      exact ⟨_, _, hstretch.trans hstretch', hfirst.append hwalk⟩

/-! ### Loops -/

theorem Walks.iterate {body : α → Parser (Turn α)} {v : α}
    (hbody : ∀ v s, Walks level level (body v) s) : Walks level level (iterate body v) s := by
  refine (Delivers.iterate (fun _ s' => ∃ tokens made, Stretch s tokens made s' ∧
    Walk level tokens level) fun v s' => ?_).mono fun _ _ h => h ⟨_, _, .refl s, .nil _⟩
  refine (hbody v s').mono fun turn s'' ⟨tokens, made, hstretch', hwalk'⟩ ⟨_, _, hstretch, hwalk⟩ => ?_
  exact ⟨_, _, hstretch.trans hstretch', hwalk.append hwalk'⟩

end Parser

end BehaviorTree

/-!
## Terms are enclosed

Types, expressions and what is made of them close the square brackets that they open and consume no
brace, and no `;` but inside square brackets.
-/

namespace BehaviorTree.Parser

open ParserState

variable {s : ParserState} {level : Nat} {nested : Nested}

/-- What can be nested leaves the level as it is. -/
structure NestedWalks (nested : Nested) : Prop where
  expression (level : Nat) (s : ParserState) : Walks level level nested.expression s
  operand (level : Nat) (s : ParserState) : Walks level level nested.operand s
  type (level : Nat) (s : ParserState) : Walks level level nested.type s

section Nested

variable (hnested : NestedWalks nested)

/-! ### Types -/

theorem Walks.stringBound : Walks level level stringBound s := by
  have hclose : ∀ (bound : Option Nat) s, Walks level level (do
      let _ ← Parser.expectOperator .gt "to close `string<N>`" .type
      Pure.pure bound) s := fun bound s => .expectOperator (fun _ => .pure _) (Retains.pure _)
  unfold Parser.stringBound
  refine .peek ?_
  dsimp only
  split
  · rename_i hkind
    exact .advance hkind rfl rfl fun _ s' => .bind (.pure _) fun _ => hclose _
  · exact .fail Delivers.expected fun _ => Retains.bind (Retains.pure _) fun _ =>
      Walks.retains (hclose none)

theorem Walks.stringType : Walks level level stringType s :=
  .acceptOperator (fun _ => .bind .stringBound fun _ _ => .pure _) (.pure _)

include hnested

theorem Walks.vecType : Walks level level (vecType nested) s :=
  .expectOperator (fun s' => .bind (hnested.type level s') fun _ _ =>
    .expectOperator (fun _ => .pure _) (Retains.pure _)) (Retains.pure _)

/-- Behind the `[` of an array type. -/
theorem Walks.arrayType : Walks (level + 1) level (arrayType nested) s := by
  have hclose : ∀ (bounded : Bool) (element : TypeExpr) (length : Expr) s, Walks (level + 1) level (do
      let _ ← Parser.expectPunctuation .rBracket "to close the array type"
        (Stop.rBracket :: RecoverySet.statement)
      if bounded then Pure.pure (TypeExpr.boundedArray · element length)
      else Pure.pure (TypeExpr.staticArray · element length)) s := by
    intro bounded element length s
    cases bounded with
    | true => exact .expectPunctuation rfl rfl (fun _ => .pure _) (Retains.pure _)
    | false => exact .expectPunctuation rfl rfl (fun _ => .pure _) (Retains.pure _)
  unfold Parser.arrayType
  refine .bind (hnested.type (level + 1) s) fun element s' => ?_
  refine .expectPunctuation (n := level + 1) (by simp [TokenKind.fits]) rfl (fun s' => ?_)
    (Retains.bind (Retains.acceptPunctuation _) fun _ => Retains.pure _)
  refine .acceptOperator (fun s' => ?_) ?_
  · exact .bind (hnested.expression (level + 1) s') fun length s'' => hclose true element length s''
  · exact .bind (hnested.expression (level + 1) s') fun length s'' => hclose false element length s''

theorem Walks.plainType : Walks level level (plainType nested) s := by
  unfold Parser.plainType
  refine .peek ?_
  split
  · rename_i hkind
    exact .advance hkind rfl rfl fun _ _ => .pure _
  · rename_i hkind
    exact .advance hkind rfl rfl fun _ s' => .bind (.nameOf _) fun _ _ => .pure _
  · rename_i hkind
    exact .advance hkind rfl rfl fun _ s' => .map .stringType
  · rename_i hkind
    exact .advance hkind rfl rfl fun _ s' => .map (.vecType hnested)
  · rename_i hkind
    exact .advance (n := level + 1) hkind rfl rfl fun _ s' => .map (.arrayType hnested)
  · exact .fail Delivers.expected fun _ => Retains.pure _

theorem Walks.typeIn : Walks level level (typeIn nested) s := by
  unfold Parser.typeIn
  refine .peek (.bind (.plainType hnested) fun result s' => ?_)
  cases result with
  | none => exact .missingType
  | some build =>
      exact .rangeSince fun _ => .bind (.newType _ _) fun type s'' =>
        .acceptPunctuation rfl rfl (fun _ => .rangeSince fun _ => .newType _ _) fun _ => .pure _

/-! ### Operands -/

omit hnested in
theorem Walks.literal {kind : TokenKind} (build : Origin → Expr) (hkind : s.current.kind = kind)
    (hfits : kind.fits level = true) (hflat : kind.closing = kind.opening) :
    Walks level level (literal build) s :=
  .advance hkind hfits (by rw [hflat]) fun _ _ => .newExpr _ _

theorem Walks.parenthesized (hkind : s.current.kind = .punctuation .lParen) :
    Walks level level (parenthesized nested) s := by
  have hwiden : ∀ (start : SourceRange) (inner : Expr) s, Walks level level (do
      Parser.widenExpr inner (← Parser.rangeSince start)) s :=
    fun start inner s => .rangeSince fun _ => .widenExpr _ _
  exact .advance hkind rfl rfl fun start s' => .bind (hnested.expression level s') fun inner _ =>
    .expectPunctuation rfl rfl (hwiden start.range inner) (Walks.retains (hwiden start.range inner))

theorem Walks.nextElement (elements : List Expr) :
    Walks level level (nextElement nested elements) s := by
  refine .acceptPunctuation rfl rfl (fun s' => .atPunctuation fun closes => ?_) fun _ => .pure _
  split
  · exact .pure _
  · exact .bind (hnested.expression level s') fun _ _ => .pure _

theorem Walks.arrayExpr (hkind : s.current.kind = .punctuation .lBracket) :
    Walks level level (arrayExpr nested) s := by
  have hfinish : ∀ (start : SourceRange) (build : Origin → Expr) s, Walks level level (do
      Parser.newExpr (← Parser.rangeSince start) build) s :=
    fun start build s => .rangeSince fun _ => .newExpr _ _
  have hclose : ∀ (start : SourceRange) (build : Origin → Expr) s, Walks (level + 1) level (do
      let _ ← Parser.expectPunctuation .rBracket "to close the array"
        (Stop.rBracket :: RecoverySet.statement)
      Parser.newExpr (← Parser.rangeSince start) build) s := fun start build s =>
    .expectPunctuation rfl rfl (hfinish start build) (Walks.retains (hfinish start build))
  unfold Parser.arrayExpr
  refine .advance (n := level + 1) hkind rfl rfl fun start s' => ?_
  refine .acceptPunctuation rfl rfl (hfinish start.range _) fun _ => ?_
  refine .bind (hnested.expression (level + 1) s') fun first s'' => ?_
  refine .acceptPunctuation (n := level + 1) (by simp [TokenKind.fits]) rfl (fun s' => ?_) fun _ => ?_
  · exact .bind (hnested.expression (level + 1) s') fun count s'' => hclose start.range _ s''
  · exact .bind (.iterate fun elements s => .nextElement hnested elements) fun elements s'' =>
      hclose start.range _ s''

theorem Walks.vecExpr (hkind : s.current.kind = .keyword .vecWord) :
    Walks level level (vecExpr nested) s := by
  unfold Parser.vecExpr
  refine .advance hkind rfl rfl fun start s' => .acceptOperator (fun s' => ?_) ?_
  · refine Delivers.atPunctuation ?_
    cases hopens : s'.current.isPunctuation .lBracket with
    | true =>
        have hkind : s'.current.kind = .punctuation .lBracket := by
          simpa [Token.isPunctuation] using hopens
        exact Walks.bind (.arrayExpr hnested hkind) fun _ _ => .rangeSince fun _ => .newExpr _ _
    | false => exact Walks.fail Delivers.expected fun _ => Retains.missingExpr
  · exact .fail Delivers.expectedWithHelp fun _ => Retains.missingExpr

theorem Walks.primary : Walks level level (primary nested) s := by
  unfold Parser.primary
  refine .peek ?_
  split
  · exact .literal _ ‹_› rfl rfl
  · exact .literal _ ‹_› rfl rfl
  · rename_i hkind
    refine Delivers.intern fun s' hstretch => ?_
    rw [← hstretch.current] at hkind
    exact Walks.later hstretch (.literal _ hkind rfl rfl)
  · exact .literal _ ‹_› rfl rfl
  · exact .literal _ ‹_› rfl rfl
  · exact .literal _ ‹_› rfl rfl
  · rename_i hkind
    refine Delivers.nameOf fun s' hstretch => ?_
    rw [← hstretch.current] at hkind
    exact Walks.later hstretch (.literal _ hkind rfl rfl)
  · exact .parenthesized hnested ‹_›
  · exact .arrayExpr hnested ‹_›
  · exact .vecExpr hnested ‹_›
  · rename_i hkind
    refine Delivers.missingExpr fun _ s' hstretch => ?_
    rw [← hstretch.current] at hkind
    exact Walks.later hstretch (.advance hkind rfl rfl fun _ _ => .pure _)
  · exact .fail Delivers.expected fun _ => Retains.missingExpr

/-! ### Operators -/

theorem Walks.suffix (base : Expr) : Walks level level (suffix nested base) s := by
  have hindex : ∀ (position : Expr) s, Walks level level (do
      let range ← Parser.rangeSince base.range
      return Turn.again (← Parser.newExpr range (.index · base position))) s :=
    fun position s => .rangeSince fun _ => .bind (.newExpr _ _) fun _ _ => .pure _
  unfold Parser.suffix
  refine .acceptPunctuation (n := level + 1) rfl rfl (fun s' => ?_) fun _ => .peek ?_
  · exact .bind (hnested.expression (level + 1) s') fun position _ =>
      .expectPunctuation rfl rfl (hindex position) (Walks.retains (hindex position))
  · split
    · rename_i hword
      have hkind : s.current.kind = .keyword .asWord := by simpa [Token.isKeyword] using hword
      exact .advance hkind rfl rfl fun _ s' => .bind (hnested.type level s') fun _ _ =>
        .rangeSince fun _ => .bind (.newExpr _ _) fun _ _ => .pure _
    · exact .pure _

theorem Walks.suffixed : Walks level level (suffixed nested) s :=
  .bind (.primary hnested) fun _ _ => .iterate fun base _ => .suffix hnested base

theorem Walks.unary : Walks level level (unary nested) s := by
  unfold Parser.unary
  refine .peek ?_
  split
  · rename_i op hop
    obtain ⟨sign, hsign, -⟩ := Option.bind_eq_some_iff.mp hop
    exact .advance (Token.kind_of_operator? hsign) rfl rfl fun _ s' =>
      .bind (hnested.operand level s') fun _ _ => .newExpr _ _
  · exact .suffixed hnested

omit hnested in
theorem Walks.extendChain (layer : Nat) {tighter : Parser Chain}
    (htighter : ∀ s, Walks level level tighter s) (chain : Chain) :
    Walks level level (extendChain layer tighter chain) s := by
  unfold Parser.extendChain
  refine .peek ?_
  split
  · rename_i op hop
    refine .advance (Token.kind_of_binaryOpOn? hop).1 rfl rfl fun first s' =>
      .bind (htighter s') fun right _ => .bind (.newExpr _ _) fun whole _ => .peek ?_
    split
    · exact .bind (.report _) fun _ _ => .pure _
    · exact .pure _
  · exact .pure _

theorem Walks.layered (layers : List Nat) : ∀ s, Walks level level (layered nested layers) s := by
  induction layers with
  | nil => exact fun s => .bind (.unary hnested) fun _ _ => .pure _
  | cons layer tighter ih =>
      exact fun s => .bind (ih s) fun _ _ => .iterate fun chain _ => .extendChain layer ih chain

theorem Walks.expressionIn : Walks level level (expressionIn nested) s :=
  .bind (.layered hnested _ s) fun _ _ => .pure _

end Nested

/-! ### Nesting -/

theorem NestedWalks.around {inner : Unit → Nested} (hinner : NestedWalks (inner ())) :
    NestedWalks (around inner) where
  expression _ _ := Walks.expressionIn hinner
  operand _ _ := Walks.unary hinner
  type _ _ := Walks.typeIn hinner

theorem NestedWalks.along (levels : List Token) : NestedWalks (nestedAlong levels) := by
  induction levels with
  | nil => exact .around ⟨fun _ _ => .missingExpr, fun _ _ => .missingExpr, fun _ _ => .missingType⟩
  | cons token levels ih => exact .around ih

/-- **Expressions are enclosed.** -/
theorem Walks.expression : Walks level level expression s :=
  (NestedWalks.along s.rest).expression level s

theorem Walks.typeExpr : Walks level level typeExpr s :=
  (NestedWalks.along s.rest).type level s

/-! ### Parts of items -/

theorem Walks.docComments : Walks level level docComments s := by
  refine .iterate fun docs s' => ?_
  unfold Parser.docTurn
  refine .peek ?_
  split
  · exact .advance ‹_› rfl rfl fun _ _ => .pure _
  · rename_i hkind
    refine Delivers.warn fun s'' hstretch => ?_
    rw [← hstretch.current] at hkind
    exact Walks.later hstretch (.advance hkind rfl rfl fun _ _ => .pure _)
  · exact .pure _

theorem Walks.direction : Walks level level direction s := by
  unfold Parser.direction
  refine .peek ?_
  split
  · rename_i hword
    obtain ⟨word, hword, hdirection⟩ := Option.bind_eq_some_iff.mp hword
    refine .advance (Token.kind_of_keyword? hword) ?_ rfl fun _ _ => .pure _
    cases word <;> first | rfl | simp [Direction.ofKeyword?] at hdirection
  · exact .pure _

theorem Walks.listGoesOn (context : String) (inBody : Bool) :
    Walks level level (listGoesOn context inBody) s := by
  unfold Parser.listGoesOn
  refine .acceptPunctuation rfl rfl (fun _ => .pure _) fun _ => ?_
  refine .read (g := fun state => state.current.isEndOfFile || state.startsConstruct inBody) ?_
  split
  · exact .fail Delivers.unclosedList fun _ => Retains.pure _
  · exact .pure _

theorem Walks.listContinues (context what : String) (inBody : Bool) (set : RecoverySet) :
    Walks level level (listContinues context what inBody set) s := by
  unfold Parser.listContinues
  refine .acceptPunctuation rfl rfl (fun _ => .pure _) fun _ => ?_
  refine .bind (.listGoesOn context inBody) fun goesOn s' => ?_
  split
  · refine .fail Delivers.expected fun _ => Retains.bind (Retains.synchronize _) fun _ =>
      Retains.bind (Retains.acceptPunctuation _) fun comma => ?_
    split
    · exact Retains.pure _
    · exact Retains.bind (Retains.acceptPunctuation _) fun _ => Retains.pure _
  · exact .pure _

theorem Walks.declaredType : Walks level level declaredType s :=
  .acceptPunctuation rfl rfl (fun _ => .map .typeExpr) fun _ => .pure _

theorem Walks.initializer : Walks level level initializer s :=
  .acceptOperator (fun _ => .map .expression) (.pure _)

end BehaviorTree.Parser

/-!
## Parts of items are enclosed

The lists, indices, preconditions and attributes of an item close the square brackets that they open
and consume no brace, and no `;` but inside square brackets. So the first `;` behind all brackets ends
the item, unless a brace opens a block before.
-/

namespace BehaviorTree.Parser

open ParserState

variable {s : ParserState} {level : Nat}

/-! ### Preconditions -/

theorem Walks.preconditionBehind (found : List Precondition) (start : SourceRange)
    (kind : Option PreconditionKind) : Walks level level (preconditionBehind found start kind) s := by
  have hclosed : ∀ (condition : Expr) s,
      Walks level level (Parser.preconditionClosed found start condition kind) s := by
    intro condition s
    refine .rangeSince fun range => ?_
    cases kind <;> exact .pure _
  unfold Parser.preconditionBehind
  dsimp only
  refine .expectPunctuation rfl rfl (fun s' => .bind .expression fun condition s'' => ?_)
    (Retains.pure _)
  exact .expectPunctuation rfl rfl (hclosed condition) (Walks.retains (hclosed condition))

theorem Walks.preconditionTurn (found : List Precondition) :
    Walks level level (preconditionTurn found) s := by
  unfold Parser.preconditionTurn
  dsimp only
  refine .peek (.acceptPunctuation rfl rfl (fun s' => ?_) fun _ => .pure _)
  refine .expectName (fun name s' => ?_)
    (Retains.bind (Retains.acceptPunctuation _) fun _ => Retains.pure _)
  dsimp only
  split
  · exact .bind (.report _) fun _ _ => .preconditionBehind found _ _
  · exact .preconditionBehind found _ _

theorem Walks.preconditions : Walks level level preconditions s :=
  .iterate fun found _ => .preconditionTurn found

/-! ### Arguments and indices -/

theorem Walks.argumentName : Walks level level argumentName s := by
  unfold Parser.argumentName
  refine .peek (.peekSecond ?_)
  split
  · rename_i hboth
    rw [Bool.and_eq_true] at hboth
    obtain ⟨hname, hcolon⟩ := hboth
    have hkind : s.current.kind = .identifier := by simpa [Token.isIdentifier] using hname
    refine Delivers.advance_of hkind (by simp) fun s' hstretch => ?_
    rw [← hstretch.current_of_cons] at hcolon
    have hkind' : s'.current.kind = .punctuation .colon := by
      simpa [Token.isPunctuation] using hcolon
    have hbehind : Walks level level (Parser.advance >>= fun _ =>
        Option.some <$> Parser.nameOf s.current) s' :=
      .advance hkind' rfl rfl fun _ _ => .map (.nameOf _)
    exact (Walks.behind hbehind (by rw [hkind]; rfl) (by rw [hkind]; rfl)).mono fun _ _ h => h hstretch
  · exact .pure _

theorem Walks.argument : Walks level level argument s :=
  .peek (.bind .argumentName fun _ _ => .bind .direction fun _ _ => .bind .expression fun _ _ =>
    .rangeSince fun _ => .pure _)

theorem Walks.argumentTurn (arguments : List Argument) :
    Walks level level (argumentTurn arguments) s := by
  unfold Parser.argumentTurn
  dsimp only
  refine .bind (.listGoesOn _ _) fun goesOn s' => ?_
  split
  · refine .bind .argument fun argument s'' => .bind (.listContinues _ _ _ _) fun continues _ => ?_
    split <;> exact .pure _
  · exact .pure _

theorem Walks.arguments : Walks level level arguments s :=
  .acceptPunctuation rfl rfl (fun _ => .map (.iterate fun arguments _ => .argumentTurn arguments))
    fun _ => .pure _

theorem Walks.indexTurn (indices : List Expr) : Walks level level (indexTurn indices) s := by
  unfold Parser.indexTurn
  refine .acceptPunctuation (n := level + 1) rfl rfl (fun s' => ?_) fun _ => .pure _
  refine .bind .expression fun position s'' => ?_
  refine .acceptPunctuation rfl rfl (fun _ => .pure _) fun _ => .peek ?_
  split
  · exact .fail Delivers.expected fun _ => Retains.pure _
  · exact .expectPunctuation rfl rfl (fun _ => .pure _) (Retains.pure _)

/-! ### Ports and parameters -/

theorem Walks.param (what : String) (set : RecoverySet) : Walks level level (param what set) s := by
  have hdefault : ∀ (docs : Docs) (start : SourceRange) (direction : Option Direction) (name : Name)
      (type : TypeExpr) s, Walks level level (do
        let default ← Parser.initializer
        return some (⟨docs.lines, direction, name, type, default, ← Parser.rangeSince start⟩ : Param)) s :=
    fun docs start direction name type s => .bind .initializer fun _ _ => .rangeSince fun _ => .pure _
  unfold Parser.param
  refine .bind .docComments fun docs s₁ => .peek (.bind .direction fun direction s₂ => ?_)
  refine .expectName (fun name s' => ?_) (Retains.pure _)
  dsimp only
  refine .expectPunctuation rfl rfl (fun s' => .bind .typeExpr fun type => hdefault _ _ _ _ type) ?_
  exact Retains.bind Retains.missingType fun type => Walks.retains (hdefault _ _ _ _ type)

theorem Walks.paramTurn (what : String) (params : List Param) :
    Walks level level (paramTurn what params) s := by
  unfold Parser.paramTurn
  dsimp only
  refine .bind (.listGoesOn _ _) fun goesOn s' => ?_
  split
  · refine .bind (.param _ _) fun param s'' => .bind (.listContinues _ _ _ _) fun continues _ => ?_
    split <;> exact .pure _
  · exact .pure _

theorem Walks.paramList (what context : String) : Walks level level (paramList what context) s := by
  unfold Parser.paramList
  refine .expectPunctuation rfl rfl (fun s' => ?_) (Retains.pure _)
  exact .iterate fun params _ => .paramTurn what params

/-! ### Attributes -/

theorem Walks.policy {α : Type} (what choices : String) (ofSpelling? : String → Option α)
    (set : RecoverySet) : Walks level level (policy what choices ofSpelling? set) s := by
  unfold Parser.policy
  refine .expectName (fun name s' => ?_) (Retains.pure _)
  dsimp only
  split
  · exact .pure _
  · exact .fail (Delivers.report rfl) fun _ => Retains.pure _

theorem Walks.flowPolicy (set : RecoverySet) : Walks level level (flowPolicy set) s :=
  .acceptPunctuation rfl rfl (fun _ => .policy _ _ _ _) fun _ => .pure _

theorem Walks.policies (set : RecoverySet) : Walks level level (policies set) s := by
  unfold Parser.policies
  dsimp only
  refine .expectPunctuation rfl rfl (fun s' => ?_) (Retains.pure _)
  refine .bind (.policy _ _ _ _) fun data s'' => .bind (.flowPolicy _) fun flow s''' => ?_
  refine .expectPunctuation rfl rfl (fun _ => ?_)
    (Walks.retains fun s => (?_ : Walks level level _ s))
  · split <;> exact .pure _
  · split <;> exact .pure _

/-- Behind the `[` of an attribute. -/
theorem Walks.attributeBody (set : RecoverySet) :
    Walks level (level + 1) (attributeBody set) s := by
  unfold Parser.attributeBody
  refine .expectPunctuation (n := level + 1) rfl rfl (fun s' => ?_) (Retains.pure _)
  refine .expectName (fun name s'' => ?_) (Retains.pure _)
  dsimp only
  split
  · exact .policies _
  · exact .fail (Delivers.report rfl) fun _ =>
      Retains.bind (Retains.synchronize _) fun _ => Retains.pure _

theorem Walks.attributeHere : Walks level level attributeHere s := by
  unfold Parser.attributeHere
  dsimp only
  refine .peek (.acceptPunctuation rfl rfl (fun s' => ?_) fun _ => .pure _)
  refine .bind (.attributeBody _) fun policies s'' => ?_
  refine .expectPunctuation rfl rfl (fun _ => ?_)
    (Walks.retains fun s => (?_ : Walks level level _ s))
  · exact .rangeSince fun _ => .pure _
  · exact .rangeSince fun _ => .pure _

end BehaviorTree.Parser
