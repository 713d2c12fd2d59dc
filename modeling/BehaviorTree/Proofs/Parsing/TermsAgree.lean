import BehaviorTree.Parsing.Expression
import BehaviorTree.Proofs.Parsing.Agreement

/-!
# Runs on terms agree

Recovery, types and expressions: what is recovered from, and what is built, depends on the kinds and
texts of the tokens and on the line breaks between them only.
-/

namespace BehaviorTree

/-- A name that may be missing. -/
abbrev Option.nameShape (name : Option Name) : Option Name := name.map Name.shape

namespace Parser

variable {α : Type}

/-! ### Recovery -/

theorem Same.expectPunctuation (mark : Punctuation) (context : String) (set : RecoverySet) :
    Same (expectPunctuation mark context set) (expectPunctuation mark context set) := by
  apply Agrees.next (Same.acceptPunctuation mark)
  intro accepted
  split
  · exact Same.pure _
  · apply Agrees.next (Same.missing _ _ _ _ _)
    intro recovery
    cases recovery with
    | insert => exact Same.pure _
    | skip =>
        apply Agrees.next (Same.synchronize set)
        intro _
        exact Same.acceptPunctuation mark

theorem Same.expectSemi (context : String) (set : RecoverySet) :
    Same (expectSemi context set) (expectSemi context set) := by
  apply Agrees.next (Same.acceptPunctuation .semi)
  intro accepted
  split
  · exact Same.pure _
  · apply Agrees.next (Same.missing _ _ _ _ _)
    intro recovery
    cases recovery with
    | insert => exact Same.pure _
    | skip =>
        apply Agrees.next (Same.synchronize set)
        intro _
        exact Agrees.next (Same.acceptPunctuation .semi) fun _ => Same.pure _

theorem Same.expectOperator (op : Operator) (context : String) (set : RecoverySet) :
    Same (expectOperator op context set) (expectOperator op context set) := by
  apply Agrees.next (Same.acceptOperator op)
  intro accepted
  split
  · exact Same.pure _
  · apply Agrees.next (Same.missing _ _ _ _ _)
    intro _
    apply Agrees.next (Same.synchronize set)
    intro _
    exact Same.acceptOperator op

theorem Same.unclosedList (context : String) : Same (unclosedList context) (unclosedList context) :=
  Agrees.next (Same.missing _ _ _ _ _) fun _ => Same.pure _

theorem Agrees.expectName (what : String) (set : RecoverySet) :
    Agrees (expectName what set) (expectName what set) (Alike Option.nameShape) := by
  have hsome : ∀ name name' : Name, name.shape = name'.shape →
      Agrees (Pure.pure (some name)) (Pure.pure (some name')) (Alike Option.nameShape) :=
    fun name name' hname => Agrees.pure (congrArg some hname)
  apply Agrees.peek
  intro kind text range range' line
  apply Agrees.ite Iff.rfl
  · intro _
    exact Agrees.advance fun _ _ _ _ _ => Agrees.nameOf hsome
  · intro _
    dsimp only [Token.keyword?]
    split
    · apply Agrees.next (Same.expectedWithHelp _ _ _ _)
      intro _
      apply Agrees.ite Iff.rfl
      · intro _
        exact Agrees.next (Same.synchronize set) fun _ => Agrees.pure rfl
      · intro _
        exact Agrees.advance fun _ _ _ _ _ => Agrees.nameOf hsome
    · apply Agrees.next (Same.expected _ _)
      intro _
      exact Agrees.next (Same.synchronize set) fun _ => Agrees.pure rfl

/-- Behind a name that may be missing. -/
theorem Agrees.named {β : Type} {goal : β → β → Prop} {what : String} {set : RecoverySet}
    {f g : Option Name → Parser β} (hnone : Agrees (f none) (g none) goal)
    (hsome : ∀ name name', name.shape = name'.shape →
      Agrees (f (some name)) (g (some name')) goal) :
    Agrees (Parser.expectName what set >>= f) (Parser.expectName what set >>= g) goal := by
  apply Agrees.bind (Agrees.expectName what set)
  rintro (_ | name) (_ | name') hname
  · exact hnone
  · cases hname
  · cases hname
  · exact hsome name name' (Option.some.inj hname)

theorem Same.listBreaksOff (inBody : Bool) : Same (listBreaksOff inBody) (listBreaksOff inBody) := by
  intro books s t htwins
  have hcurrent : s.current.blank = t.current.blank := htwins.tokenAt 0
  refine ⟨?_, htwins⟩
  show (s.current.isEndOfFile || s.startsConstruct inBody) =
    (t.current.isEndOfFile || t.startsConstruct inBody)
  rw [htwins.startsConstruct, ← Token.isEndOfFile_blank, hcurrent, Token.isEndOfFile_blank]

theorem Agrees.foreignPart (shape : ForeignShape) :
    Agrees (foreignPart shape ()) (foreignPart shape ()) (Turn.Agrees Eq) := by
  apply Agrees.next (Same.skip fun _ => Skip.counts_header.blank Token.endsHeader_blank)
  intro _
  apply Agrees.next (Same.atPunctuation _)
  intro block
  split
  · apply Agrees.next (Same.skip fun _ => Skip.blockRest_blank)
    intro _
    apply Agrees.peek
    intro kind text range range' line
    apply Agrees.ite Iff.rfl
    · exact fun _ => Agrees.advance fun _ _ _ _ _ => Agrees.pure rfl
    · exact fun _ => Agrees.pure rfl
  · exact Agrees.next (Same.acceptPunctuation _) fun _ => Agrees.pure rfl

theorem Same.skipForeign (word : ForeignWord) : Same (skipForeign word) (skipForeign word) := by
  apply Agrees.peek
  intro kind text range range' line
  apply Agrees.next (Same.reportOnce _ _ (by rfl))
  intro _
  apply Agrees.advance
  intro _ _ _ _ _
  apply Agrees.iterate rfl
  intro _ _ _
  exact Agrees.foreignPart word.shape

theorem Same.danglingDocs {range range' : Option SourceRange}
    (hsome : range.isSome = range'.isSome) : Same (danglingDocs range) (danglingDocs range') := by
  cases range <;> cases range'
  · exact Same.pure ()
  · cases hsome
  · cases hsome
  · exact Same.report _ _ rfl

/-! ### Types -/

/-- What is nested in a term is read alike. -/
structure NestedAgrees (nested : Nested) : Prop where
  expression : Agrees nested.expression nested.expression (Alike Expr.shape)
  operand : Agrees nested.operand nested.operand (Alike Expr.shape)
  type : Agrees nested.type nested.type (Alike TypeExpr.shape)

/-- Two ways to make trees of one shape. -/
def Builds (shape : α → α) (build build' : Origin → α) : Prop :=
  ∀ o o', shape (build o) = shape (build' o')

theorem Same.stringBound : Same stringBound stringBound := by
  apply Agrees.peek
  intro kind text range range' line
  dsimp only
  split
  · apply Agrees.advance
    intro _ _ _ _ _
    apply Agrees.next (Same.pure _)
    intro bound
    exact Agrees.next (Same.expectOperator _ _ _) fun _ => Same.pure _
  · apply Agrees.next (Same.expected _ _)
    intro _
    apply Agrees.next (Same.pure _)
    intro bound
    exact Agrees.next (Same.expectOperator _ _ _) fun _ => Same.pure _

theorem Agrees.stringType : Agrees stringType stringType (Builds TypeExpr.shape) := by
  apply Agrees.next (Same.acceptOperator _)
  intro bounded
  split
  · exact Agrees.next Same.stringBound fun _ => Agrees.pure fun _ _ => rfl
  · exact Agrees.pure fun _ _ => rfl

section Nested

variable {nested : Nested}

theorem Agrees.vecType (hnested : NestedAgrees nested) :
    Agrees (vecType nested) (vecType nested) (Builds TypeExpr.shape) := by
  apply Agrees.next (Same.expectOperator _ _ _)
  intro opened
  split
  · apply Agrees.bind hnested.type
    intro element element' helement
    apply Agrees.next (Same.expectOperator _ _ _)
    intro _
    apply Agrees.pure
    intro o o'
    rw [TypeExpr.shape, TypeExpr.shape, helement]
  · exact Agrees.pure fun _ _ => rfl

theorem Agrees.arrayType (hnested : NestedAgrees nested) :
    Agrees (arrayType nested) (arrayType nested) (Builds TypeExpr.shape) := by
  apply Agrees.bind hnested.type
  intro element element' helement
  apply Agrees.next (Same.expectPunctuation _ _ _)
  intro semi
  split
  · apply Agrees.next (Same.acceptOperator _)
    intro bounded
    apply Agrees.bind hnested.expression
    intro length length' hlength
    apply Agrees.next (Same.expectPunctuation _ _ _)
    intro _
    split
    · apply Agrees.pure
      intro o o'
      rw [TypeExpr.shape, TypeExpr.shape, helement, hlength]
    · apply Agrees.pure
      intro o o'
      rw [TypeExpr.shape, TypeExpr.shape, helement, hlength]
  · exact Agrees.next (Same.acceptPunctuation _) fun _ => Agrees.pure fun _ _ => rfl

/-- Both are there or neither, and make trees of one shape. -/
def MayBuild : Option (Origin → TypeExpr) → Option (Origin → TypeExpr) → Prop
  | some build, some build' => Builds TypeExpr.shape build build'
  | none, none => True
  | _, _ => False

theorem Agrees.plainType (hnested : NestedAgrees nested) :
    Agrees (plainType nested) (plainType nested) MayBuild := by
  apply Agrees.peek
  intro kind text range range' line
  dsimp only
  split
  · exact Agrees.advance fun _ _ _ _ _ => Agrees.pure fun _ _ => rfl
  · apply Agrees.advance
    intro _ _ _ _ _
    apply Agrees.nameOf
    intro name name' hname
    apply Agrees.pure
    intro o o'
    rw [TypeExpr.shape, TypeExpr.shape, hname]
  · exact Agrees.advance fun _ _ _ _ _ => Agrees.map Agrees.stringType fun _ _ hbuild => hbuild
  · exact Agrees.advance fun _ _ _ _ _ =>
      Agrees.map (Agrees.vecType hnested) fun _ _ hbuild => hbuild
  · exact Agrees.advance fun _ _ _ _ _ =>
      Agrees.map (Agrees.arrayType hnested) fun _ _ hbuild => hbuild
  · exact Agrees.next (Same.expected _ _) fun _ => Agrees.pure trivial

theorem Agrees.typeIn (hnested : NestedAgrees nested) :
    Agrees (typeIn nested) (typeIn nested) (Alike TypeExpr.shape) := by
  apply Agrees.peek
  intro kind text range range' line
  apply Agrees.bind (Agrees.plainType hnested)
  rintro (_ | build) (_ | build') hbuild
  · exact Agrees.missingType
  · cases hbuild
  · cases hbuild
  · apply Agrees.rangeSince
    intro _ _
    apply Agrees.bind (Agrees.newType hbuild)
    intro type type' htype
    apply Agrees.next (Same.acceptPunctuation _)
    intro question
    split
    · apply Agrees.rangeSince
      intro _ _
      apply Agrees.newType
      intro o o'
      rw [TypeExpr.shape, TypeExpr.shape, htype]
    · exact Agrees.pure htype

/-! ### Expressions -/

theorem Agrees.literal {build build' : Origin → Expr} (hbuild : Builds Expr.shape build build') :
    Agrees (literal build) (literal build') (Alike Expr.shape) :=
  Agrees.advance fun _ _ _ _ _ => Agrees.newExpr hbuild

theorem Agrees.parenthesized (hnested : NestedAgrees nested) :
    Agrees (parenthesized nested) (parenthesized nested) (Alike Expr.shape) := by
  apply Agrees.advance
  intro _ _ _ _ _
  apply Agrees.bind hnested.expression
  intro inner inner' hinner
  apply Agrees.next (Same.expectPunctuation _ _ _)
  intro _
  apply Agrees.rangeSince
  intro _ _
  exact Agrees.widenExpr hinner

theorem Agrees.nextElement (hnested : NestedAgrees nested) {elements elements' : List Expr}
    (helements : Alike Expr.shapes elements elements') :
    Agrees (nextElement nested elements) (nextElement nested elements')
      (Turn.Agrees (Alike Expr.shapes)) := by
  apply Agrees.next (Same.acceptPunctuation _)
  intro comma
  split
  · apply Agrees.next (Same.atPunctuation _)
    intro close
    split
    · exact Agrees.pure helements
    · apply Agrees.bind hnested.expression
      intro element element' helement
      apply Agrees.pure
      unfold Alike at helements helement
      simp [Turn.Agrees, Alike, Expr.shapes_eq_map, helement] at helements ⊢
      exact helements
  · exact Agrees.pure helements

theorem Agrees.arrayExpr (hnested : NestedAgrees nested) :
    Agrees (arrayExpr nested) (arrayExpr nested) (Alike Expr.shape) := by
  apply Agrees.advance
  intro _ _ _ _ _
  dsimp only
  apply Agrees.next (Same.acceptPunctuation _)
  intro closed
  split
  · apply Agrees.rangeSince
    intro _ _
    exact Agrees.newExpr fun _ _ => rfl
  · apply Agrees.bind hnested.expression
    intro first first' hfirst
    apply Agrees.next (Same.acceptPunctuation _)
    intro semi
    split
    · apply Agrees.bind hnested.expression
      intro count count' hcount
      apply Agrees.next (Same.expectPunctuation _ _ _)
      intro _
      apply Agrees.rangeSince
      intro _ _
      apply Agrees.newExpr
      intro o o'
      rw [Expr.shape, Expr.shape, hfirst, hcount]
    · have hloop : Agrees (Parser.iterate (Parser.nextElement nested) [first])
          (Parser.iterate (Parser.nextElement nested) [first']) (Alike Expr.shapes) := by
        apply Agrees.iterate
        · unfold Alike
          rw [Expr.shapes, Expr.shapes, hfirst]
          rfl
        · intro elements elements' helements
          exact Agrees.nextElement hnested helements
      apply Agrees.bind hloop
      intro elements elements' helements
      apply Agrees.next (Same.expectPunctuation _ _ _)
      intro _
      apply Agrees.rangeSince
      intro _ _
      apply Agrees.newExpr
      intro o o'
      rw [Expr.shape, Expr.shape, helements]

theorem Agrees.vecExpr (hnested : NestedAgrees nested) :
    Agrees (vecExpr nested) (vecExpr nested) (Alike Expr.shape) := by
  apply Agrees.advance
  intro _ _ _ _ _
  dsimp only
  apply Agrees.next (Same.acceptOperator _)
  intro bang
  split
  · apply Agrees.next (Same.atPunctuation _)
    intro bracket
    split
    · apply Agrees.bind (Agrees.arrayExpr hnested)
      intro inner inner' hinner
      apply Agrees.rangeSince
      intro _ _
      apply Agrees.newExpr
      intro o o'
      rw [Expr.shape, Expr.shape, hinner]
    · exact Agrees.next (Same.expected _ _) fun _ => Agrees.missingExpr
  · exact Agrees.next (Same.expectedWithHelp _ _ _ _) fun _ => Agrees.missingExpr

theorem Agrees.primary (hnested : NestedAgrees nested) :
    Agrees (primary nested) (primary nested) (Alike Expr.shape) := by
  apply Agrees.peek
  intro kind text range range' line
  dsimp only
  split
  case h_3 => exact Agrees.next (Same.intern _ _) fun _ => Agrees.literal fun _ _ => rfl
  case h_7 =>
    apply Agrees.nameOf
    intro name name' hname
    apply Agrees.literal
    intro o o'
    rw [Expr.shape, Expr.shape, hname]
  case h_8 => exact Agrees.parenthesized hnested
  case h_9 => exact Agrees.arrayExpr hnested
  case h_10 => exact Agrees.vecExpr hnested
  case h_11 =>
    apply Agrees.bind Agrees.missingExpr
    intro missing missing' hmissing
    exact Agrees.advance fun _ _ _ _ _ => Agrees.pure hmissing
  case h_12 => exact Agrees.next (Same.expected _ _) fun _ => Agrees.missingExpr
  all_goals exact Agrees.literal fun _ _ => rfl

theorem Agrees.suffix (hnested : NestedAgrees nested) {base base' : Expr}
    (hbase : Alike Expr.shape base base') :
    Agrees (suffix nested base) (suffix nested base') (Turn.Agrees (Alike Expr.shape)) := by
  apply Agrees.next (Same.acceptPunctuation _)
  intro bracket
  split
  · apply Agrees.bind hnested.expression
    intro position position' hposition
    apply Agrees.next (Same.expectPunctuation _ _ _)
    intro _
    apply Agrees.rangeSince
    intro _ _
    refine Agrees.bind (Agrees.newExpr fun o o' => ?_) fun _ _ hwhole => Agrees.pure hwhole
    rw [Expr.shape, Expr.shape, hbase, hposition]
  · apply Agrees.peek
    intro kind text range range' line
    apply Agrees.ite Iff.rfl
    · intro _
      apply Agrees.advance
      intro _ _ _ _ _
      apply Agrees.bind hnested.type
      intro type type' htype
      apply Agrees.rangeSince
      intro _ _
      refine Agrees.bind (Agrees.newExpr fun o o' => ?_) fun _ _ hwhole => Agrees.pure hwhole
      rw [Expr.shape, Expr.shape, hbase, htype]
    · exact fun _ => Agrees.pure hbase

theorem Agrees.suffixed (hnested : NestedAgrees nested) :
    Agrees (suffixed nested) (suffixed nested) (Alike Expr.shape) := by
  apply Agrees.bind (Agrees.primary hnested)
  intro base base' hbase
  apply Agrees.iterate hbase
  intro base base' hbase
  exact Agrees.suffix hnested hbase

theorem Agrees.unary (hnested : NestedAgrees nested) :
    Agrees (unary nested) (unary nested) (Alike Expr.shape) := by
  apply Agrees.peek
  intro kind text range range' line
  dsimp only [Token.operator?]
  split
  · apply Agrees.advance
    intro _ _ _ _ _
    apply Agrees.bind hnested.operand
    intro operand operand' hoperand
    apply Agrees.newExpr
    intro o o'
    rw [Expr.shape, Expr.shape, hoperand]
  · exact Agrees.suffixed hnested

/-- A chain without places. -/
def Chain.shape (chain : Chain) : Expr × Bool := (chain.left.shape, chain.reported)

theorem Agrees.extendChain {layer : Nat} {tighter : Parser Chain} {chain chain' : Chain}
    (htighter : Agrees tighter tighter (Alike Chain.shape))
    (hchain : Alike Chain.shape chain chain') :
    Agrees (extendChain layer tighter chain) (extendChain layer tighter chain')
      (Turn.Agrees (Alike Chain.shape)) := by
  have hleft : chain.left.shape = chain'.left.shape := congrArg Prod.fst hchain
  have hreported : chain.reported = chain'.reported := congrArg Prod.snd hchain
  apply Agrees.peek
  intro kind text range range' line
  dsimp only [Token.binaryOpOn?, Token.operator?]
  split
  · apply Agrees.advance
    intro _ _ _ _ _
    apply Agrees.bind htighter
    intro right right' hright
    have hshape : right.left.shape = right'.left.shape := congrArg Prod.fst hright
    have hnew : ∀ op range range', Agrees
        (Parser.newExpr range (.binary · op chain.left right.left))
        (Parser.newExpr range' (.binary · op chain'.left right'.left)) (Alike Expr.shape) := by
      intro op range range'
      apply Agrees.newExpr
      intro o o'
      rw [Expr.shape, Expr.shape, hleft, hshape]
    · apply Agrees.bind (hnew _ _ _)
      intro whole whole' hwhole
      apply Agrees.peek
      intro _ _ _ _ _
      rw [hreported]
      apply Agrees.ite Iff.rfl
      · intro _
        apply Agrees.next (Same.report _ _ (by simp only [SyntaxReport.severity_chainedComparison]))
        intro _
        apply Agrees.pure
        exact congrArg (·, true) hwhole
      · intro _
        apply Agrees.pure
        exact congrArg (·, chain'.reported) hwhole
  · exact Agrees.pure hchain

theorem Agrees.layered (hnested : NestedAgrees nested) (layers : List Nat) :
    Agrees (layered nested layers) (layered nested layers) (Alike Chain.shape) := by
  induction layers with
  | nil =>
      apply Agrees.bind (Agrees.unary hnested)
      intro operand operand' hoperand
      apply Agrees.pure
      exact congrArg (·, false) hoperand
  | cons layer tighter ih =>
      apply Agrees.bind ih
      intro start start' hstart
      apply Agrees.iterate hstart
      intro chain chain' hchain
      exact Agrees.extendChain ih hchain

theorem Agrees.expressionIn (hnested : NestedAgrees nested) :
    Agrees (expressionIn nested) (expressionIn nested) (Alike Expr.shape) := by
  apply Agrees.bind (Agrees.layered hnested _)
  intro chain chain' hchain
  apply Agrees.pure
  exact congrArg Prod.fst hchain

end Nested

theorem NestedAgrees.around {inner : Unit → Nested} (hinner : NestedAgrees (inner ())) :
    NestedAgrees (around inner) where
  expression := Agrees.expressionIn hinner
  operand := Agrees.unary hinner
  type := Agrees.typeIn hinner

theorem NestedAgrees.nothing : NestedAgrees .nothing :=
  ⟨Agrees.missingExpr, Agrees.missingExpr, Agrees.missingType⟩

theorem NestedAgrees.along (levels : List Token) : NestedAgrees (nestedAlong levels) := by
  induction levels with
  | nil => exact NestedAgrees.around NestedAgrees.nothing
  | cons token levels ih => exact NestedAgrees.around ih

theorem Agrees.expression : Agrees expression expression (Alike Expr.shape) := by
  intro books s t htwins
  have hagrees := (NestedAgrees.along s.rest).expression books s t htwins
  show Alike Expr.shape ((nestedAlong s.rest).expression s).1 ((nestedAlong t.rest).expression t).1 ∧
    ParserState.Twins books ((nestedAlong s.rest).expression s).2 ((nestedAlong t.rest).expression t).2
  rw [← nestedAlong_congr htwins.length_eq]
  exact hagrees

theorem Agrees.typeExpr : Agrees typeExpr typeExpr (Alike TypeExpr.shape) := by
  intro books s t htwins
  have hagrees := (NestedAgrees.along s.rest).type books s t htwins
  show Alike TypeExpr.shape ((nestedAlong s.rest).type s).1 ((nestedAlong t.rest).type t).1 ∧
    ParserState.Twins books ((nestedAlong s.rest).type s).2 ((nestedAlong t.rest).type t).2
  rw [← nestedAlong_congr htwins.length_eq]
  exact hagrees

end Parser

end BehaviorTree
