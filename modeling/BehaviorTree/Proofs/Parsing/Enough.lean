import BehaviorTree.Proofs.Parsing.ProgramsAgree
import BehaviorTree.Proofs.Parsing.Progress

/-!
# Enough turns and levels

A loop is given a turn for each token at hand, and a block a level of nesting for each. That is
enough: more turns or levels make no difference, because every turn that asks for another one and
every block consumes a token, and none of them goes on at the end of the file.
-/

namespace BehaviorTree

namespace ParserState

variable {s : ParserState}

/-- Past the end of the tokens there is the end of the file. -/
def Ended (state : ParserState) : Prop := state.final.isEndOfFile = true

theorem Ended.some_left (hended : s.Ended) (hcurrent : s.current.isEndOfFile = false) :
    s.rest ≠ [] := by
  intro hrest
  have hfinal : s.current = s.final := by simp [current, tokenAt, hrest]
  rw [hfinal, hended] at hcurrent
  cases hcurrent

theorem Reaches.ended {start : ParserState} (hreaches : start.Reaches s) (hended : start.Ended) :
    s.Ended := by
  rw [Ended, hreaches.final]
  exact hended

end ParserState

namespace Parser

open ParserState

variable {α β : Type} {p q : Parser α} {f g : α → Parser β} {rel : α → α → Prop} {bound : Nat}
  {s : ParserState}

/-! ### Turns of loops -/

/-- Turns for the tokens at hand are enough, if each turn that asks for another one consumes one. -/
theorem iterateAlong_enough {body : α → Parser (Turn α)}
    (hreaches : ∀ v (s : ParserState), s.Reaches (body v s).2)
    (hshrinks : ∀ v s next, s.Ended → (body v s).1 = .again next →
      (body v s).2.rest.length < s.rest.length)
    (turns turns' : List Token) (v : α) (s : ParserState) (hended : s.Ended)
    (hturns : s.rest.length ≤ turns.length) (hturns' : s.rest.length ≤ turns'.length) :
    iterateAlong body turns v s = iterateAlong body turns' v s := by
  have hrun : ∀ {f g : Turn α → Parser α} {v s}, (∀ last, f (.done last) = g (.done last)) →
      (∀ next, (body v s).1 = .again next → f (.again next) (body v s).2 =
        g (.again next) (body v s).2) → (body v >>= f) s = (body v >>= g) s := by
    intro f g v s hdone hagain
    show f (body v s).1 (body v s).2 = g (body v s).1 (body v s).2
    cases hturn : (body v s).1 with
    | again next => exact hagain next hturn
    | done last => rw [hdone]
  induction turns generalizing turns' v s with
  | nil =>
      cases turns' with
      | nil => rfl
      | cons _ _ =>
          refine hrun (fun _ => rfl) fun next hagain => ?_
          have hless := hshrinks v s next hended hagain
          rw [List.length_nil] at hturns
          omega
  | cons token turns ih =>
      cases turns' with
      | nil =>
          refine hrun (fun _ => rfl) fun next hagain => ?_
          have hless := hshrinks v s next hended hagain
          rw [List.length_nil] at hturns'
          omega
      | cons token' turns' =>
          refine hrun (fun _ => rfl) fun next hagain => ?_
          have hless := hshrinks v s next hended hagain
          rw [List.length_cons] at hturns hturns'
          exact ih turns' next _ ((hreaches v s).ended hended) (by omega) (by omega)

/-- A loop that only ends at the end of the file gets there. -/
theorem iterate_atEnd {body : α → Parser (Turn α)}
    (hreaches : ∀ v (s : ParserState), s.Reaches (body v s).2)
    (hshrinks : ∀ v s next, s.Ended → (body v s).1 = .again next →
      (body v s).2.rest.length < s.rest.length)
    (hdone : ∀ v s last, (body v s).1 = .done last → (body v s).2.current.isEndOfFile = true)
    (v : α) (s : ParserState) (hended : s.Ended) :
    (iterate body v s).2.current.isEndOfFile = true := by
  have hrun : ∀ {f : Turn α → Parser α} {v s}, (∀ last, f (.done last) = Pure.pure last) →
      (∀ next, (body v s).1 = .again next →
        (f (.again next) (body v s).2).2.current.isEndOfFile = true) →
      ((body v >>= f) s).2.current.isEndOfFile = true := by
    intro f v s hlast hagain
    show (f (body v s).1 (body v s).2).2.current.isEndOfFile = true
    cases hturn : (body v s).1 with
    | again next => exact hagain next hturn
    | done last =>
        rw [hlast]
        exact hdone v s last hturn
  have halong : ∀ turns v (s : ParserState), s.Ended → s.rest.length ≤ turns.length →
      (iterateAlong body turns v s).2.current.isEndOfFile = true := by
    intro turns
    induction turns with
    | nil =>
        intro v s hended hturns
        refine hrun (fun _ => rfl) fun next hagain => ?_
        have hless := hshrinks v s next hended hagain
        rw [List.length_nil] at hturns
        omega
    | cons token turns ih =>
        intro v s hended hturns
        refine hrun (fun _ => rfl) fun next hagain => ?_
        have hless := hshrinks v s next hended hagain
        rw [List.length_cons] at hturns
        exact ih next _ ((hreaches v s).ended hended) (by omega)
  exact halong s.rest v s hended (Nat.le_refl _)

theorem reaches_peek (s : ParserState) : s.Reaches (peek s).2 := Reaches.refl s

theorem reaches_nameOf (token : Token) (s : ParserState) : s.Reaches (nameOf token s).2 := by
  obtain ⟨kind, text, range, line⟩ := token
  have hname : Agrees (nameOf ⟨kind, text, range, line⟩) (nameOf ⟨kind, text, range, line⟩)
      (Alike Name.shape) := Agrees.name
  exact hname.reaches s

/-- A token is consumed, if that is not left to what comes behind. -/
theorem orStepOver_shrinks {exempt : Token → Bool} (hp : Agrees p p rel) (hended : s.Ended)
    (hcurrent : s.current.isEndOfFile = false) (hexempt : exempt s.current = false) :
    (orStepOver p exempt s).2.rest.length < s.rest.length := by
  have hsome : s.rest ≠ [] := hended.some_left hcurrent
  have hreaches : s.Reaches (p s).2 := hp.reaches s
  show (if (p s).2.position = s.position ∧ !exempt (p s).2.current then
    ((p s).1, (advance (p s).2).2) else p s).2.rest.length < _
  by_cases hmoved : (p s).2.position = s.position
  · obtain ⟨count, hrest, hposition⟩ := hreaches.moved
    obtain rfl : count = 0 := by omega
    have hstill : (p s).2.current = s.current := by
      simp [current, tokenAt, hrest, hreaches.final]
    have hadvance : (advance (p s).2).2 = (p s).2.skip 1 := by
      unfold advance
      rw [hstill, hcurrent]
      rfl
    rw [if_pos ⟨hmoved, by rw [hstill, hexempt]; rfl⟩, hadvance]
    show ((p s).2.rest.drop 1).length < _
    have hpositive := List.length_pos_iff.mpr hsome
    rw [hrest, List.length_drop, List.length_drop]
    omega
  · rw [if_neg fun hstill => hmoved hstill.1]
    exact hreaches.length_lt hmoved hsome

theorem blockTurn_eq (statement : Parser (Option Stmt)) (opening : SourceRange)
    (stmts : List Stmt) (s : ParserState) :
    blockTurn statement opening stmts s =
      if s.current.isPunctuation .rBrace then (.done stmts, (advance s).2)
      else if breaksBlock s.current then
        (.done stmts, s.reportOnce (SyntaxReport.unclosedBlock s.current opening))
      else (.again (stmts ++ (orStepOver statement (·.isPunctuation .rBrace) s).1.toList),
        (orStepOver statement (·.isPunctuation .rBrace) s).2) := by
  unfold blockTurn acceptPunctuation
  rw [accept_bind]
  show (if s.current.isPunctuation .rBrace then _ else _ : Parser (Turn (List Stmt))) s = _
  by_cases hclosed : s.current.isPunctuation .rBrace
  · rw [if_pos hclosed, if_pos hclosed]
    rfl
  · rw [if_neg hclosed, if_neg hclosed]
    show (if breaksBlock s.current then _ else _ : Parser (Turn (List Stmt))) s = _
    by_cases hbreaks : breaksBlock s.current
    · rw [if_pos hbreaks, if_pos hbreaks]
      rfl
    · rw [if_neg hbreaks, if_neg hbreaks]
      rfl

theorem blockTurn_shrinks {statement : Parser (Option Stmt)} {opening : SourceRange}
    {stmts next : List Stmt} (hstatement : Agrees statement statement (Alike (Option.map Stmt.shape)))
    (hended : s.Ended) (hagain : (blockTurn statement opening stmts s).1 = .again next) :
    (blockTurn statement opening stmts s).2.rest.length < s.rest.length := by
  rw [blockTurn_eq] at hagain ⊢
  split at hagain
  · cases hagain
  · rename_i hopen
    split at hagain
    · cases hagain
    · rename_i hgoes
      rw [if_neg hopen, if_neg hgoes]
      have hcurrent : s.current.isEndOfFile = false := by
        rw [breaksBlock] at hgoes
        simp only [Bool.or_eq_true, not_or, Bool.not_eq_true] at hgoes
        exact hgoes.1
      exact orStepOver_shrinks hstatement hended hcurrent (by simpa using hopen)

theorem programTurn_eq (decls : List Decl) (s : ParserState) :
    programTurn decls s = if s.current.isEndOfFile then (.done decls, s)
      else (.again (decls ++ (orStepOver declaration (fun _ => false) s).1.toList),
        (orStepOver declaration (fun _ => false) s).2) := by
  show (if s.current.isEndOfFile then _ else _ : Parser (Turn (List Decl))) s = _
  split <;> rfl

theorem programTurn_shrinks {decls next : List Decl} (hended : s.Ended)
    (hagain : (programTurn decls s).1 = .again next) :
    (programTurn decls s).2.rest.length < s.rest.length := by
  rw [programTurn_eq] at hagain ⊢
  split at hagain
  · cases hagain
  · rename_i hcurrent
    rw [if_neg hcurrent]
    exact orStepOver_shrinks Agrees.declaration hended (by simpa using hcurrent) rfl

/-! ### Levels of nesting -/

/-- The parsers do the same where no more tokens than a number of them are at hand. -/
def SameBelow (bound : Nat) (p q : Parser α) : Prop :=
  ∀ s, s.Ended → s.rest.length ≤ bound → p s = q s

theorem SameBelow.refl (p : Parser α) : SameBelow bound p p := fun _ _ _ => rfl

theorem SameBelow.bind (hp : SameBelow bound p q) : SameBelow bound (p >>= f) (q >>= f) := by
  intro s hended hbound
  show f (p s).1 (p s).2 = f (q s).1 (q s).2
  rw [hp s hended hbound]

/-- Behind a parser that both begin with. -/
theorem SameBelow.next (hp : ∀ s : ParserState, s.Reaches (p s).2)
    (hf : ∀ a, SameBelow bound (f a) (g a)) : SameBelow bound (p >>= f) (p >>= g) :=
  fun s hended hbound => hf _ _ ((hp s).ended hended) (Nat.le_trans (hp s).length_le hbound)

theorem SameBelow.iterate {body body' : α → Parser (Turn α)} {v : α}
    (hreaches : ∀ v (s : ParserState), s.Reaches (body v s).2)
    (hbody : ∀ v, SameBelow bound (body v) (body' v)) :
    SameBelow bound (iterate body v) (iterate body' v) := by
  have halong : ∀ turns v, SameBelow bound (iterateAlong body turns v)
      (iterateAlong body' turns v) := by
    intro turns
    have hturn : ∀ {f g : Turn α → Parser α} v, (∀ turn, SameBelow bound (f turn) (g turn)) →
        SameBelow bound (body v >>= f) (body' v >>= g) := by
      intro f g v hf s hended hbound
      have hrun := SameBelow.next (hreaches v) hf s hended hbound
      rw [hrun]
      exact SameBelow.bind (hbody v) s hended hbound
    induction turns with
    | nil => exact fun v => hturn v fun _ => SameBelow.refl _
    | cons token turns ih =>
        intro v
        apply hturn v
        rintro (next | last)
        · exact ih next
        · exact SameBelow.refl _
  exact fun s hended hbound => halong s.rest v s hended hbound

section Statements

variable {block block' : Parser (List Stmt)} {stmt stmt' : Parser (Option Stmt)}

theorem SameBelow.node (hblock : SameBelow bound block block') :
    SameBelow bound (node block) (node block') := by
  refine SameBelow.next agrees_advance.reaches fun token => SameBelow.next (reaches_nameOf token)
    fun callee => SameBelow.next Agrees.arguments.reaches fun arguments =>
    SameBelow.next (Same.atPunctuation _).reaches fun opens => ?_
  split
  · exact SameBelow.bind hblock
  · exact SameBelow.refl _

theorem SameBelow.bareStatement (hblock : SameBelow bound block block')
    (preconditions : List Precondition) (docs : Docs) :
    SameBelow bound (bareStatement block preconditions docs)
      (bareStatement block' preconditions docs) := by
  refine SameBelow.next reaches_peek fun token => ?_
  split
  case h_3 =>
    split
    · exact SameBelow.refl _
    · refine SameBelow.next (p := fun s => (Skip.assignmentFollows 0 (s.rest.drop 1), s)) Reaches.refl fun isAssignment => ?_
      split
      · exact SameBelow.refl _
      · exact SameBelow.node hblock
  all_goals exact SameBelow.refl _

theorem SameBelow.statement (hblock : SameBelow bound block block') :
    SameBelow bound (statement block) (statement block') := by
  refine SameBelow.next Agrees.docComments.reaches fun docs =>
    SameBelow.next Agrees.preconditions.reaches fun preconditions =>
    SameBelow.next reaches_peek fun token => ?_
  exact SameBelow.bind (SameBelow.bareStatement hblock preconditions docs)

theorem SameBelow.blockTurn (hstmt : SameBelow bound stmt stmt')
    (opening : SourceRange) (stmts : List Stmt) :
    SameBelow bound (blockTurn stmt opening stmts) (blockTurn stmt' opening stmts) := by
  intro s hended hbound
  have hstep : ∀ exempt, orStepOver stmt exempt s = orStepOver stmt' exempt s := by
    intro exempt
    unfold orStepOver
    rw [hstmt s hended hbound]
  rw [blockTurn_eq, blockTurn_eq, hstep]

theorem blockTurn_reaches (hagrees : Agrees stmt stmt (Alike (Option.map Stmt.shape)))
    (opening : SourceRange) (stmts : List Stmt) (s : ParserState) :
    s.Reaches (blockTurn stmt opening stmts s).2 := by
  have hturn : Agrees (Parser.blockTurn stmt opening stmts) (Parser.blockTurn stmt opening stmts)
      (Turn.Agrees (Alike Stmt.shapes)) := Agrees.blockTurn hagrees rfl
  exact hturn.reaches s

/-- At the end of the file a block has no statements. -/
theorem blockOf_atEnd (stmt stmt' : Parser (Option Stmt)) (hcurrent : s.current.isEndOfFile = true) :
    blockOf stmt s = blockOf stmt' s := by
  have hkind : s.current.kind = .endOfFile := by simpa [Token.isEndOfFile] using hcurrent
  have hopen : ¬s.current.isPunctuation .rBrace = true := by simp [Token.isPunctuation, hkind]
  have hbreaks : breaksBlock s.current = true := by simp [breaksBlock, hcurrent]
  have hadvance : advance s = (s.current, s) := by
    unfold advance
    rw [hcurrent]
    rfl
  have hturn : ∀ stmt opening, blockTurn stmt opening [] s =
      (.done [], s.reportOnce (SyntaxReport.unclosedBlock s.current opening)) := by
    intro stmt opening
    rw [blockTurn_eq, if_neg hopen, if_pos hbreaks]
  have hblock : ∀ stmt, blockOf stmt s =
      ([], s.reportOnce (SyntaxReport.unclosedBlock s.current s.current.range)) := by
    intro stmt
    show iterate (blockTurn stmt (advance s).1.range) [] (advance s).2 = _
    rw [hadvance, iterate_done (congrArg Prod.fst (hturn stmt s.current.range)), hturn]
  rw [hblock, hblock]

theorem SameBelow.blockOf (hagrees : Agrees stmt stmt (Alike (Option.map Stmt.shape)))
    (hstmt : SameBelow bound stmt stmt') : SameBelow (bound + 1) (blockOf stmt) (blockOf stmt') := by
  intro s hended hbound
  cases hcurrent : s.current.isEndOfFile with
  | true => exact blockOf_atEnd _ _ hcurrent
  | false =>
      have hadvance : advance s = (s.current, s.skip 1) := by
        unfold advance
        rw [hcurrent]
        rfl
      have hlength : (s.skip 1).rest.length ≤ bound := by
        show (s.rest.drop 1).length ≤ bound
        rw [List.length_drop]
        omega
      show Parser.iterate (Parser.blockTurn stmt (advance s).1.range) [] (advance s).2 =
        Parser.iterate (Parser.blockTurn stmt' (advance s).1.range) [] (advance s).2
      rw [hadvance]
      exact SameBelow.iterate (blockTurn_reaches hagrees _) (SameBelow.blockTurn hstmt _) _
        hended hlength

/-- Levels of nesting for the tokens at hand are enough. -/
theorem SameBelow.blockAlong (levels levels' : List Token) (hlevels : bound ≤ levels.length)
    (hlevels' : bound ≤ levels'.length) :
    SameBelow bound (blockAlong levels) (blockAlong levels') := by
  induction bound generalizing levels levels' with
  | zero =>
      intro s hended hlength
      have hcurrent : s.current.isEndOfFile = true := by
        cases hcurrent : s.current.isEndOfFile with
        | true => rfl
        | false =>
            have hnone : s.rest = [] := List.length_eq_zero_iff.mp (Nat.le_zero.mp hlength)
            exact (hended.some_left hcurrent hnone).elim
      have hstmt : ∀ levels, ∃ stmt, Parser.blockAlong levels = Parser.blockOf stmt := by
        intro levels
        cases levels with
        | nil => exact ⟨_, rfl⟩
        | cons token levels => exact ⟨_, rfl⟩
      obtain ⟨stmt, hblock⟩ := hstmt levels
      obtain ⟨stmt', hblock'⟩ := hstmt levels'
      rw [hblock, hblock']
      exact blockOf_atEnd stmt stmt' hcurrent
  | succ bound ih =>
      cases levels with
      | nil => cases hlevels
      | cons token levels =>
          cases levels' with
          | nil => cases hlevels'
          | cons token' levels' =>
              exact SameBelow.blockOf (Agrees.statement (Agrees.blockAlong levels))
                (SameBelow.statement (ih levels levels' (Nat.le_of_succ_le_succ hlevels)
                  (Nat.le_of_succ_le_succ hlevels')))

end Statements

end Parser

end BehaviorTree

/-!
## Enough levels of nesting

Expressions and types are parsed with a level of nesting for each token at hand. That is enough: one
is nested in another only behind a token, so a level that is left over is never asked for, and the
parsers are what one would write without counting levels.
-/

namespace BehaviorTree

namespace Parser

open ParserState

variable {α β : Type} {p q : Parser α} {f g : α → Parser β} {bound bound' : Nat} {token : Token}

/-- The parsers do the same where fewer tokens than a number of them are at hand. -/
def SameUnder (bound : Nat) (p q : Parser α) : Prop :=
  ∀ s, s.Ended → s.rest.length < bound → p s = q s

/-- The same where a certain token is the current one. -/
def SameAt (token : Token) (bound : Nat) (p q : Parser α) : Prop :=
  ∀ s, s.Ended → s.current = token → s.rest.length < bound → p s = q s

theorem SameUnder.at (hp : SameUnder bound p q) (token : Token) : SameAt token bound p q :=
  fun s hended _ hlength => hp s hended hlength

theorem SameAt.mono (hp : SameAt token bound p q) (hbound : bound' ≤ bound) : SameAt token bound' p q :=
  fun s hended hcurrent hlength => hp s hended hcurrent (Nat.lt_of_lt_of_le hlength hbound)

theorem SameAt.first (hp : SameAt token bound p q) : SameAt token bound (p >>= f) (q >>= f) := by
  intro s hended hcurrent hlength
  show f (p s).1 (p s).2 = f (q s).1 (q s).2
  rw [hp s hended hcurrent hlength]

theorem SameUnder.refl (p : Parser α) : SameUnder bound p p := fun _ _ _ => rfl

theorem SameUnder.bind (hp : SameUnder bound p q) (hreaches : ∀ s : ParserState, s.Reaches (p s).2)
    (hf : ∀ a, SameUnder bound (f a) (g a)) : SameUnder bound (p >>= f) (q >>= g) := by
  intro s hended hlength
  have hbehind := Nat.lt_of_le_of_lt (hreaches s).length_le hlength
  show f (p s).1 (p s).2 = g (q s).1 (q s).2
  rw [← hp s hended hlength]
  exact hf _ _ ((hreaches s).ended hended) hbehind

/-- Behind a parser that both begin with. -/
theorem SameUnder.next (hreaches : ∀ s : ParserState, s.Reaches (p s).2)
    (hf : ∀ a, SameUnder bound (f a) (g a)) : SameUnder bound (p >>= f) (p >>= g) :=
  SameUnder.bind (SameUnder.refl p) hreaches hf

/-- In front of one that both end with. -/
theorem SameUnder.first (hp : SameUnder bound p q) : SameUnder bound (p >>= f) (q >>= f) := by
  intro s hended hlength
  show f (p s).1 (p s).2 = f (q s).1 (q s).2
  rw [hp s hended hlength]

theorem SameUnder.map {h : α → β} (hp : SameUnder bound p q) : SameUnder bound (h <$> p) (h <$> q) :=
  SameUnder.first (f := fun a => Pure.pure (h a)) hp

theorem SameUnder.peek {f g : Token → Parser β} (hf : ∀ token, SameAt token bound (f token) (g token)) :
    SameUnder bound (Parser.peek >>= f) (Parser.peek >>= g) :=
  fun s hended hlength => hf s.current s hended rfl hlength

/-- Behind a token that is consumed fewer tokens are at hand. -/
theorem SameAt.advance {f g : Token → Parser β} (hgoes : token.isEndOfFile = false)
    (hf : ∀ token, SameUnder bound (f token) (g token)) :
    SameAt token (bound + 1) (Parser.advance >>= f) (Parser.advance >>= g) := by
  intro s hended hcurrent hlength
  have hgoes : s.current.isEndOfFile = false := by rw [hcurrent, hgoes]
  have hpositive := List.length_pos_iff.mpr (hended.some_left hgoes)
  rw [advance_bind hgoes, advance_bind hgoes]
  refine hf s.current (s.skip 1) hended ?_
  show (s.rest.drop 1).length < bound
  rw [List.length_drop]
  omega

theorem SameUnder.accept {test : Token → Bool} {f g : Bool → Parser β}
    (htest : ∀ token, test token = true → token.isEndOfFile = false)
    (hyes : SameUnder bound (f true) (g true)) (hno : SameUnder (bound + 1) (f false) (g false)) :
    SameUnder (bound + 1) (Parser.accept test >>= f) (Parser.accept test >>= g) := by
  rw [accept_bind, accept_bind]
  refine SameUnder.peek fun token => ?_
  split
  · exact SameAt.advance (htest token ‹_›) fun _ => hyes
  · exact hno.at token

theorem SameUnder.acceptPunctuation {mark : Punctuation} {f g : Bool → Parser β}
    (hyes : SameUnder bound (f true) (g true)) (hno : SameUnder (bound + 1) (f false) (g false)) :
    SameUnder (bound + 1) (Parser.acceptPunctuation mark >>= f)
      (Parser.acceptPunctuation mark >>= g) :=
  SameUnder.accept (fun _ hpass => isEndOfFile_of_isPunctuation hpass) hyes hno

theorem SameUnder.iterate {body body' : α → Parser (Turn α)} {v : α}
    (hreaches : ∀ v (s : ParserState), s.Reaches (body v s).2)
    (hbody : ∀ v, SameUnder bound (body v) (body' v)) :
    SameUnder bound (iterate body v) (iterate body' v) := by
  cases bound with
  | zero => exact fun _ _ hlength => (Nat.not_lt_zero _ hlength).elim
  | succ bound =>
      have hbelow : ∀ v, SameBelow bound (body v) (body' v) :=
        fun v s hended hlength => hbody v s hended (Nat.lt_succ_of_le hlength)
      exact fun s hended hlength =>
        SameBelow.iterate hreaches hbelow s hended (Nat.le_of_lt_succ hlength)

/-! ### Terms -/

/-- What can be nested does the same where fewer tokens than the bound are at hand. -/
structure NestedSame (bound : Nat) (nested nested' : Nested) : Prop where
  expression : SameUnder bound nested.expression nested'.expression
  operand : SameUnder bound nested.operand nested'.operand
  type : SameUnder bound nested.type nested'.type

variable {nested nested' : Nested} (hsame : NestedSame bound nested nested')
  (hagrees : NestedAgrees nested)

section Terms

include hsame

theorem SameUnder.vecType : SameUnder bound (vecType nested) (vecType nested') := by
  refine SameUnder.next (Same.expectOperator _ _ _).reaches fun opened => ?_
  split
  · exact hsame.type.first
  · exact SameUnder.refl _

variable {text : String} {range : SourceRange} {line : Bool}

theorem SameAt.parenthesized :
    SameAt ⟨.punctuation .lParen, text, range, line⟩ (bound + 1) (parenthesized nested)
      (parenthesized nested') :=
  SameAt.advance rfl fun _ => hsame.expression.first

theorem SameUnder.nextElement (elements : List Expr) :
    SameUnder bound (nextElement nested elements) (nextElement nested' elements) := by
  refine SameUnder.next (Same.acceptPunctuation _).reaches fun comma => ?_
  split
  · refine SameUnder.next (Same.atPunctuation _).reaches fun closes => ?_
    split
    · exact SameUnder.refl _
    · exact hsame.expression.first
  · exact SameUnder.refl _

theorem SameUnder.suffix (base : Expr) :
    SameUnder (bound + 1) (suffix nested base) (suffix nested' base) := by
  refine SameUnder.acceptPunctuation hsame.expression.first (SameUnder.peek fun token => ?_)
  split
  · rename_i hword
    have hkind : token.kind = .keyword .asWord := by simpa [Token.isKeyword] using hword
    exact SameAt.advance (by simp [Token.isEndOfFile, hkind]) fun _ => hsame.type.first
  · exact (SameUnder.refl _).at token

include hagrees

theorem SameUnder.arrayType : SameUnder bound (arrayType nested) (arrayType nested') := by
  refine SameUnder.bind hsame.type hagrees.type.reaches fun element =>
    SameUnder.next (Same.expectPunctuation _ _ _).reaches fun parted => ?_
  split
  · exact SameUnder.next (Same.acceptOperator _).reaches fun bounded => hsame.expression.first
  · exact SameUnder.refl _

theorem SameUnder.plainType : SameUnder (bound + 1) (plainType nested) (plainType nested') := by
  refine SameUnder.peek ?_
  rintro ⟨kind, text, range, line⟩
  dsimp only
  split
  case h_4 => exact SameAt.advance rfl fun _ => (SameUnder.vecType hsame).map
  case h_5 => exact SameAt.advance rfl fun _ => (SameUnder.arrayType hsame hagrees).map
  all_goals exact (SameUnder.refl _).at _

theorem SameUnder.typeIn : SameUnder (bound + 1) (typeIn nested) (typeIn nested') :=
  SameUnder.peek fun token => ((SameUnder.plainType hsame hagrees).first).at token

theorem SameAt.arrayExpr :
    SameAt ⟨.punctuation .lBracket, text, range, line⟩ (bound + 1) (arrayExpr nested)
      (arrayExpr nested') := by
  refine SameAt.advance rfl fun opening =>
    SameUnder.next (Same.acceptPunctuation _).reaches fun closed => ?_
  split
  · exact SameUnder.refl _
  · refine SameUnder.bind hsame.expression hagrees.expression.reaches fun first =>
      SameUnder.next (Same.acceptPunctuation _).reaches fun repeats => ?_
    split
    · exact hsame.expression.first
    · have hreaches : ∀ elements (s : ParserState),
          s.Reaches (Parser.nextElement nested elements s).2 := fun elements =>
        (Agrees.nextElement hagrees (rfl : Alike Expr.shapes elements elements)).reaches
      exact (SameUnder.iterate hreaches (SameUnder.nextElement hsame)).first

theorem SameAt.vecExpr (hgoes : token.isEndOfFile = false) :
    SameAt token (bound + 1) (vecExpr nested) (vecExpr nested') := by
  refine SameAt.advance hgoes fun opening =>
    SameUnder.next (Same.acceptOperator _).reaches fun bang => ?_
  split
  · rw [atPunctuation_bind, atPunctuation_bind]
    refine SameUnder.peek ?_
    rintro ⟨kind, text, range, line⟩
    split
    · rename_i hopens
      obtain rfl : kind = .punctuation .lBracket := by simpa [Token.isPunctuation] using hopens
      exact ((SameAt.arrayExpr hsame hagrees).mono (Nat.le_succ bound)).first
    · exact (SameUnder.refl _).at _
  · exact SameUnder.refl _

theorem SameUnder.primary : SameUnder (bound + 1) (primary nested) (primary nested') := by
  refine SameUnder.peek ?_
  rintro ⟨kind, text, range, line⟩
  dsimp only
  split
  case h_8 => exact SameAt.parenthesized hsame
  case h_9 => exact SameAt.arrayExpr hsame hagrees
  case h_10 => exact SameAt.vecExpr hsame hagrees rfl
  all_goals exact (SameUnder.refl _).at _

theorem SameUnder.suffixed : SameUnder (bound + 1) (suffixed nested) (suffixed nested') := by
  have hreaches : ∀ base (s : ParserState), s.Reaches (Parser.suffix nested base s).2 := fun base =>
    (Agrees.suffix hagrees (rfl : Alike Expr.shape base base)).reaches
  exact SameUnder.bind (SameUnder.primary hsame hagrees) (Agrees.primary hagrees).reaches
    fun base => SameUnder.iterate hreaches (SameUnder.suffix hsame)

theorem SameUnder.unary : SameUnder (bound + 1) (unary nested) (unary nested') := by
  refine SameUnder.peek fun token => ?_
  split
  · rename_i op hop
    have hgoes : token.isEndOfFile = false := by
      cases hend : token.isEndOfFile with
      | false => rfl
      | true =>
          have hkind : token.kind = .endOfFile := by simpa [Token.isEndOfFile] using hend
          simp [Token.operator?, TokenKind.operator?, hkind] at hop
    exact SameAt.advance hgoes fun _ => hsame.operand.first
  · exact (SameUnder.suffixed hsame hagrees).at token

theorem SameUnder.layered (layers : List Nat) :
    SameUnder (bound + 1) (layered nested layers) (layered nested' layers) := by
  induction layers with
  | nil => exact (SameUnder.unary hsame hagrees).first
  | cons layer tighter ih =>
      have htighter := Agrees.layered hagrees tighter
      have hreaches : ∀ chain (s : ParserState),
          s.Reaches (extendChain layer (Parser.layered nested tighter) chain s).2 := fun chain =>
        (Agrees.extendChain htighter (rfl : Alike Chain.shape chain chain)).reaches
      refine SameUnder.bind ih htighter.reaches fun start => SameUnder.iterate hreaches fun chain => ?_
      refine SameUnder.peek fun token => ?_
      split
      · exact (SameUnder.next agrees_advance.reaches fun first => ih.first).at token
      · exact (SameUnder.refl _).at token

theorem SameUnder.expressionIn :
    SameUnder (bound + 1) (expressionIn nested) (expressionIn nested') :=
  (SameUnder.layered hsame hagrees _).first

end Terms

/-! ### The knot -/

theorem NestedSame.around {inner inner' : Unit → Nested}
    (hsame : NestedSame bound (inner ()) (inner' ())) (hagrees : NestedAgrees (inner ())) :
    NestedSame (bound + 1) (around inner) (around inner') where
  expression := SameUnder.expressionIn hsame hagrees
  operand := SameUnder.unary hsame hagrees
  type := SameUnder.typeIn hsame hagrees

/-- Where no token can be consumed nothing is nested. -/
theorem NestedSame.zero (nested nested' : Nested) : NestedSame 0 nested nested' where
  expression _ _ hlength := (Nat.not_lt_zero _ hlength).elim
  operand _ _ hlength := (Nat.not_lt_zero _ hlength).elim
  type _ _ hlength := (Nat.not_lt_zero _ hlength).elim

/-- Levels for the tokens at hand are enough. -/
theorem NestedSame.along (levels levels' : List Token) (hlevels : bound ≤ levels.length)
    (hlevels' : bound ≤ levels'.length) :
    NestedSame (bound + 1) (nestedAlong levels) (nestedAlong levels') := by
  induction bound generalizing levels levels' with
  | zero =>
      cases levels with
      | nil =>
          cases levels' with
          | nil => exact NestedSame.around (NestedSame.zero _ _) NestedAgrees.nothing
          | cons token' levels' => exact NestedSame.around (NestedSame.zero _ _) NestedAgrees.nothing
      | cons token levels =>
          cases levels' with
          | nil => exact NestedSame.around (NestedSame.zero _ _) (NestedAgrees.along levels)
          | cons token' levels' =>
              exact NestedSame.around (NestedSame.zero _ _) (NestedAgrees.along levels)
  | succ bound ih =>
      cases levels with
      | nil => cases hlevels
      | cons token levels =>
          cases levels' with
          | nil => cases hlevels'
          | cons token' levels' =>
              exact NestedSame.around (ih levels levels' (Nat.le_of_succ_le_succ hlevels)
                (Nat.le_of_succ_le_succ hlevels')) (NestedAgrees.along levels)

/-- With enough levels of nesting an expression is parsed like one at any depth. -/
theorem expression_along {levels : List Token} {s : ParserState} (hended : s.Ended)
    (hlevels : s.rest.length ≤ levels.length) : expression s = (nestedAlong levels).expression s :=
  (NestedSame.along s.rest levels (Nat.le_refl _) hlevels).expression s hended (Nat.lt_succ_self _)

theorem typeExpr_along {levels : List Token} {s : ParserState} (hended : s.Ended)
    (hlevels : s.rest.length ≤ levels.length) : typeExpr s = (nestedAlong levels).type s :=
  (NestedSame.along s.rest levels (Nat.le_refl _) hlevels).type s hended (Nat.lt_succ_self _)

theorem block_along {levels : List Token} {s : ParserState} (hended : s.Ended)
    (hlevels : s.rest.length ≤ levels.length) : block s = blockAlong levels s :=
  SameBelow.blockAlong s.rest levels (Nat.le_refl _) hlevels s hended (Nat.le_refl _)

/-! ### Parsers without levels -/

/-- What a unary operator in the tokens at hand applies to. -/
def operandExpr : Parser Expr := do (← nestedHere).operand

/-- What is nested in a term are terms. -/
def terms : Nested := ⟨expression, operandExpr, typeExpr⟩

theorem operandExpr_along {levels : List Token} {s : ParserState} (hended : s.Ended)
    (hlevels : s.rest.length ≤ levels.length) : operandExpr s = (nestedAlong levels).operand s :=
  (NestedSame.along s.rest levels (Nat.le_refl _) hlevels).operand s hended (Nat.lt_succ_self _)

theorem NestedSame.terms (levels : List Token) :
    NestedSame (levels.length + 1) (nestedAlong levels) terms where
  expression _ hended hlength := (expression_along hended (Nat.le_of_lt_succ hlength)).symm
  operand _ hended hlength := (operandExpr_along hended (Nat.le_of_lt_succ hlength)).symm
  type _ hended hlength := (typeExpr_along hended (Nat.le_of_lt_succ hlength)).symm

/-- What is nested in the terms at hand. -/
theorem nestedAlong_around (levels : List Token) : ∃ inner : Unit → Nested,
    nestedAlong levels = around inner ∧ NestedSame levels.length (inner ()) terms ∧
      NestedAgrees (inner ()) := by
  cases levels with
  | nil => exact ⟨fun _ => .nothing, rfl, NestedSame.zero _ _, NestedAgrees.nothing⟩
  | cons token levels =>
      exact ⟨fun _ => nestedAlong levels, rfl, NestedSame.terms levels, NestedAgrees.along levels⟩

section Equations

variable {s : ParserState} (hended : s.Ended)
include hended

/-- **Expressions contain expressions and types.** No level of nesting is counted. -/
theorem expression_eq : expression s = expressionIn terms s := by
  obtain ⟨inner, haround, hsame, hagrees⟩ := nestedAlong_around s.rest
  show (nestedAlong s.rest).expression s = _
  rw [haround]
  exact SameUnder.expressionIn hsame hagrees s hended (Nat.lt_succ_self _)

theorem operandExpr_eq : operandExpr s = unary terms s := by
  obtain ⟨inner, haround, hsame, hagrees⟩ := nestedAlong_around s.rest
  show (nestedAlong s.rest).operand s = _
  rw [haround]
  exact SameUnder.unary hsame hagrees s hended (Nat.lt_succ_self _)

/-- **Types contain types and expressions.** -/
theorem typeExpr_eq : typeExpr s = typeIn terms s := by
  obtain ⟨inner, haround, hsame, hagrees⟩ := nestedAlong_around s.rest
  show (nestedAlong s.rest).type s = _
  rw [haround]
  exact SameUnder.typeIn hsame hagrees s hended (Nat.lt_succ_self _)

/-- **Blocks contain statements, which contain blocks.** -/
theorem block_eq : block s = blockOf (statement block) s := by
  show blockAlong s.rest s = _
  cases hrest : s.rest with
  | nil =>
      have hcurrent : s.current.isEndOfFile = true := by
        have hfinal : s.current = s.final := by simp [current, tokenAt, hrest]
        rw [hfinal]
        exact hended
      exact blockOf_atEnd _ _ hcurrent
  | cons token levels =>
      have hblock : SameBelow levels.length (blockAlong levels) block :=
        fun s hended hlength => (block_along hended hlength).symm
      exact SameBelow.blockOf (Agrees.statement (Agrees.blockAlong levels))
        (SameBelow.statement hblock) s hended (Nat.le_of_eq (by rw [hrest, List.length_cons]))

end Equations

end Parser

end BehaviorTree
