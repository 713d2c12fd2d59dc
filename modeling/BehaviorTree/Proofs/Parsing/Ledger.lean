import BehaviorTree.Parsing.Recovery
import BehaviorTree.Proofs.Syntax.Shape

/-!
# Accounting for what a parser makes

A parser gives every node that it makes a number of its own and takes every name from a token that
it consumes. To show it, one stamp is fixed and counted: as often as it has been given out between
two states of a run, so often may it occur in what the run returns. Whether the run is silent or
full of reports plays no role.
-/

namespace BehaviorTree

/-- The text of a token as a name. -/
def Token.asName (token : Token) : Name := ⟨token.text, token.range⟩

/-- The codes of the grammar. -/
def SyntaxReport.codes : List String :=
  [Code.expectedToken, Code.unsupportedWord, Code.nonAssociativeChain, Code.unknownPrecondition,
    Code.unknownAttribute, Code.invalidNodeShape, Code.danglingDocComment]

def Diagnostic.HasCodeIn (codes : List String) (diagnostic : Diagnostic) : Prop :=
  ∃ code ∈ codes, diagnostic.code = some code

/-- The run that is accounted for, by its file and its tokens, and the stamp that is counted. -/
structure Ledger where
  file : FileId
  tokens : List Token
  stamp : Stamp

namespace Ledger

variable {ledger : Ledger} {state : ParserState}

/-- How often the stamp occurs. -/
def count (ledger : Ledger) (stamps : List Stamp) : Nat := stamps.count ledger.stamp

/-- Whether a stamp is the one that is counted, as a number. -/
def one (ledger : Ledger) (stamp : Stamp) : Nat := if stamp = ledger.stamp then 1 else 0

@[simp]
theorem count_nil : ledger.count [] = 0 := rfl

@[simp]
theorem count_append (left right : List Stamp) :
    ledger.count (left ++ right) = ledger.count left + ledger.count right :=
  List.count_append

@[simp]
theorem count_cons (stamp : Stamp) (rest : List Stamp) :
    ledger.count (stamp :: rest) = ledger.one stamp + ledger.count rest := by
  unfold count one
  rw [List.count_cons, Nat.add_comm]
  simp

/-- How often the stamp has been given out. -/
def issued (ledger : Ledger) (state : ParserState) : Nat :=
  match ledger.stamp with
  | .node kind id => if id < state.arena.size kind then 1 else 0
  | .name name => ((ledger.tokens.take state.position).map Token.asName).count name

theorem issued_congr {state' : ParserState} (hposition : state'.position = state.position)
    (hsize : ∀ kind, state'.arena.size kind = state.arena.size kind) :
    ledger.issued state' = ledger.issued state := by
  unfold issued
  simp only [hposition, hsize]

/-- A state of the run that is accounted for. -/
structure Holds (ledger : Ledger) (state : ParserState) : Prop where
  file : state.file = ledger.file
  rest : state.rest = ledger.tokens.drop state.position
  final : state.final.isEndOfFile = true
  reports : ∀ diagnostic ∈ state.diagnostics, diagnostic.HasCodeIn SyntaxReport.codes

theorem issued_skip_le (count : Nat) : ledger.issued state ≤ ledger.issued (state.skip count) := by
  unfold issued
  split
  · exact Nat.le_refl _
  · apply List.Sublist.count_le
    apply List.Sublist.map
    exact List.take_sublist_take_left (Nat.le_add_right _ _)

/-- The current token stands among the tokens of the run. -/
theorem Holds.getElem?_position (hholds : ledger.Holds state)
    (hcurrent : state.current.isEndOfFile = false) :
    ledger.tokens[state.position]? = some state.current := by
  have hhead : state.rest[0]? = some state.current := by
    unfold ParserState.current ParserState.tokenAt at hcurrent ⊢
    cases hrest : state.rest[0]? with
    | none =>
        rw [hrest, Option.getD_none, hholds.final] at hcurrent
        cases hcurrent
    | some token => rfl
  rw [hholds.rest, List.getElem?_drop] at hhead
  exact hhead

/-- Consuming a token gives out its name. -/
theorem issued_skip_one (hholds : ledger.Holds state)
    (hcurrent : state.current.isEndOfFile = false) :
    ledger.issued (state.skip 1) =
      ledger.issued state + ledger.one (.name state.current.asName) := by
  have htoken := hholds.getElem?_position hcurrent
  unfold issued one
  cases hstamp : ledger.stamp with
  | node kind id => simp [ParserState.skip]
  | name name =>
      have htake : ledger.tokens.take (state.position + 1) =
          ledger.tokens.take state.position ++ [state.current] := by
        rw [List.take_add_one, htoken]
        rfl
      simp only [ParserState.skip, htake, List.map_append, List.count_append]
      congr 1
      simp [List.count_cons]

theorem Holds.skip (hholds : ledger.Holds state) (count : Nat) : ledger.Holds (state.skip count) where
  file := hholds.file
  rest := by
    unfold ParserState.skip
    rw [hholds.rest, List.drop_drop]
  final := hholds.final
  reports := hholds.reports

theorem Holds.report (hholds : ledger.Holds state) {diagnostic : Diagnostic}
    (hcode : diagnostic.HasCodeIn SyntaxReport.codes) : ledger.Holds (state.report diagnostic) where
  file := hholds.file
  rest := hholds.rest
  final := hholds.final
  reports := by
    intro other hother
    rcases List.mem_append.mp hother with hbefore | hnew
    · exact hholds.reports other hbefore
    · rw [List.mem_singleton.mp hnew]
      exact hcode

/-- A report that the gate lets through or not. -/
theorem Holds.reportOnce (hholds : ledger.Holds state) {diagnostic : Diagnostic}
    (hcode : diagnostic.HasCodeIn SyntaxReport.codes) :
    ledger.Holds (state.reportOnce diagnostic) := by
  unfold ParserState.reportOnce
  split
  · exact hholds
  · have hreported := hholds.report hcode
    exact ⟨hreported.file, hreported.rest, hreported.final, hreported.reports⟩

theorem issued_reportOnce (diagnostic : Diagnostic) :
    ledger.issued (state.reportOnce diagnostic) = ledger.issued state := by
  unfold ParserState.reportOnce
  split <;> rfl

end Ledger

namespace Parser

variable {α β : Type} {ledger : Ledger} {gained : Nat} {s : ParserState} {p : Parser α}
  {f : α → Parser β} {post post' : α → Nat → Prop} {goal : β → Nat → Prop}

/-- From `s` on the parser returns something that is accounted for: with `n` the number of stamps
that are left of those gained before and those given out on the way, the result satisfies `post`. -/
def Accounts (ledger : Ledger) (gained : Nat) (p : Parser α) (s : ParserState)
    (post : α → Nat → Prop) : Prop :=
  ledger.Holds s → ledger.Holds (p s).2 ∧
    ∃ n, n + ledger.issued s ≤ gained + ledger.issued (p s).2 ∧ post (p s).1 n

/-- Whatever the parser returns, no stamp is in it. -/
def Clean (ledger : Ledger) (p : Parser α) : Prop :=
  ∀ s, Accounts ledger 0 p s fun _ _ => True

theorem Accounts.mono (hp : Accounts ledger gained p s post) (hpost : ∀ a n, post a n → post' a n) :
    Accounts ledger gained p s post' := by
  intro hholds
  obtain ⟨hholds', n, hn, ha⟩ := hp hholds
  exact ⟨hholds', n, hn, hpost _ _ ha⟩

theorem Accounts.weaken {more : Nat} (hp : Accounts ledger gained p s post)
    (hmore : gained ≤ more) : Accounts ledger more p s post := by
  intro hholds
  obtain ⟨hholds', n, hn, ha⟩ := hp hholds
  exact ⟨hholds', n, by omega, ha⟩

theorem Accounts.clean (hp : Accounts ledger 0 p s post) :
    Accounts ledger 0 p s fun _ _ => True :=
  hp.mono fun _ _ _ => trivial

theorem Accounts.pure {a : α} (ha : post a gained) : Accounts ledger gained (pure a) s post :=
  fun hholds => ⟨hholds, gained, Nat.le_refl _, ha⟩

theorem Clean.pure (a : α) : Clean ledger (Pure.pure a : Parser α) := fun _ => Accounts.pure trivial

/-- One parser behind another, which may use up what was gained before. -/
theorem Accounts.thread (hp : Accounts ledger gained p s post)
    (hf : ∀ a n s', post a n → Accounts ledger n (f a) s' goal) :
    Accounts ledger gained (p >>= f) s goal := by
  intro hholds
  obtain ⟨hholds₁, n, hn, ha⟩ := hp hholds
  obtain ⟨hholds₂, m, hm, hb⟩ := hf (p s).1 n (p s).2 ha hholds₁
  have hsum : m + ledger.issued s ≤ gained + ledger.issued ((p >>= f) s).2 := by
    have hrun : (p >>= f) s = f (p s).1 (p s).2 := rfl
    rw [hrun]
    omega
  exact ⟨hholds₂, m, hsum, hb⟩

/-- One parser behind another. What each has given out adds up. -/
theorem Accounts.bind (hp : Accounts ledger 0 p s post)
    (hf : ∀ a n s', post a n → Accounts ledger (gained + n) (f a) s' goal) :
    Accounts ledger gained (p >>= f) s goal := by
  have hpaid : Accounts ledger gained p s fun a m => ∃ n, post a n ∧ m = gained + n := by
    intro hholds
    obtain ⟨hholds₁, n, hn, ha⟩ := hp hholds
    exact ⟨hholds₁, gained + n, by omega, n, ha, rfl⟩
  apply Accounts.thread hpaid
  rintro a m s' ⟨n, ha, rfl⟩
  exact hf a n s' ha

/-- Something clean in front leaves the account as it is. -/
theorem Accounts.after (hp : Clean ledger p)
    (hf : ∀ a s', Accounts ledger gained (f a) s' goal) :
    Accounts ledger gained (p >>= f) s goal := by
  apply Accounts.bind (hp s)
  intro a n s' _
  exact (hf a s').weaken (Nat.le_add_right _ _)

theorem Accounts.map {g : α → β} (hp : Accounts ledger gained p s post)
    (hg : ∀ a n, post a n → goal (g a) n) : Accounts ledger gained (g <$> p) s goal :=
  hp.mono hg

theorem Accounts.peek {f : Token → Parser β} (hf : Accounts ledger gained (f s.current) s goal) :
    Accounts ledger gained (Parser.peek >>= f) s goal := hf

theorem Clean.bind (hp : Clean ledger p) (hf : ∀ a, Clean ledger (f a)) :
    Clean ledger (p >>= f) := by
  intro s
  exact Accounts.after hp fun a s' => hf a s'

/-! ### Steps -/

/-- What is read off the state and does not change it is clean. -/
theorem Clean.read (value : ParserState → α) : Clean ledger (fun state => (value state, state)) :=
  fun s hholds => ⟨hholds, 0, Nat.le_refl (0 + ledger.issued s), trivial⟩

theorem Clean.peek : Clean ledger peek := Clean.read _

theorem Clean.peekSecond : Clean ledger peekSecond := Clean.read _

theorem Clean.rangeSince (start : SourceRange) : Clean ledger (rangeSince start) := Clean.read _

theorem Clean.emptyHere : Clean ledger emptyHere := Clean.read _

theorem Clean.atPunctuation (mark : Punctuation) : Clean ledger (atPunctuation mark) := Clean.read _

theorem Clean.atEnd : Clean ledger atEnd := Clean.read _

theorem Clean.listBreaksOff (inBody : Bool) : Clean ledger (listBreaksOff inBody) := Clean.read _

/-- A step that gives nothing out. -/
theorem Accounts.still (hholds : ledger.Holds s → ledger.Holds (p s).2)
    (hissued : ledger.issued (p s).2 = ledger.issued s) (hpost : post (p s).1 gained) :
    Accounts ledger gained p s post :=
  fun h => ⟨hholds h, gained, by omega, hpost⟩

theorem issued_intern (text : String) :
    ledger.issued (intern text s).2 = ledger.issued s := by
  apply Ledger.issued_congr
  · rfl
  · intro kind
    show (s.arena.intern text).size kind = _
    unfold Arena.intern
    split
    · rfl
    · cases kind <;> rfl

theorem Clean.intern (text : String) : Clean ledger (intern text) :=
  fun _ => Accounts.still (fun h => ⟨h.file, h.rest, h.final, h.reports⟩) (issued_intern text) trivial

/-- The name of a token is not paid for yet: the token has to be consumed as well. -/
theorem Accounts.nameOf {token : Token} {f : Name → Parser β}
    (hf : ∀ s', s'.current = s.current → Accounts ledger gained (f token.asName) s' goal) :
    Accounts ledger gained (Parser.nameOf token >>= f) s goal := by
  have hintern : Accounts ledger gained (Parser.intern token.text) s fun _ n => n = gained :=
    Accounts.still (fun h => ⟨h.file, h.rest, h.final, h.reports⟩) (issued_intern token.text) rfl
  intro hholds
  obtain ⟨hholds', n, hn, rfl⟩ := hintern hholds
  obtain ⟨hholds'', m, hm, hgoal⟩ := hf (Parser.intern token.text s).2 rfl hholds'
  exact ⟨hholds'', m, Nat.le_trans (by omega) hm, hgoal⟩

theorem Accounts.widenExpr {expr : Expr} {range : SourceRange} {post : Expr → Nat → Prop}
    (hpost : post (expr.withRange range) gained) :
    Accounts ledger gained (widenExpr expr range) s post := by
  apply Accounts.still (fun h => ⟨h.file, h.rest, h.final, h.reports⟩) _ hpost
  apply Ledger.issued_congr
  · rfl
  · intro kind
    cases kind
    case expr => exact Array.size_setIfInBounds
    all_goals rfl

/-! ### Making nodes -/

/-- A step that allocates a node gives out its number. -/
theorem Accounts.allocate (kind : NodeKind) {arena : Arena}
    (hstate : (p s).2 = { s with arena }) (hsize : arena.size kind = s.arena.size kind + 1)
    (hothers : ∀ other, other ≠ kind → arena.size other = s.arena.size other)
    (hpost : post (p s).1 (gained + ledger.one (.node kind (s.arena.size kind)))) :
    Accounts ledger gained p s post := by
  intro hholds
  have hissued : ledger.issued (p s).2 =
      ledger.issued s + ledger.one (.node kind (s.arena.size kind)) := by
    rw [hstate]
    unfold Ledger.issued Ledger.one
    cases hstamp : ledger.stamp with
    | name name => simp
    | node other id =>
        by_cases hkind : other = kind
        · subst hkind
          simp only [hsize, Stamp.node.injEq, true_and]
          split <;> split <;> split <;> omega
        · simp [hothers other hkind, Ne.symm hkind]
  refine ⟨?_, _, ?_, hpost⟩
  · rw [hstate]
    exact ⟨hholds.file, hholds.rest, hholds.final, hholds.reports⟩
  · omega

theorem Accounts.newExpr {range : SourceRange} {build : Origin → Expr} {post : Expr → Nat → Prop}
    (hpost : ∀ origin, post (build origin) (gained + ledger.one (.node .expr origin.id))) :
    Accounts ledger gained (newExpr range build) s post := by
  apply Accounts.allocate .expr rfl
  · exact Array.size_push _
  · intro other hother
    cases other <;> first | rfl | exact absurd rfl hother
  · exact hpost ⟨_, range⟩

theorem Accounts.newType {range : SourceRange} {build : Origin → TypeExpr}
    {post : TypeExpr → Nat → Prop}
    (hpost : ∀ origin, post (build origin) (gained + ledger.one (.node .type origin.id))) :
    Accounts ledger gained (newType range build) s post := by
  apply Accounts.allocate .type rfl
  · exact Array.size_push _
  · intro other hother
    cases other <;> first | rfl | exact absurd rfl hother
  · exact hpost ⟨_, range⟩

theorem Accounts.newStmt {range : SourceRange} {build : Origin → Stmt} {post : Stmt → Nat → Prop}
    (hpost : ∀ origin, post (build origin) (gained + ledger.one (.node .stmt origin.id))) :
    Accounts ledger gained (newStmt range build) s post := by
  apply Accounts.allocate .stmt rfl
  · exact Array.size_push _
  · intro other hother
    cases other <;> first | rfl | exact absurd rfl hother
  · exact hpost ⟨_, range⟩

theorem Accounts.newDecl {range : SourceRange} {build : Origin → Decl} {post : Decl → Nat → Prop}
    (hpost : ∀ origin, post (build origin) (gained + ledger.one (.node .decl origin.id))) :
    Accounts ledger gained (newDecl range build) s post := by
  apply Accounts.allocate .decl rfl
  · exact Array.size_push _
  · intro other hother
    cases other <;> first | rfl | exact absurd rfl hother
  · exact hpost ⟨_, range⟩

/-! ### Reports -/

theorem Clean.report {diagnostic : Diagnostic} (hcode : diagnostic.HasCodeIn SyntaxReport.codes) :
    Clean ledger (report diagnostic) := by
  intro s
  apply Accounts.still
  · intro hholds
    exact hholds.report hcode
  · rfl
  · trivial

theorem Clean.reportOnce {diagnostic : Diagnostic}
    (hcode : diagnostic.HasCodeIn SyntaxReport.codes) : Clean ledger (reportOnce diagnostic) := by
  intro s
  apply Accounts.still
  · intro hholds
    exact hholds.reportOnce hcode
  · exact Ledger.issued_reportOnce diagnostic
  · trivial

/-! ### Consuming tokens -/

theorem Clean.skip (count : List Token → Nat) : Clean ledger (skip count) := by
  intro s hholds
  refine ⟨hholds.skip _, 0, ?_, trivial⟩
  rw [Nat.zero_add, Nat.zero_add]
  exact Ledger.issued_skip_le _

theorem Clean.advance : Clean ledger advance := by
  intro s
  cases hcurrent : s.current.isEndOfFile with
  | true =>
      have hrun : Parser.advance s = (s.current, s) := by
        unfold Parser.advance
        rw [hcurrent]
        rfl
      apply Accounts.still
      · rw [hrun]
        exact id
      · rw [hrun]
      · trivial
  | false =>
      have hrun : Parser.advance s = (s.current, s.skip 1) := by
        unfold Parser.advance
        rw [hcurrent]
        rfl
      intro hholds
      rw [hrun]
      refine ⟨hholds.skip 1, 0, ?_, trivial⟩
      rw [Nat.zero_add, Nat.zero_add]
      exact Ledger.issued_skip_le 1

/-- A token that does not end the file pays for its name. -/
theorem Accounts.advance {f : Token → Parser β} (hcurrent : s.current.isEndOfFile = false)
    (hf : ∀ s', Accounts ledger (gained + ledger.one (.name s.current.asName))
      (f s.current) s' goal) :
    Accounts ledger gained (Parser.advance >>= f) s goal := by
  intro hholds
  have hrun : (Parser.advance >>= f) s = f s.current (s.skip 1) := by
    show f s.current (if s.current.isEndOfFile then s else s.skip 1) = _
    rw [hcurrent]
    rfl
  have hissued := Ledger.issued_skip_one hholds hcurrent
  obtain ⟨hholds', n, hn, hgoal⟩ := hf (s.skip 1) (hholds.skip 1)
  rw [hrun]
  exact ⟨hholds', n, by omega, hgoal⟩

theorem Clean.accept (test : Token → Bool) : Clean ledger (accept test) := by
  apply Clean.bind Clean.peek
  intro token
  split
  · exact Clean.bind Clean.advance fun _ => Clean.pure _
  · exact Clean.pure _

theorem Clean.acceptPunctuation (mark : Punctuation) : Clean ledger (acceptPunctuation mark) :=
  Clean.accept _

theorem Clean.acceptOperator (op : Operator) : Clean ledger (acceptOperator op) := Clean.accept _

/-! ### Loops -/

/-- The value that a loop goes on with or ends with. -/
def Turn.Accounted (post : α → Nat → Prop) : Turn α → Nat → Prop
  | .again value | .done value => post value

theorem Accounts.iterate {body : α → Parser (Turn α)} {v : α} (hv : post v gained)
    (hbody : ∀ v n s', post v n → Accounts ledger n (body v) s' (Turn.Accounted post)) :
    Accounts ledger gained (iterate body v) s post := by
  have halong : ∀ (turns : List Token) (v : α) (n : Nat) (s' : ParserState), post v n →
      Accounts ledger n (iterateAlong body turns v) s' post := by
    intro turns
    induction turns with
    | nil =>
        intro v n s' hv
        apply Accounts.thread (hbody v n s' hv)
        intro turn m s'' hturn
        cases turn with
        | again last => exact Accounts.pure hturn
        | done last => exact Accounts.pure hturn
    | cons token turns ih =>
        intro v n s' hv
        apply Accounts.thread (hbody v n s' hv)
        intro turn m s'' hturn
        cases turn with
        | again next => exact ih next m s'' hturn
        | done last => exact Accounts.pure hturn
  exact halong s.rest v gained s hv

theorem Clean.iterate {body : α → Parser (Turn α)} (hbody : ∀ v, Clean ledger (body v)) (v : α) :
    Clean ledger (iterate body v) := by
  intro s
  apply Accounts.iterate trivial
  intro v n s' _
  apply ((hbody v s').weaken (Nat.zero_le n)).mono
  intro turn m _
  cases turn <;> trivial

end Parser

end BehaviorTree
