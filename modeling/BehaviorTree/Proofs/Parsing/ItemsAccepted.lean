import BehaviorTree.Proofs.Parsing.TermsAccepted

/-!
# Accepted items

What statements and declarations share: items one behind the other, lists in parentheses,
documentation, directions and the parts of `var` and `const`. An open list is never taken to break
off, since no token starts a line.
-/

namespace BehaviorTree

open ParserState

namespace Parser

variable {α β : Type} {ts us vs : List Terminal}

/-! ### Collecting items -/

section Collecting

variable {form : β → List Terminal → Prop} {shape : α → β} {body : List α → Parser (Turn (List α))}

/-- A turn has found one more item. -/
def Finds (shape : α → β) (found : List α) (item : β) (longer : List α) : Prop :=
  ∃ x, longer = found ++ [x] ∧ shape x = item

theorem Finds.map {found longer : List α} {item : β} {items : List β}
    (h : Finds shape found item longer) (hfound : found.map shape = items) :
    longer.map shape = items ++ [item] := by
  obtain ⟨x, rfl, rfl⟩ := h
  rw [List.map_append, hfound]
  rfl

theorem Leads.nothing_found :
    Leads body (Parser.iterate body []) [] us fun found => found.map shape = [] :=
  Leads.iterate (by rw [List.map_nil])

/-- The turns of a loop for items one behind the other. What follows an item may have to be told
apart from the item itself. -/
theorem Leads.sequence {bound : Nat} (follow : List Terminal → Prop)
    (hne : ∀ item is, form item is → is ≠ [])
    (hstart : ∀ item is us, form item is → follow (is ++ us))
    (hturn : ∀ item is us found, form item is → follow us → (is ++ us).length ≤ bound →
      Accepts (body found) is us fun result =>
        ∃ longer, result = .again longer ∧ Finds shape found item longer)
    {items : List β} (h : Sequence form items ts) (hfollow : follow us)
    (hbound : (ts ++ us).length ≤ bound) {p : Parser (List α)} {before : List β}
    (hlead : Leads body p vs (ts ++ us) fun found => found.map shape = before) :
    Leads body p (vs ++ ts) us fun found => found.map shape = before ++ items := by
  induction h generalizing vs before with
  | nil => simpa using hlead
  | @cons item rest is rs hitem hrest ih =>
      have hfront : follow (rs ++ us) := by
        cases hrest with
        | nil => exact hfollow
        | cons hnext _ =>
            rw [List.append_assoc]
            exact hstart _ _ _ hnext
      rw [List.append_assoc] at hlead hbound
      have hfirst : Leads body p (vs ++ is) (rs ++ us) fun found =>
          found.map shape = before ++ [item] := by
        refine Leads.turn hlead (hne item is hitem) fun found hfound => ?_
        refine (hturn item is (rs ++ us) found hitem hfront hbound).mono ?_
        rintro _ ⟨longer, rfl, hlonger⟩
        exact ⟨longer, rfl, hlonger.map hfound⟩
      rw [List.length_append] at hbound
      have hall := ih (by omega) hfirst
      simpa using hall

end Collecting

/-! ### Parts of items -/

theorem Leads.docs (docs : List String) {p : Parser Docs} {before : List String}
    (hlead : Leads docTurn p vs (docTerminals docs ++ us) (·.lines = before)) :
    Leads docTurn p (vs ++ docTerminals docs) us (·.lines = before ++ docs) := by
  induction docs generalizing vs before with
  | nil => simpa [docTerminals] using hlead
  | cons line docs ih =>
      have hfirst : Leads docTurn p (vs ++ [.of (.docComment line)])
          (docTerminals docs ++ us) (·.lines = before ++ [line]) := by
        refine Leads.turn hlead (by simp) fun found hfound => ?_
        unfold docTurn
        refine Accepts.peek fun token htoken => ?_
        rw [show token.kind = .docComment line from Token.kind_of_terminal htoken]
        refine Accepts.advance (by simp [Terminal.of]) fun _ _ => Accepts.pure ⟨_, rfl, ?_⟩
        rw [Docs.push, hfound]
      have hall := ih hfirst
      simpa [docTerminals] using hall

theorem Accepts.docComments {docs : List String} (hdoc : ∀ line, (front us).kind ≠ .docComment line)
    (hmodule : ∀ line, (front us).kind ≠ .moduleDoc line) :
    Accepts docComments (docTerminals docs) us (·.lines = docs) := by
  have hdocs : Leads docTurn Parser.docComments ([] ++ docTerminals docs) us
      (·.lines = [] ++ docs) := Leads.docs docs (Leads.iterate rfl)
  refine Leads.stop_nil hdocs fun found hfound => ?_
  unfold docTurn
  refine Accepts.peek fun token htoken => ?_
  have hkind : token.kind = (front us).kind := Token.kind_of_terminal htoken
  split
  · rename_i line hline
    exact absurd (hkind.symm.trans hline) (hdoc line)
  · rename_i line hline
    exact absurd (hkind.symm.trans hline) (hmodule line)
  · exact Accepts.pure ⟨found, rfl, hfound⟩

theorem Accepts.direction {direction : Option Direction}
    (hfront : ∀ direction : Direction, (front us).kind ≠ .keyword direction.keyword) :
    Accepts Parser.direction (directionTerminals direction) us (· = direction) := by
  unfold Parser.direction
  refine Accepts.peek fun token htoken => ?_
  cases direction with
  | none =>
      have hnone : token.keyword?.bind Direction.ofKeyword? = none := by
        rw [Option.bind_eq_none_iff]
        intro word hword
        have hkind : (front us).kind = .keyword word :=
          (Token.kind_of_terminal htoken).symm.trans (Token.kind_of_keyword? hword)
        cases hdirection : Direction.ofKeyword? word with
        | none => rfl
        | some direction =>
            refine absurd hkind ?_
            rw [← Direction.keyword_of_ofKeyword? hdirection]
            exact hfront direction
      rw [hnone]
      exact Accepts.pure rfl
  | some direction =>
      have hsome : token.keyword?.bind Direction.ofKeyword? = some direction := by
        have hkind : token.kind = .keyword direction.keyword := Token.kind_of_terminal htoken
        rw [Token.keyword?, hkind]
        exact Direction.ofKeyword?_keyword direction
      rw [hsome]
      exact Accepts.advance (by simp [Terminal.word, Terminal.of]) fun _ _ => Accepts.pure rfl

theorem Accepts.listBreaksOff {inBody : Bool} {f : Bool → Parser β} {goal : β → Prop}
    (hend : (front (ts ++ us)).kind ≠ .endOfFile) (hf : Accepts (f false) ts us goal) :
    Accepts (listBreaksOff inBody >>= f) ts us goal := by
  intro s hlevel hcoming
  have hcurrent : s.current.terminal = front (ts ++ us) := by
    rw [← hcoming]
    exact terminal_tokenAt hlevel 0
  have hno : (s.current.isEndOfFile || s.startsConstruct inBody) = false := by
    have hgoes : s.current.isEndOfFile = false := by
      simpa [Token.isEndOfFile, Token.kind_of_terminal hcurrent] using hend
    simp [hgoes, startsConstruct, hlevel.newlineBefore_current]
  have hrun : (Parser.listBreaksOff inBody >>= f) s = f false s := by
    change f (s.current.isEndOfFile || s.startsConstruct inBody) s = _
    rw [hno]
  rw [hrun]
  exact hf s hlevel hcoming

theorem Accepts.listGoesOn {context : String} {inBody : Bool}
    (hclose : (front us).kind ≠ .punctuation .rParen) (hend : (front us).kind ≠ .endOfFile) :
    Accepts (listGoesOn context inBody) [] us (· = true) := by
  unfold Parser.listGoesOn
  exact Accepts.noPunctuation hclose (Accepts.listBreaksOff hend (Accepts.pure rfl))

theorem Accepts.listEnds {context : String} {inBody : Bool} :
    Accepts (Parser.listGoesOn context inBody) [.mark .rParen] us (· = false) := by
  unfold Parser.listGoesOn
  exact Accepts.punctuation (Accepts.pure rfl)

theorem Accepts.listContinues {context what : String} {inBody : Bool} {set : RecoverySet} :
    Accepts (listContinues context what inBody set) [.mark .comma] us (· = true) := by
  unfold Parser.listContinues
  exact Accepts.punctuation (Accepts.pure rfl)

theorem Accepts.listStops {context what : String} {inBody : Bool} {set : RecoverySet} :
    Accepts (Parser.listContinues context what inBody set) [.mark .rParen] us (· = false) := by
  unfold Parser.listContinues
  refine Accepts.noPunctuation (by simp [Terminal.mark, Terminal.of]) ?_
  refine Accepts.bind_nil Accepts.listEnds ?_
  rintro _ rfl
  exact Accepts.pure rfl

/-- A turn of the loop for a list in parentheses, whatever its items are. -/
def listTurn {γ : Type} (context what : String) (inBody : Bool) (set : RecoverySet)
    (item : Parser γ) (add : List α → γ → List α) (found : List α) : Parser (Turn (List α)) := do
  if ← listGoesOn context inBody then
    let longer := add found (← item)
    if ← listContinues context what inBody set then pure (.again longer) else pure (.done longer)
  else pure (.done found)

section Listed

variable {γ : Type} {form : β → List Terminal → Prop} {shape : α → β} {context what : String}
  {inBody : Bool} {set : RecoverySet} {item : Parser γ} {add : List α → γ → List α}

/-- A list in parentheses from any turn of its loop on, through the closing one. -/
theorem Leads.listed (hfront : ∀ shape is us, form shape is →
      (front (is ++ us)).kind ≠ .punctuation .rParen ∧ (front (is ++ us)).kind ≠ .endOfFile)
    (hitem : ∀ item' is mark us found, form item' is → mark = .comma ∨ mark = .rParen →
      Accepts item is (.mark mark :: us) fun x => Finds shape found item' (add found x))
    {items : List β} (h : Closed form items ts) {p : Parser (List α)} {before : List β}
    (hlead : Leads (listTurn context what inBody set item add) p vs (ts ++ us)
      fun found => found.map shape = before) :
    Accepts p (vs ++ ts) us fun found => found.map shape = before ++ items := by
  induction h generalizing vs before with
  | nil =>
      refine Leads.stop hlead fun found hfound => Accepts.bind_nil Accepts.listEnds ?_
      rintro _ rfl
      exact Accepts.pure ⟨found, rfl, by rw [hfound, List.append_nil]⟩
  | @last item' is hform =>
      refine Leads.stop hlead fun found hfound => ?_
      obtain ⟨hclose, hend⟩ := hfront _ _ ([.mark .rParen] ++ us) hform
      refine Accepts.bind_nil_left (Accepts.listGoesOn (by simpa using hclose) (by simpa using hend)) ?_
      rintro _ rfl
      refine Accepts.bind (hitem item' is .rParen us found hform (.inr rfl)) fun x hx => ?_
      refine Accepts.bind_nil Accepts.listStops ?_
      rintro _ rfl
      exact Accepts.pure ⟨_, rfl, hx.map hfound⟩
  | @more item' rest is rs hform _ ih =>
      have hlead' : Leads (listTurn context what inBody set item add) p vs
          ((is ++ [.mark .comma]) ++ (rs ++ us)) fun found => found.map shape = before := by
        simpa using hlead
      have hfirst : Leads (listTurn context what inBody set item add) p (vs ++ (is ++ [.mark .comma]))
          (rs ++ us) fun found => found.map shape = before ++ [item'] := by
        refine Leads.turn hlead' (by simp) fun found hfound => ?_
        obtain ⟨hclose, hend⟩ := hfront _ _ ([.mark .comma] ++ (rs ++ us)) hform
        refine Accepts.bind_nil_left (Accepts.listGoesOn (by simpa using hclose) (by simpa using hend)) ?_
        rintro _ rfl
        refine Accepts.bind (hitem item' is .comma (rs ++ us) found hform (.inl rfl)) fun x hx => ?_
        refine Accepts.bind_nil Accepts.listContinues ?_
        rintro _ rfl
        exact Accepts.pure ⟨_, rfl, hx.map hfound⟩
      have hall := ih hfirst
      simpa using hall

end Listed

theorem Accepts.declaredType {type : Option TypeExpr} (h : TypePart type ts) (hends : EndsType ts us)
    (hcolon : (front us).kind ≠ .punctuation .colon) :
    Accepts declaredType ts us (·.map TypeExpr.shape = type) := by
  unfold Parser.declaredType
  cases h with
  | absent => exact Accepts.noPunctuation hcolon (Accepts.pure rfl)
  | present hderives =>
      refine Accepts.punctuation (Accepts.map (Accepts.typeExpr hderives hends.of_cons) ?_)
      rintro type rfl
      rfl

theorem Accepts.initializer {init : Option Expr} (h : ValuePart init ts) (hcloses : Closes us) :
    Accepts initializer ts us (·.map Expr.shape = init) := by
  unfold Parser.initializer
  cases h with
  | absent =>
      obtain ⟨mark, hmark, -⟩ := hcloses
      exact Accepts.noOperator (by simp [hmark]) (Accepts.pure rfl)
  | present hderives =>
      refine Accepts.operator (Accepts.map (Accepts.expression hderives hcloses) ?_)
      rintro expr rfl
      rfl

theorem Accepts.varParts {set : RecoverySet} {name : String} {type : Option TypeExpr}
    {init : Option Expr} {is : List Terminal} (htype : TypePart type ts)
    (hinit : ValuePart init is) :
    Accepts (varParts set) (.word .varWord :: .name name :: (ts ++ is ++ [.mark .semi])) us
      fun result => ∃ parts, result = some parts ∧ parts.name.text = name ∧
        parts.type.map TypeExpr.shape = type ∧ parts.init.map Expr.shape = init := by
  unfold Parser.varParts
  refine Accepts.advance (by simp [Terminal.word, Terminal.of]) fun _ _ => ?_
  change Accepts _ ([.name name] ++ (ts ++ is ++ [.mark .semi])) us _
  refine Accepts.bind Accepts.expectName ?_
  rintro _ ⟨found, rfl, hname⟩
  rw [List.append_assoc]
  refine Accepts.bind (Accepts.declaredType htype ?_ ?_) fun type' htype' => ?_
  · cases hinit with
    | absent => exact (Closes.mark (by simp) (by simp)).endsType ts
    | present _ => exact ⟨by simp [Terminal.op, Terminal.of], fun _ => by simp [Terminal.op, Terminal.of]⟩
  · cases hinit <;> simp [Terminal.mark, Terminal.op, Terminal.of]
  · have hcloses : Closes (.mark .semi :: us) := Closes.mark (by simp) (by simp)
    refine Accepts.bind (Accepts.initializer hinit hcloses) fun init' hinit' => ?_
    exact Accepts.bind_nil Accepts.expectSemi fun _ _ =>
      Accepts.pure ⟨_, rfl, hname, htype', hinit'⟩

theorem Accepts.constParts {set : RecoverySet} {name : String} {type : Option TypeExpr}
    {value : Expr} {is : List Terminal} (htype : TypePart type ts)
    (hvalue : Derives (.expr value) is) :
    Accepts (constParts set)
      (.word .constWord :: .name name :: (ts ++ .op .eq :: (is ++ [.mark .semi]))) us
      fun result => ∃ parts, result = some parts ∧ parts.name.text = name ∧
        parts.type.map TypeExpr.shape = type ∧ parts.value.shape = value := by
  unfold Parser.constParts
  refine Accepts.advance (by simp [Terminal.word, Terminal.of]) fun _ _ => ?_
  change Accepts _ ([.name name] ++ (ts ++ .op .eq :: (is ++ [.mark .semi]))) us _
  refine Accepts.bind Accepts.expectName ?_
  rintro _ ⟨found, rfl, hname⟩
  refine Accepts.bind (Accepts.declaredType htype
    ⟨by simp [Terminal.op, Terminal.of], fun _ => by simp [Terminal.op, Terminal.of]⟩
    (by simp [Terminal.op, Terminal.of])) fun type' htype' => ?_
  change Accepts _ ([.op .eq] ++ (is ++ [.mark .semi])) us _
  refine Accepts.bind Accepts.expectOperator ?_
  rintro _ rfl
  rw [if_pos rfl]
  refine Accepts.bind (Accepts.expression hvalue (Closes.mark (by simp) (by simp)))
    fun value' hvalue' => ?_
  exact Accepts.bind_nil Accepts.expectSemi fun _ _ => Accepts.pure ⟨_, rfl, hname, htype', hvalue'⟩

theorem Accepts.orStepOver {p : Parser α} {exempt : Token → Bool} {good : α → Prop} (hne : ts ≠ [])
    (hp : Accepts p ts us good) : Accepts (orStepOver p exempt) ts us good := by
  intro s hlevel hcoming
  obtain ⟨hgood, hreached⟩ := hp s hlevel hcoming
  have hmoved : (p s).2.position ≠ s.position := by
    have hposition := hreached.position
    have hbefore := congrArg List.length hcoming
    have hafter := congrArg List.length hreached.coming
    have hpositive := List.length_pos_iff.mpr hne
    rw [List.length_map, List.length_append] at hbefore
    rw [List.length_map] at hafter
    omega
  have hrun : Parser.orStepOver p exempt s = p s := by
    change (if (p s).2.position = s.position ∧ _ then _ else ((p s).1, (p s).2)) = p s
    exact if_neg fun h => hmoved h.1
  rw [hrun]
  exact ⟨hgood, hreached⟩

end Parser

end BehaviorTree
