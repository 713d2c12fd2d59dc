import BehaviorTree.Parsing.Declaration
import BehaviorTree.Proofs.Parsing.StatementsLaid

/-!
# Programs of runs without errors

The declarations of a program that is parsed without errors lie along its tokens, and all nodes that
were made are in it. An attribute belongs to the declaration behind it, documentation does not.
-/

namespace BehaviorTree

open ParserState

variable {s s₁ s₂ : ParserState} {made : List Stamp}

/-- A declaration in want of its head lies along what was consumed between the states. -/
def UnheadedFrom (s : ParserState) (build : DeclHead → Decl) (s' : ParserState) : Prop :=
  s'.rest.length < s.rest.length ∧ ∃ pieces made, PartsFrom s pieces made s' ∧
    ∀ head, (build head).head = head ∧ (build head).pieces = pieces ∧
      (build head).stamps = .node .decl head.origin.id :: made

/-- The attribute, if there is one, lies over what was consumed between the states. -/
def AttributeFrom (s : ParserState) (attr : Option Attribute) (s' : ParserState) : Prop :=
  attr = none ∧ Stretch s [] [] s' ∨
    ∃ a ts, attr = some a ∧ Stretch s ts [] s' ∧ (Regular s.file ts → a.range.Spans ts)

namespace Parser

variable {s : ParserState}

/-! ### Ports and parameters -/

theorem Delivers.param {what : String} {set : RecoverySet} :
    Delivers (param what set) s fun result s' =>
      ∃ param, result = some param ∧ PartsFrom s [.param param] param.stamps s' := by
  unfold Parser.param
  refine Delivers.bind Delivers.docComments fun docs s₁ => Delivers.peek ?_
  refine Delivers.bind Delivers.direction fun direction s₂ => ?_
  refine Delivers.bind Delivers.expectName fun name s₃ => ?_
  cases name with
  | none =>
      refine Delivers.pure fun h => ?_
      obtain ⟨token, -, hnone, -⟩ := h
      cases hnone
  | some name =>
      dsimp only
      refine Delivers.bind Delivers.expectPunctuation fun found s₄ => ?_
      split
      · refine Delivers.bind Delivers.typeExpr fun type s₅ => ?_
        refine Delivers.bind Delivers.initializer fun default s₆ => ?_
        refine Delivers.rangeSince (Delivers.pure ?_)
        rintro hdefault htype ⟨-, hcolon⟩ ⟨token, -, -, hname⟩ hdirection hdocs
        have hbefore := hdirection.trans (PartsFrom.gap hname)
        have hbehind := htype.parts.trans hdefault
        have hparts := (hbefore.trans hcolon.gap).trans hbehind
        have hpiece : PieceFrom s₁ (.param ⟨docs.lines, direction, name, type, default,
            s₆.rangeSince s₁.current.range⟩) (type.stamps ++ stampsOfExpr default) s₆ := by
          refine PartsFrom.piece hparts ?_ rfl
          have hleft := hcolon.left
          have hlength := hbefore.length_le
          have hlength' := hbehind.length_le
          omega
        exact ⟨_, rfl, (hdocs.trans hpiece.parts).as rfl (by simp)⟩
      · rename_i hfound
        have hretains : Retains (Parser.missingType >>= fun type => do
            let default ← Parser.initializer
            return some (⟨docs.lines, direction, name, type, default,
              ← Parser.rangeSince s₁.current.range⟩ : Param)) :=
          Retains.bind Retains.missingType fun _ => Retains.bind
            (fun _ => Delivers.initializer.retains) fun _ _ => Delivers.rangeSince (Delivers.pure trivial)
        exact (hretains s₄).mono fun _ _ _ h => absurd h.1 hfound

theorem Delivers.paramTurn {what : String} (params : List Param) :
    Delivers (paramTurn what params) s fun turn s' =>
      ∀ s₀, PartsFrom s₀ (params.map .param) (params.flatMap Param.stamps) s →
        PartsFrom s₀ (turn.value.map .param) (turn.value.flatMap Param.stamps) s' := by
  unfold Parser.paramTurn
  dsimp only
  refine Delivers.bind Delivers.listGoesOn fun goesOn s₁ => ?_
  split
  · refine Delivers.bind Delivers.param fun param s₂ => ?_
    refine Delivers.bind Delivers.listContinues fun continues s₃ => ?_
    rename_i hgoesOn
    have hturn : (Took (.punctuation .comma) s₂ s₃ ∨ Took (.punctuation .rParen) s₂ s₃) →
        (∃ found, param = some found ∧ PartsFrom s₁ [.param found] found.stamps s₂) →
        (goesOn = true ∧ s₁ = s ∨ goesOn = false ∧ Took (.punctuation .rParen) s s₁) →
        ∀ s₀, PartsFrom s₀ (params.map .param) (params.flatMap Param.stamps) s →
          PartsFrom s₀ ((params ++ param.toList).map .param)
            ((params ++ param.toList).flatMap Param.stamps) s₃ := by
      rintro hbehind ⟨found, rfl, hparam⟩ hgoes s₀ h
      exact partsFrom_listed h hgoesOn hgoes hparam hbehind
    split
    · exact Delivers.pure hturn
    · exact Delivers.pure hturn
  · rename_i hends
    refine Delivers.pure ?_
    rintro (⟨hgoesOn, -⟩ | ⟨-, hclosed⟩) s₀ h
    · exact absurd hgoesOn hends
    · exact h.past hclosed.gap

theorem Delivers.paramList {what context : String} :
    Delivers (paramList what context) s fun params s' =>
      s'.rest.length < s.rest.length ∧
        PartsFrom s (params.map .param) (params.flatMap Param.stamps) s' := by
  unfold Parser.paramList
  refine Delivers.bind Delivers.expectPunctuation fun found s₁ => ?_
  split
  · refine (Delivers.iterate (fun params s' => PartsFrom s₁ (params.map .param)
      (params.flatMap Param.stamps) s') fun params s' =>
        (Delivers.paramTurn params).mono fun _ _ h => h s₁).mono ?_
    rintro params s₂ h ⟨-, hopened⟩
    have hparams := h (.gap (.refl s₁))
    refine ⟨?_, (hopened.gap.trans hparams).as rfl (by simp)⟩
    have hleft := hopened.left
    have hlength := hparams.length_le
    omega
  · rename_i hfound
    exact Delivers.pure fun h => absurd h.1 hfound

/-! ### Declarations -/

theorem Retains.abandonDecl : Retains abandonDecl :=
  Retains.bind (Retains.synchronize _) fun _ =>
    Retains.bind (Retains.acceptPunctuation _) fun _ => Retains.pure _

theorem Delivers.importDecl (hcurrent : s.current.isEndOfFile = false) :
    Delivers importDecl s fun result s' => ∃ build, result = some build ∧ UnheadedFrom s build s' := by
  unfold Parser.importDecl
  refine Delivers.advance hcurrent fun s₁ h₁ => Delivers.peek ?_
  split
  · rename_i path hkind
    refine Delivers.advance_of hkind (by simp) fun s₂ h₂ => Delivers.intern fun s₃ h₃ => ?_
    refine Delivers.bind Delivers.expectSemi fun _ s₄ => Delivers.pure fun hsemi => ?_
    have hparts := (PartsFrom.gap (h₁.trans (h₂.trans h₃))).past hsemi.gap
    refine ⟨_, rfl, ?_, _, _, hparts, fun head => ⟨rfl, rfl, rfl⟩⟩
    have hlength := (PartsFrom.gap (h₁.trans (h₂.trans h₃))).length_le
    have hleft := hsemi.left
    omega
  · refine Delivers.fail Delivers.expectedWithHelp fun _ => ?_
    exact Retains.bind Retains.abandonDecl fun _ => Retains.pure _

theorem Delivers.nodeDecl {behavior : Option Behavior} (hcurrent : s.current.isEndOfFile = false) :
    Delivers (nodeDecl behavior) s fun result s' =>
      ∃ build, result = some build ∧ UnheadedFrom s build s' := by
  unfold Parser.nodeDecl
  refine Delivers.advance hcurrent fun s₁ h₁ => Delivers.peek ?_
  split
  · refine Delivers.fail Delivers.expectedWithHelp fun _ => ?_
    exact Retains.bind Retains.abandonDecl fun _ => Retains.pure _
  · rename_i category hcategory
    obtain ⟨word, hword, -⟩ := Option.bind_eq_some_iff.mp hcategory
    have hkind := Token.kind_of_keyword? hword
    refine Delivers.advance_of hkind (by simp) fun s₂ h₂ => ?_
    refine Delivers.bind Delivers.expectName fun name s₃ => ?_
    cases name with
    | none =>
        refine (Retains.bind Retains.abandonDecl fun _ => Retains.pure _ : Retains _) _ |>.mono
          fun _ _ _ h => ?_
        obtain ⟨token, -, hnone, -⟩ := h
        cases hnone
    | some name =>
        refine Delivers.bind Delivers.paramList fun ports s₄ => ?_
        refine Delivers.bind Delivers.expectSemi fun _ s₅ => Delivers.pure ?_
        rintro hsemi ⟨-, hports⟩ ⟨token, -, -, h₃⟩
        have hbefore := (PartsFrom.gap (h₁.trans (h₂.trans h₃))).trans hports
        refine ⟨_, rfl, ?_, _, _, (hbefore.past hsemi.gap).as rfl (by simp), fun head =>
          ⟨rfl, rfl, rfl⟩⟩
        have hlength := hbefore.length_le
        have hleft := hsemi.left
        omega

theorem Delivers.opaqueTypeDecl (hcurrent : s.current.isEndOfFile = false)
    (hsecond : (s.tokenAt 1).isEndOfFile = false) :
    Delivers opaqueTypeDecl s fun result s' =>
      ∃ build, result = some build ∧ UnheadedFrom s build s' := by
  unfold Parser.opaqueTypeDecl
  refine Delivers.advance hcurrent fun s₁ h₁ => ?_
  rw [← h₁.current_of_cons] at hsecond
  refine Delivers.advance hsecond fun s₂ h₂ => ?_
  refine Delivers.bind Delivers.expectName fun name s₃ => ?_
  cases name with
  | none =>
      refine (Retains.bind Retains.abandonDecl fun _ => Retains.pure _ : Retains _) _ |>.mono
        fun _ _ _ h => ?_
      obtain ⟨token, -, hnone, -⟩ := h
      cases hnone
  | some name =>
      refine Delivers.bind Delivers.expectSemi fun _ s₄ => Delivers.pure ?_
      rintro hsemi ⟨token, -, -, h₃⟩
      have hbefore := PartsFrom.gap (h₁.trans (h₂.trans h₃))
      refine ⟨_, rfl, ?_, _, _, (hbefore.past hsemi.gap).as rfl (by simp), fun head =>
        ⟨rfl, rfl, rfl⟩⟩
      have hlength := hbefore.length_le
      have hleft := hsemi.left
      omega

theorem Delivers.typeAliasDecl (hcurrent : s.current.isEndOfFile = false) :
    Delivers typeAliasDecl s fun result s' =>
      ∃ build, result = some build ∧ UnheadedFrom s build s' := by
  unfold Parser.typeAliasDecl
  refine Delivers.advance hcurrent fun s₁ h₁ => ?_
  refine Delivers.bind Delivers.expectName fun name s₂ => ?_
  cases name with
  | none =>
      refine (Retains.bind Retains.abandonDecl fun _ => Retains.pure _ : Retains _) _ |>.mono
        fun _ _ _ h => ?_
      obtain ⟨token, -, hnone, -⟩ := h
      cases hnone
  | some name =>
      refine Delivers.bind Delivers.expectOperator fun found s₃ => ?_
      dsimp only
      split
      · refine Delivers.bind Delivers.typeExpr fun type s₄ => ?_
        refine Delivers.bind Delivers.expectSemi fun _ s₅ => Delivers.pure ?_
        rintro hsemi htype ⟨-, hequals⟩ ⟨token, -, -, h₂⟩
        have hbefore := ((PartsFrom.gap (h₁.trans h₂)).trans hequals.gap).trans htype.parts
        refine ⟨_, rfl, ?_, _, _, (hbefore.past hsemi.gap).as rfl (by simp), fun head =>
          ⟨rfl, rfl, rfl⟩⟩
        have hlength := hbefore.length_le
        have hleft := hsemi.left
        omega
      · rename_i hfound
        refine (Retains.bind Retains.missingType fun _ => Retains.bind
          (fun _ => Delivers.expectSemi.retains) fun _ => Retains.pure _ : Retains _) _ |>.mono
          fun _ _ _ h => absurd h.1 hfound

theorem Delivers.varDecl (hcurrent : s.current.isEndOfFile = false) :
    Delivers varDecl s fun result s' => ∃ build, result = some build ∧ UnheadedFrom s build s' := by
  refine Delivers.bind (Delivers.varParts hcurrent) fun parts s₁ => Delivers.pure ?_
  rintro ⟨hleft, name, type, init, rfl, hparts⟩
  exact ⟨_, rfl, hleft, _, _, hparts.as rfl (by simp), fun head => ⟨rfl, rfl, rfl⟩⟩

theorem Delivers.constDecl (hcurrent : s.current.isEndOfFile = false) :
    Delivers constDecl s fun result s' => ∃ build, result = some build ∧ UnheadedFrom s build s' := by
  refine Delivers.bind (Delivers.constParts hcurrent) fun parts s₁ => Delivers.pure ?_
  rintro ⟨hleft, name, type, value, rfl, hparts⟩
  exact ⟨_, rfl, hleft, _, _, hparts.as rfl (by simp), fun head => ⟨rfl, rfl, rfl⟩⟩

theorem Delivers.treeBody : Delivers treeBody s fun body s' =>
    PartsFrom s (body.map .stmt) (body.flatMap Stmt.stamps) s' := by
  unfold Parser.treeBody
  refine Delivers.atPunctuation ?_
  split
  · rename_i hopens
    have hkind : s.current.kind = .punctuation .lBrace := by simpa [Token.isPunctuation] using hopens
    exact BlockDelivers.block s (by simp [Token.isEndOfFile, hkind])
  · exact Delivers.fail Delivers.missing fun _ =>
      Retains.bind (Retains.synchronize _) fun _ => Retains.pure _

theorem Delivers.treeDecl (hcurrent : s.current.isEndOfFile = false) :
    Delivers treeDecl s fun result s' => ∃ build, result = some build ∧ UnheadedFrom s build s' := by
  unfold Parser.treeDecl
  refine Delivers.advance hcurrent fun s₁ h₁ => ?_
  refine Delivers.bind Delivers.expectName fun name s₂ => ?_
  cases name with
  | none =>
      refine (Retains.skipBody s₂).mono fun _ _ _ h => ?_
      obtain ⟨token, -, hnone, -⟩ := h
      cases hnone
  | some name =>
      refine Delivers.bind Delivers.paramList fun params s₃ => ?_
      refine Delivers.bind Delivers.treeBody fun body s₄ => Delivers.pure ?_
      rintro hbody ⟨hleft, hparams⟩ ⟨token, -, -, h₂⟩
      have hbefore := PartsFrom.gap (h₁.trans h₂)
      refine ⟨_, rfl, ?_, _, _, (hbefore.trans (hparams.trans hbody)).as rfl (by simp), fun head =>
        ⟨rfl, rfl, rfl⟩⟩
      have hlength := hbefore.length_le
      have hlength' := hbody.length_le
      omega

/-! ### Attributes -/

theorem Delivers.policy {α : Type} {what choices : String} {ofSpelling? : String → Option α}
    {set : RecoverySet} :
    Delivers (policy what choices ofSpelling? set) s fun _ s' => PartsFrom s [] [] s' := by
  unfold Parser.policy
  refine Delivers.bind Delivers.expectName fun name s₁ => ?_
  cases name with
  | none =>
      refine Delivers.pure fun h => ?_
      obtain ⟨token, -, hnone, -⟩ := h
      cases hnone
  | some name =>
      dsimp only
      split
      · refine Delivers.pure fun h => ?_
        obtain ⟨token, -, -, h₁⟩ := h
        exact .gap h₁
      · exact Delivers.fail (Delivers.report rfl) fun _ => Retains.pure _

theorem Delivers.flowPolicy {set : RecoverySet} :
    Delivers (flowPolicy set) s fun _ s' => PartsFrom s [] [] s' := by
  unfold Parser.flowPolicy
  refine Delivers.acceptPunctuation (fun _ s₁ h₁ => ?_) fun _ => Delivers.pure (.gap (.refl s))
  exact Delivers.policy.mono fun _ _ h => (PartsFrom.gap h₁).past h

theorem Delivers.policies {set : RecoverySet} :
    Delivers (policies set) s fun _ s' => PartsFrom s [] [] s' := by
  unfold Parser.policies
  dsimp only
  refine Delivers.bind Delivers.expectPunctuation fun opened s₁ => ?_
  split
  · refine Delivers.bind Delivers.policy fun data s₂ => ?_
    refine Delivers.bind Delivers.flowPolicy fun flow s₃ => ?_
    refine Delivers.bind Delivers.expectPunctuation fun closed s₄ => ?_
    have hparts : (closed = true ∧ Took (.punctuation .rParen) s₃ s₄) → PartsFrom s₂ [] [] s₃ →
        PartsFrom s₁ [] [] s₂ → (opened = true ∧ Took (.punctuation .lParen) s s₁) →
        PartsFrom s [] [] s₄ :=
      fun hclosed hflow hdata hopened => ((hopened.2.gap.past hdata).past hflow).past hclosed.2.gap
    split
    · exact Delivers.pure hparts
    · exact Delivers.pure hparts
  · rename_i hopened
    exact Delivers.pure fun h => absurd h.1 hopened

theorem Delivers.attributeBody {set : RecoverySet} :
    Delivers (attributeBody set) s fun _ s' => PartsFrom s [] [] s' := by
  unfold Parser.attributeBody
  refine Delivers.bind Delivers.expectPunctuation fun opened s₁ => ?_
  split
  · refine Delivers.bind Delivers.expectName fun name s₂ => ?_
    cases name with
    | none =>
        refine Delivers.pure fun h => ?_
        obtain ⟨token, -, hnone, -⟩ := h
        cases hnone
    | some name =>
        dsimp only
        split
        · refine Delivers.policies.mono ?_
          rintro _ _ hpolicies ⟨token, -, -, h₂⟩ ⟨-, hopened⟩
          exact (hopened.gap.before h₂).past hpolicies
        · refine Delivers.fail (Delivers.report rfl) fun _ => ?_
          exact Retains.bind (Retains.synchronize _) fun _ => Retains.pure _
  · rename_i hopened
    exact Delivers.pure fun h => absurd h.1 hopened

theorem Delivers.attributeHere : Delivers attributeHere s fun attr s' => AttributeFrom s attr s' := by
  unfold Parser.attributeHere
  dsimp only
  refine Delivers.peek (Delivers.acceptPunctuation (fun _ s₁ h₁ => ?_) fun _ =>
    Delivers.pure (.inl ⟨rfl, .refl s⟩))
  refine Delivers.bind Delivers.attributeBody fun policies s₂ => ?_
  refine Delivers.bind Delivers.expectPunctuation fun _ s₃ => Delivers.rangeSince (Delivers.pure ?_)
  rintro ⟨-, closing, -, h₃⟩ ⟨ts, h₂, -⟩
  have hstretch : Stretch s (s.current :: (ts ++ [closing])) [] s₃ := h₁.trans (h₂.trans h₃)
  exact .inr ⟨_, _, rfl, hstretch, hstretch.spans_rangeSince_cons⟩

end Parser

/-- The parts of a declaration in want of its head reach from the first token that was consumed to
the last. -/
theorem UnheadedFrom.spans {build : DeclHead → Decl} (h : UnheadedFrom s build s₁) :
    ∃ pieces made ts, Stretch s ts made s₁ ∧ LaidAlong s.file pieces ts ∧
      (Regular s.file ts → (s₁.rangeSince s.current.range).Spans ts) ∧
      ∀ head, (build head).head = head ∧ (build head).pieces = pieces ∧
        (build head).stamps = .node .decl head.origin.id :: made := by
  obtain ⟨hleft, pieces, made, ⟨ts, hstretch, hlaid⟩, hbuild⟩ := h
  refine ⟨pieces, made, ts, hstretch, hlaid, fun hregular => ?_, hbuild⟩
  cases ts with
  | nil =>
      have hlength := hstretch.length_eq
      rw [List.length_nil] at hlength
      omega
  | cons first ts =>
      have hfirst : s.current = first := by
        simp [ParserState.current, ParserState.tokenAt, hstretch.rest]
      rw [hfirst]
      exact hstretch.spans_rangeSince_cons hregular

/-- A declaration lies over its attribute and what follows it. -/
theorem UnheadedFrom.declaration {s₀ s₂ : ParserState} {attr : Option Attribute}
    {build : DeclHead → Decl} {docs : List String} {id : Nat} {range : SourceRange}
    (hattr : AttributeFrom s₀ attr s) (h : UnheadedFrom s build s₁)
    (hnew : Stretch s₁ [] [.node .decl id] s₂)
    (hrange : range = ((attr.map Attribute.range).map
      (·.merge (s₁.rangeSince s.current.range))).getD (s₁.rangeSince s.current.range)) :
    PartsFrom s₀ [.decl (build ⟨⟨id, range⟩, docs⟩)] (build ⟨⟨id, range⟩, docs⟩).stamps s₂ := by
  obtain ⟨pieces, made, us, hstretch, hlaid, hown, hbuild⟩ := h.spans
  obtain ⟨hhead, hpieces, hstamps⟩ := hbuild ⟨⟨id, range⟩, docs⟩
  have hcount : ∀ kind, Stamp.census kind (made ++ [.node .decl id]) =
      Stamp.census kind (build ⟨⟨id, range⟩, docs⟩).stamps := by
    intro kind
    rw [hstamps]
    simp
  rcases hattr with ⟨rfl, hbefore⟩ | ⟨a, ts, rfl, hbefore, hspans⟩
  · rw [hbefore.file] at hlaid hown
    refine ⟨us, (hbefore.trans (hstretch.trans hnew)).as (by simp) hcount, .single (.mk ?_ ?_)⟩
    · rw [Piece.range, Decl.range, hhead, hrange]
      exact hown
    · show LaidAlong s₀.file (build _).pieces us
      rw [hpieces]
      exact hlaid
  · rw [hbefore.file] at hlaid hown
    refine ⟨ts ++ us, (hbefore.trans (hstretch.trans hnew)).as (by simp) hcount,
      .single (.mk (fun hregular => ?_) ?_)⟩
    · rw [Piece.range, Decl.range, hhead, hrange]
      exact SourceRange.Spans.merge [] (hspans hregular.left) (hown hregular.right) hregular
    · show LaidAlong s₀.file (build _).pieces _
      rw [hpieces]
      exact hlaid.behind ts

namespace Parser

variable {s : ParserState}

/-! ### Whole declarations -/

theorem Delivers.finishDecl {result : Option (DeclHead → Decl)} {docs : Docs}
    (attr : Option Attribute) {s₁ : ParserState} :
    Delivers (finishDecl result docs s.current.range (attr.map Attribute.range)) s₁ fun decl s' =>
      (∃ build, result = some build ∧ UnheadedFrom s build s₁) → ∀ s₀, AttributeFrom s₀ attr s →
        PartsFrom s₀ (decl.toList.map .decl) (decl.toList.flatMap Decl.stamps) s' := by
  unfold Parser.finishDecl
  cases result with
  | none => exact Delivers.pure fun ⟨build, hbuild, _⟩ => by cases hbuild
  | some build =>
      refine Delivers.rangeSince (Delivers.newDecl (f := fun decl => Pure.pure (some decl))
        fun id s₂ h₂ => Delivers.pure ?_)
      rintro ⟨_, ⟨rfl⟩, hbuild⟩ s₀ hattr
      exact (hbuild.declaration hattr h₂ rfl).as rfl (by simp)

/-- An attribute in front of any other declaration is an error. -/
theorem Delivers.plainDecl {parser : Parser (Option (DeclHead → Decl))} {docs : Docs}
    {attr : Option Attribute}
    (hparser : Delivers parser s fun result s' => ∃ build, result = some build ∧ UnheadedFrom s build s') :
    Delivers (plainDecl parser docs attr) s fun decl s' => ∀ s₀, AttributeFrom s₀ attr s →
      PartsFrom s₀ (decl.toList.map .decl) (decl.toList.flatMap Decl.stamps) s' := by
  unfold Parser.plainDecl
  refine Delivers.peek (Delivers.bind hparser fun result s₁ => ?_)
  cases attr with
  | some a => exact Delivers.fail (Delivers.report rfl) fun _ _ => (Delivers.finishDecl (s := s) none).retains
  | none => exact Delivers.finishDecl none

/-- The declaration behind an attribute lies along what was consumed for the two. -/
theorem Delivers.declarationAfter (docs : Docs) (attr : Option Attribute) :
    Delivers (declarationAfter docs attr) s fun decl s' => ∀ s₀, AttributeFrom s₀ attr s →
      PartsFrom s₀ (decl.toList.map .decl) (decl.toList.flatMap Decl.stamps) s' := by
  have hnothing : Delivers Parser.declarationAfter.noDeclaration s fun decl s' =>
      ∀ s₀, AttributeFrom s₀ attr s →
        PartsFrom s₀ (decl.toList.map .decl) (decl.toList.flatMap Decl.stamps) s' :=
    Delivers.fail Delivers.expectedWithHelp fun _ =>
      Retains.bind (Retains.synchronize _) fun _ => Retains.pure _
  unfold Parser.declarationAfter
  refine Delivers.peek ?_
  have hcurrent : ∀ {kind}, s.current.kind = kind → kind ≠ .endOfFile → s.current.isEndOfFile = false :=
    fun hkind hend => by simp [Token.isEndOfFile, hkind, hend]
  split
  · split
    · exact Delivers.fail Delivers.skipForeign fun _ => Retains.pure _
    · exact hnothing
  · rename_i hkind
    exact Delivers.plainDecl (Delivers.importDecl (hcurrent hkind (by simp)))
  · rename_i hkind
    refine Delivers.peekSecond ?_
    split
    · rename_i hsecond
      refine Delivers.plainDecl (Delivers.opaqueTypeDecl (hcurrent hkind (by simp)) ?_)
      have hkind : (s.tokenAt 1).kind = .keyword .typeWord := by simpa [Token.isKeyword] using hsecond
      simp [Token.isEndOfFile, hkind]
    · refine Delivers.bind (Delivers.nodeDecl (hcurrent hkind (by simp))) fun result s₁ => ?_
      exact Delivers.finishDecl attr
  · rename_i hkind
    exact Delivers.plainDecl (Delivers.typeAliasDecl (hcurrent hkind (by simp)))
  · rename_i hkind
    exact Delivers.plainDecl (Delivers.varDecl (hcurrent hkind (by simp)))
  · rename_i hkind
    exact Delivers.plainDecl (Delivers.constDecl (hcurrent hkind (by simp)))
  · rename_i hkind
    exact Delivers.plainDecl (Delivers.treeDecl (hcurrent hkind (by simp)))
  · unfold Parser.nothingDeclared
    cases attr with
    | some a => exact Delivers.fail Delivers.expected fun _ => Retains.pure _
    | none =>
        refine Delivers.bind Delivers.danglingDocs fun _ s₁ => Delivers.pure ?_
        rintro h₁ s₀ (⟨-, h₀⟩ | ⟨a, ts, hsome, -⟩)
        · exact .gap (h₀.trans h₁)
        · cases hsome
  · exact hnothing

theorem Delivers.declaration : Delivers declaration s fun decl s' =>
    PartsFrom s (decl.toList.map .decl) (decl.toList.flatMap Decl.stamps) s' := by
  unfold Parser.declaration
  refine Delivers.bind Delivers.docComments fun docs s₁ => ?_
  refine Delivers.bind Delivers.attributeHere fun attr s₂ => ?_
  refine (Delivers.declarationAfter docs attr).mono fun decl s₃ hdecl hattr hdocs => ?_
  exact (hdocs.trans (hdecl s₁ hattr)).as rfl (by simp)

theorem Delivers.moduleDocs : Delivers moduleDocs s fun _ s' => PartsFrom s [] [] s' := by
  have hturn : ∀ docs s', Delivers (moduleDocTurn docs) s' fun _ s'' =>
      PartsFrom s [] [] s' → PartsFrom s [] [] s'' := by
    intro docs s'
    unfold Parser.moduleDocTurn
    refine Delivers.peek ?_
    split
    · rename_i hkind
      exact Delivers.advance_of hkind (by simp) fun s₁ h₁ => Delivers.pure fun h => h.before h₁
    · exact Delivers.pure fun h => h
  exact (Delivers.iterate (fun _ s' => PartsFrom s [] [] s') hturn).mono fun _ _ h =>
    h (.gap (.refl s))

theorem Delivers.programTurn (decls : List Decl) :
    Delivers (programTurn decls) s fun turn s' =>
      ∀ s₀, PartsFrom s₀ (decls.map .decl) (decls.flatMap Decl.stamps) s →
        PartsFrom s₀ (turn.value.map .decl) (turn.value.flatMap Decl.stamps) s' := by
  unfold Parser.programTurn
  refine Delivers.atEnd ?_
  split
  · exact Delivers.pure fun _ h => h
  · refine Delivers.bind (Delivers.orStepOver Delivers.declaration) fun decl s₁ => Delivers.pure ?_
    intro hdecl s₀ h
    exact (h.trans hdecl).as (by simp [Turn.value]) (by simp [Turn.value])

/-- **The declarations of a program lie along its tokens.** -/
theorem Delivers.program : Delivers program s fun program s' =>
    PartsFrom s (program.decls.map .decl) program.stamps s' := by
  unfold Parser.program
  refine Delivers.bind Delivers.moduleDocs fun docs s₁ => ?_
  refine Delivers.bind (Delivers.iterate (fun decls s' => PartsFrom s (decls.map .decl)
    (decls.flatMap Decl.stamps) s') fun decls s' =>
      (Delivers.programTurn decls).mono fun _ _ h => h s) fun decls s₂ => ?_
  exact fun hguarded => ⟨hguarded, fun herrorless => ⟨herrorless, fun hdecls hdocs => hdecls hdocs⟩⟩

end Parser

end BehaviorTree
