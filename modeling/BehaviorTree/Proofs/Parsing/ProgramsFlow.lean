import BehaviorTree.Proofs.Parsing.ProgramsLaid
import BehaviorTree.Proofs.Parsing.StatementsFlow
import BehaviorTree.Proofs.Parsing.Terminators

/-!
# Layout

Line breaks between tokens make no difference to a program without errors: the same tokens with other
line breaks are parsed to the same program, in the same arena and with the same warnings.
-/

namespace BehaviorTree

open ParserState

namespace Parser

/-! ### Ports and parameters -/

/-- Where a declaration starts there is no port or parameter. -/
theorem Delivers.param_of_startsIn {s : ParserState} {what : String} {set : RecoverySet}
    (hstarts : s.startsIn false = true) : Delivers (Parser.param what set) s fun _ _ => False := by
  obtain ⟨word, hword⟩ : ∃ word, s.current.kind = .keyword word := by
    unfold startsIn at hstarts
    split at hstarts
    · exact ⟨_, ‹_›⟩
    all_goals cases hstarts
  unfold Parser.param
  refine Delivers.idle (docComments_eq (by simp [hword]) (by simp [hword])) (Delivers.peek ?_)
  refine Delivers.idle (direction_eq (direction?_of_startsIn hstarts)) ?_
  refine Delivers.fail (Delivers.expectName.mono fun name s₁ h => ?_) fun name => ?_
  · obtain ⟨token, hkind, -, hstretch⟩ := h
    have hcurrent : s.current = token := by simp [current, tokenAt, hstretch.rest]
    rw [hcurrent, hkind] at hword
    cases hword
  · cases name with
    | none => exact Retains.pure _
    | some name =>
        dsimp only
        refine Retains.bind (fun _ => Delivers.expectPunctuation.retains) fun found => ?_
        split
        · refine Retains.bind (fun _ => Delivers.typeExpr.retains) fun type => ?_
          refine Retains.bind (fun _ => Delivers.initializer.retains) fun default _ => ?_
          exact Delivers.rangeSince (Delivers.pure trivial)
        · refine Retains.bind Retains.missingType fun type => ?_
          refine Retains.bind (fun _ => Delivers.initializer.retains) fun default _ => ?_
          exact Delivers.rangeSince (Delivers.pure trivial)

theorem Flows.param (what : String) (set : RecoverySet) : Flows (param what set) := by
  refine Flows.bind Flows.docComments fun docs => Flows.peek (fun _ => rfl) fun token => ?_
  refine Flows.bind Flows.direction fun direction => Flows.bind (Flows.expectName _ _) fun name => ?_
  cases name with
  | none => exact Flows.pure _
  | some name =>
      refine Flows.bind (Flows.expectPunctuation _ _ _) fun found => ?_
      split
      · refine Flows.bind Flows.typeExpr fun type => Flows.bind Flows.initializer fun default => ?_
        exact Flows.bind (Flows.rangeSince _) fun _ => Flows.pure _
      · refine Flows.bind Flows.missingType fun type => Flows.bind Flows.initializer fun default => ?_
        exact Flows.bind (Flows.rangeSince _) fun _ => Flows.pure _

theorem Flows.paramTurn (what : String) (params : List Param) : Flows (paramTurn what params) := by
  have hbehind : ∀ param : Option Param, Flows (do
      if ← Parser.listContinues ("to close the " ++ what ++ " list") ("`,` or `)` in " ++ what ++ " list")
          false ([.comma, .rParen, .lBrace] ++ RecoverySet.top) then
        Pure.pure (Turn.again (params ++ param.toList))
      else Pure.pure (Turn.done (params ++ param.toList))) := by
    intro param
    refine Flows.bind Flows.listContinues fun continues => ?_
    split
    · exact Flows.pure _
    · exact Flows.pure _
  refine Flows.listGoesOn (Flows.pure _) ?_ fun s hstarts => ?_
  · exact Flows.bind (Flows.param _ _) hbehind
  · exact Delivers.fail (Delivers.param_of_startsIn hstarts) fun param => (hbehind param).retains

theorem Flows.paramList (what context : String) : Flows (paramList what context) := by
  refine Flows.bind (Flows.expectPunctuation _ _ _) fun opened => ?_
  split
  · exact Flows.iterate (Flows.paramTurn what)
  · exact Flows.pure _

/-! ### Declarations -/

theorem Flows.importDecl : Flows importDecl := by
  refine Flows.advance (fun _ => rfl) fun _ => Flows.peek (fun _ => rfl) fun token => ?_
  split
  · refine Flows.advance (fun _ => rfl) fun _ => Flows.bind (Flows.intern _) fun _ => ?_
    exact Flows.bind (Flows.expectSemi _ _) fun _ => Flows.pure _
  · refine Flows.fail (fun _ => Delivers.expectedWithHelp) fun _ => ?_
    exact Retains.bind Retains.abandonDecl fun _ => Retains.pure _

theorem Flows.nodeDecl (behavior : Option Behavior) : Flows (nodeDecl behavior) := by
  refine Flows.advance (fun _ => rfl) fun _ => Flows.peek (fun _ => rfl) fun token => ?_
  split
  · refine Flows.fail (fun _ => Delivers.expectedWithHelp) fun _ => ?_
    exact Retains.bind Retains.abandonDecl fun _ => Retains.pure _
  · refine Flows.advance (fun _ => rfl) fun _ => Flows.name ?_ fun name => ?_
    · exact Retains.bind Retains.abandonDecl fun _ => Retains.pure _
    · refine Flows.bind (Flows.paramList _ _) fun ports => ?_
      exact Flows.bind (Flows.expectSemi _ _) fun _ => Flows.pure _

theorem Flows.opaqueTypeDecl : Flows opaqueTypeDecl := by
  refine Flows.advance (fun _ => rfl) fun _ => Flows.advance (fun _ => rfl) fun _ => Flows.name ?_ fun name => ?_
  · exact Retains.bind Retains.abandonDecl fun _ => Retains.pure _
  · exact Flows.bind (Flows.expectSemi _ _) fun _ => Flows.pure _

theorem Flows.typeAliasDecl : Flows typeAliasDecl := by
  refine Flows.advance (fun _ => rfl) fun _ => Flows.name ?_ fun name => ?_
  · exact Retains.bind Retains.abandonDecl fun _ => Retains.pure _
  · refine Flows.bind (Flows.expectOperator _ _ _) fun equals => ?_
    split
    · exact Flows.bind Flows.typeExpr fun _ => Flows.bind (Flows.expectSemi _ _) fun _ => Flows.pure _
    · exact Flows.bind Flows.missingType fun _ => Flows.bind (Flows.expectSemi _ _) fun _ => Flows.pure _

theorem Flows.treeBody : Flows treeBody := by
  refine Flows.bind (Flows.atPunctuation _) fun opens => ?_
  split
  · exact Flows.block
  · exact Flows.fail (fun _ => Delivers.missing) fun _ =>
      Retains.bind (Retains.synchronize _) fun _ => Retains.pure _

theorem Flows.treeDecl : Flows treeDecl := by
  refine Flows.advance (fun _ => rfl) fun _ => Flows.name ?_ fun name => ?_
  · refine Retains.atPunctuation fun opens => ?_
    split
    · exact Retains.bind (Retains.skip _) fun _ => Retains.pure _
    · exact Retains.pure _
  · refine Flows.bind (Flows.paramList _ _) fun params => ?_
    exact Flows.bind Flows.treeBody fun _ => Flows.pure _

/-! ### Attributes -/

theorem Flows.policy {α : Type} (what choices : String) (ofSpelling? : String → Option α)
    (set : RecoverySet) : Flows (policy what choices ofSpelling? set) := by
  refine Flows.bind (Flows.expectName _ _) fun name => ?_
  cases name with
  | none => exact Flows.pure _
  | some name =>
      dsimp only
      split
      · exact Flows.pure _
      · exact Flows.bind (Flows.report _) fun _ => Flows.pure _

theorem Flows.flowPolicy (set : RecoverySet) : Flows (flowPolicy set) := by
  refine Flows.bind (Flows.acceptPunctuation _) fun comma => ?_
  split
  · exact Flows.policy _ _ _ _
  · exact Flows.pure _

theorem Flows.policies (set : RecoverySet) : Flows (policies set) := by
  refine Flows.bind (Flows.expectPunctuation _ _ _) fun opened => ?_
  split
  · refine Flows.bind (Flows.policy _ _ _ _) fun data => Flows.bind (Flows.flowPolicy _) fun flow => ?_
    refine Flows.bind (Flows.expectPunctuation _ _ _) fun _ => ?_
    split
    · exact Flows.pure _
    · exact Flows.pure _
  · exact Flows.pure _

theorem Flows.attributeBody (set : RecoverySet) : Flows (attributeBody set) := by
  refine Flows.bind (Flows.expectPunctuation _ _ _) fun opened => ?_
  split
  · refine Flows.bind (Flows.expectName _ _) fun name => ?_
    cases name with
    | none => exact Flows.pure _
    | some name =>
        dsimp only
        split
        · exact Flows.policies _
        · refine Flows.fail (fun _ => Delivers.report rfl) fun _ => ?_
          exact Retains.bind (Retains.synchronize _) fun _ => Retains.pure _
  · exact Flows.pure _

theorem Flows.attributeHere : Flows attributeHere := by
  refine Flows.peek (fun _ => rfl) fun token => Flows.bind (Flows.acceptPunctuation _) fun hash => ?_
  split
  · refine Flows.bind (Flows.attributeBody _) fun policies => ?_
    refine Flows.bind (Flows.expectPunctuation _ _ _) fun _ => ?_
    exact Flows.bind (Flows.rangeSince _) fun _ => Flows.pure _
  · exact Flows.pure _

/-! ### Programs -/

theorem Flows.finishDecl (build : Option (DeclHead → Decl)) (docs : Docs) (start : SourceRange)
    (attr : Option SourceRange) : Flows (finishDecl build docs start attr) := by
  cases build with
  | none => exact Flows.pure _
  | some build => exact Flows.bind (Flows.rangeSince _) fun _ => Flows.map (Flows.newDecl _ _)

theorem Flows.plainDecl {parser : Parser (Option (DeclHead → Decl))} (hparser : Flows parser)
    (docs : Docs) (attr : Option Attribute) : Flows (plainDecl parser docs attr) := by
  refine Flows.peek (fun _ => rfl) fun token => Flows.bind hparser fun build => ?_
  cases attr with
  | none => exact Flows.finishDecl _ _ _ _
  | some attr => exact Flows.bind (Flows.report _) fun _ => Flows.finishDecl _ _ _ _

theorem Flows.declarationAfter (docs : Docs) (attr : Option Attribute) :
    Flows (declarationAfter docs attr) := by
  have hnothing : Flows Parser.declarationAfter.noDeclaration :=
    Flows.fail (fun _ => Delivers.expectedWithHelp) fun _ =>
      Retains.bind (Retains.synchronize _) fun _ => Retains.pure _
  refine Flows.peek (fun _ => rfl) fun token => ?_
  split
  · split
    · exact Flows.fail (fun _ => Delivers.skipForeign) fun _ => Retains.pure _
    · exact hnothing
  · exact Flows.plainDecl Flows.importDecl docs attr
  · refine Flows.peekSecond (fun _ => rfl) fun second => ?_
    split
    · exact Flows.plainDecl Flows.opaqueTypeDecl docs attr
    · exact Flows.bind (Flows.nodeDecl _) fun _ => Flows.finishDecl _ _ _ _
  · exact Flows.plainDecl Flows.typeAliasDecl docs attr
  · exact Flows.plainDecl (Flows.bind (Flows.varParts _) fun _ => Flows.pure _) docs attr
  · exact Flows.plainDecl (Flows.bind (Flows.constParts _) fun _ => Flows.pure _) docs attr
  · exact Flows.plainDecl Flows.treeDecl docs attr
  · cases attr with
    | none => exact Flows.bind (Flows.danglingDocs _) fun _ => Flows.pure _
    | some attr => exact Flows.fail (fun _ => Delivers.expected) fun _ => Retains.pure _
  · exact hnothing

theorem Flows.declaration : Flows declaration :=
  Flows.bind Flows.docComments fun _ => Flows.bind Flows.attributeHere fun _ =>
    Flows.declarationAfter _ _

theorem Flows.moduleDocs : Flows moduleDocs := by
  refine Flows.iterate fun docs => Flows.peek (fun _ => rfl) fun token => ?_
  split
  · exact Flows.advance (fun _ => rfl) fun _ => Flows.pure _
  · exact Flows.pure _

theorem Flows.programTurn (decls : List Decl) : Flows (programTurn decls) := by
  refine Flows.bind Flows.atEnd fun ends => ?_
  split
  · exact Flows.pure _
  · exact Flows.bind (Flows.orStepOver (fun _ => rfl) Flows.declaration) fun _ => Flows.pure _

theorem Flows.program : Flows program := by
  refine Flows.bind Flows.moduleDocs fun docs => ?_
  refine Flows.bind (Flows.iterate Flows.programTurn) fun decls => ?_
  refine Flows.of_same (fun _ hguarded => ⟨hguarded, fun herrorless => ⟨herrorless, trivial⟩⟩)
    fun s t h => ⟨?_, h⟩
  show (⟨t.file, docs, decls, ⟨t.file, 0, t.current.flat.range.stop⟩⟩ : Program) =
    ⟨s.file, docs, decls, ⟨s.file, 0, s.current.flat.range.stop⟩⟩
  rw [h.file, h.current]

end Parser

namespace Parsed

variable {file : FileId} {tokens tokens' : List Token} {arena : Arena}

theorem flat_initial (file : FileId) (tokens : List Token) (arena : Arena) :
    (initial file tokens arena).flat = initial file (tokens.map Token.flat) arena := by
  have hclosing : ∀ range, (⟨.endOfFile, "", range, false⟩ : Token).flat = ⟨.endOfFile, "", range, false⟩ :=
    fun _ => rfl
  unfold initial flat closing
  cases hlast : tokens.getLast? with
  | none => simp [hlast, hclosing]
  | some last =>
      have hrange : last.flat.range = last.range := rfl
      have hend : last.flat.isEndOfFile = last.isEndOfFile := rfl
      cases hended : last.isEndOfFile <;> simp [hlast, hrange, hend, hended, hclosing]

/-- **Layout.** Where no error is reported on a stream of tokens, the same tokens with other line
breaks make the same program, the same arena and the same reports. -/
theorem ofTokens_reflowed (hflat : tokens.map Token.flat = tokens'.map Token.flat)
    (hvalid : Diagnostics.hasErrors (ofTokens file tokens arena).diagnostics = false) :
    ofTokens file tokens' arena = ofTokens file tokens arena := by
  have hinitial : Reflowed (initial file tokens arena) (initial file tokens' arena) := by
    rw [Reflowed, flat_initial, flat_initial, hflat]
  have hguarded : (initial file tokens arena).Guarded := ⟨initial_ended tokens, fun _ => rfl⟩
  obtain ⟨hprogram, hstates⟩ := Parser.Flows.program.run _ _ hguarded hinitial hvalid
  have harena := hstates.arena
  have hdiagnostics := hstates.congr (·.diagnostics)
  show (⟨(Parser.program (initial file tokens' arena)).1,
    (Parser.program (initial file tokens' arena)).2.arena,
    (Parser.program (initial file tokens' arena)).2.diagnostics⟩ : Parsed) = ⟨_, _, _⟩
  rw [hprogram, ← harena]
  exact congrArg _ hdiagnostics.symm

/-- A declaration and a tree over many lines, with all of it on one line. -/
theorem ofTokens_reflowed_of_tree :
    let text := "/// Both\nextern control Both(\n  in n: int32,\n  out m: int32\n);\n" ++
      "tree\nMain() \x7b\n@guard(\nn)\nGo(\na: n,\nn\n[0]\n)\n; x\n= 1; \x7d"
    let stream := TokenStream.ofText .detached text
    let flat := stream.tokens.map Token.flat
    stream.tokens ≠ flat ∧
      stream.tokens.map Token.flat = flat.map Token.flat ∧
      Diagnostics.hasErrors (ofTokens .detached stream.tokens .empty).diagnostics = false ∧
      ofTokens .detached flat .empty = ofTokens .detached stream.tokens .empty := by
  intro text stream flat
  have hflat : stream.tokens.map Token.flat = flat.map Token.flat := by simp [flat, Token.flat]
  have hvalid : Diagnostics.hasErrors (ofTokens .detached stream.tokens .empty).diagnostics = false := by
    decide +kernel
  have hdiffer : stream.tokens ≠ flat := by decide +kernel
  exact ⟨hdiffer, hflat, hvalid, ofTokens_reflowed hflat hvalid⟩

end Parsed

end BehaviorTree
