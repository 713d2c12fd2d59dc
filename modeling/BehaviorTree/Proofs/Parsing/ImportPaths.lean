import BehaviorTree.Module.ImportPath
import BehaviorTree.Proofs.Parsing.Accounting

/-!
# Paths of imports

The path of each import in the program of a text is a token of the text, and no two imports have the
same one. So an import can be told by the place of its path.
-/

namespace BehaviorTree

/-- Where the paths of imports among some declarations stand. -/
def pathRanges (decls : List Decl) : List SourceRange :=
  (decls.filterMap Decl.importRequest?).map ImportRequest.pathRange

theorem pathRanges_append (decls more : List Decl) :
    pathRanges (decls ++ more) = pathRanges decls ++ pathRanges more := by
  rw [pathRanges, List.filterMap_append, List.map_append, pathRanges, pathRanges]

/-- A token at the range is the one that is counted. -/
def Ledger.Watches (ledger : Ledger) (range : SourceRange) : Prop :=
  ∀ token ∈ ledger.tokens, token.range = range → ledger.stamp = .name token.asName

namespace Parser

variable {α β : Type} {ledger : Ledger} {gained : Nat} {range : SourceRange} {s : ParserState}

/-! ### Declarations that are no imports -/

/-- Whatever the parser starts from, what it returns has the property. -/
def Yields (p : Parser α) (goal : α → Prop) : Prop := ∀ s, goal (p s).1

theorem Yields.pure {goal : α → Prop} {a : α} (ha : goal a) : Yields (pure a) goal := fun _ => ha

theorem Yields.bind {goal : β → Prop} {p : Parser α} {f : α → Parser β}
    (hf : ∀ a, Yields (f a) goal) : Yields (p >>= f) goal := fun s => hf (p s).1 (p s).2

/-- What is built, if anything is, is no import. -/
def NoImport (build : Option (DeclHead → Decl)) : Prop :=
  ∀ make ∈ build, ∀ head : DeclHead, (make head).importRequest? = none

theorem noImport_none : NoImport none := fun _ hmake => nomatch hmake

theorem noImport_some {make : DeclHead → Decl}
    (hmake : ∀ head, (make head).importRequest? = none) : NoImport (some make) := by
  rintro other (_ | _)
  exact hmake

theorem Yields.abandoned : Yields (do abandonDecl; Pure.pure none) NoImport :=
  .bind fun _ => .pure noImport_none

theorem Yields.nodeDecl (behavior : Option Behavior) : Yields (nodeDecl behavior) NoImport := by
  refine .bind fun _ => .bind fun _ => ?_
  split
  · exact .bind fun _ => .abandoned
  · refine .bind fun _ => .bind fun name => ?_
    cases name with
    | none => exact .abandoned
    | some name => exact .bind fun _ => .bind fun _ => .pure (noImport_some fun _ => rfl)

theorem Yields.opaqueTypeDecl : Yields opaqueTypeDecl NoImport := by
  refine .bind fun _ => .bind fun _ => .bind fun name => ?_
  cases name with
  | none => exact .abandoned
  | some name => exact .bind fun _ => .pure (noImport_some fun _ => rfl)

theorem Yields.typeAliasDecl : Yields typeAliasDecl NoImport := by
  refine .bind fun _ => .bind fun name => ?_
  cases name with
  | none => exact .abandoned
  | some name =>
      refine .bind fun equals => ?_
      cases equals with
      | true => exact .bind fun _ => .bind fun _ => .pure (noImport_some fun _ => rfl)
      | false => exact .bind fun _ => .bind fun _ => .pure (noImport_some fun _ => rfl)

theorem Yields.varDecl : Yields varDecl NoImport := by
  refine .bind fun parts => .pure ?_
  cases parts with
  | none => exact noImport_none
  | some parts => exact noImport_some fun _ => rfl

theorem Yields.constDecl : Yields constDecl NoImport := by
  refine .bind fun parts => .pure ?_
  cases parts with
  | none => exact noImport_none
  | some parts => exact noImport_some fun _ => rfl

theorem Yields.treeDecl : Yields treeDecl NoImport := by
  refine .bind fun _ => .bind fun name => ?_
  cases name with
  | none =>
      refine .bind fun brace => ?_
      cases brace with
      | true => exact .bind fun _ => .pure noImport_none
      | false => exact .pure noImport_none
  | some name => exact .bind fun _ => .bind fun _ => .pure (noImport_some fun _ => rfl)

/-! ### The token of a path -/

/-- What is built is no import with its path at the range, unless that is paid for. -/
def MayImport (range : SourceRange) (build : Option (DeclHead → Decl)) (n : Nat) : Prop :=
  ∀ make ∈ build, ∀ head : DeclHead, (pathRanges [make head]).count range ≤ n

theorem NoImport.mayImport {build : Option (DeclHead → Decl)} (hbuild : NoImport build) (n : Nat) :
    MayImport range build n := by
  intro make hmake head
  simp [pathRanges, hbuild make hmake head]

theorem Accounts.noImport {p : Parser (Option (DeclHead → Decl))}
    {post : Option (DeclHead → Decl) → Nat → Prop} (hp : Accounts ledger 0 p s post)
    (hyields : Yields p NoImport) : Accounts ledger 0 p s (MayImport range) := by
  intro hholds
  obtain ⟨hholds', n, hn, -⟩ := hp hholds
  exact ⟨hholds', n, hn, (hyields s).mayImport n⟩

/-- An import takes its path from a token that it consumes. -/
theorem Accounts.importPath (hwatches : ledger.Watches range) :
    Accounts ledger 0 Parser.importDecl s (MayImport range) := by
  apply Accounts.after Clean.advance
  intro _ s'
  apply Accounts.peek
  split
  · rename_i path hkind
    have hcurrent : s'.current.isEndOfFile = false := by
      rw [Token.isEndOfFile, hkind]
      rfl
    intro hholds
    have hmem := List.mem_of_getElem? (hholds.getElem?_position hcurrent)
    have hpaid : ∀ head : DeclHead,
        (pathRanges [.importFile head path s'.current.range]).count range ≤
          0 + ledger.one (.name s'.current.asName) := by
      intro head
      by_cases hplace : s'.current.range = range
      · rw [Ledger.one, if_pos (hwatches _ hmem hplace).symm]
        simp [pathRanges, Decl.importRequest?, hplace]
      · simp [pathRanges, Decl.importRequest?, hplace]
    refine Accounts.advance hcurrent (fun s'' => ?_) hholds
    apply Accounts.after (Clean.intern _)
    intro _ s₃
    apply Accounts.after (Clean.expectSemi _ _)
    intro _ s₄
    apply Accounts.pure
    rintro make (_ | _)
    exact hpaid
  · refine Accounts.noImport (?_ : Accounts ledger 0 _ s' fun _ _ => True)
      (.bind fun _ => .abandoned)
    apply Accounts.after (Clean.expectedWithHelp _ _)
    intro _ s''
    exact Clean.bind Clean.abandonDecl (fun _ => Clean.pure none) s''

/-- No more declarations have their path at the range than that is paid for. -/
def PaysImports (range : SourceRange) (decls : List Decl) (n : Nat) : Prop :=
  (pathRanges decls).count range ≤ n

theorem Accounts.finishImport {build : Option (DeclHead → Decl)} {docs : Docs} {start : SourceRange}
    {attr : Option SourceRange} (hbuild : MayImport range build gained) :
    Accounts ledger gained (Parser.finishDecl build docs start attr) s fun decl =>
      PaysImports range decl.toList := by
  cases build with
  | none => exact Accounts.pure (Nat.zero_le _)
  | some make =>
      apply Accounts.after (Clean.rangeSince _)
      intro own s'
      have hnew : Accounts ledger gained
          (Parser.newDecl ((attr.map (·.merge own)).getD own) fun origin =>
            make ⟨origin, docs.lines⟩) s' fun decl => PaysImports range [decl] := by
        apply Accounts.newDecl
        intro origin
        exact Nat.le_add_right_of_le (hbuild make rfl ⟨origin, docs.lines⟩)
      exact Accounts.map hnew fun _ _ hdecl => hdecl

theorem Accounts.plainImport {parser : Parser (Option (DeclHead → Decl))}
    (hparser : ∀ s, Accounts ledger 0 parser s (MayImport range)) (docs : Docs)
    (attr : Option Attribute) :
    Accounts ledger 0 (Parser.plainDecl parser docs attr) s fun decl =>
      PaysImports range decl.toList := by
  apply Accounts.peek
  apply Accounts.thread (hparser s)
  intro build n s' hbuild
  cases attr with
  | some attr =>
      apply Accounts.after (Clean.report (SyntaxReport.hasCode_misplacedAttribute _))
      intro _ s''
      exact Accounts.finishImport hbuild
  | none => exact Accounts.finishImport hbuild

theorem Accounts.importAfter (hwatches : ledger.Watches range) (docs : Docs)
    (attr : Option Attribute) :
    Accounts ledger 0 (Parser.declarationAfter docs attr) s fun decl =>
      PaysImports range decl.toList := by
  have hnone : ∀ s, Accounts ledger 0 declarationAfter.noDeclaration s fun decl =>
      PaysImports range decl.toList := by
    intro s
    apply Accounts.after (Clean.expectedWithHelp _ _)
    intro _ s'
    apply Accounts.after (Clean.synchronize _)
    intro _ s''
    exact Accounts.pure (Nat.zero_le _)
  apply Accounts.peek
  split
  · split
    · exact Accounts.after (Clean.skipForeign _) fun _ _ => Accounts.pure (Nat.zero_le _)
    · exact hnone s
  · exact Accounts.plainImport (fun _ => Accounts.importPath hwatches) docs attr
  · apply Accounts.after Clean.peekSecond
    intro second s'
    split
    · exact Accounts.plainImport
        (fun _ => Accounts.opaqueTypeDecl.noImport Yields.opaqueTypeDecl) docs attr
    · apply Accounts.thread ((Accounts.nodeDecl _).noImport (Yields.nodeDecl _))
      intro build n s'' hbuild
      exact Accounts.finishImport hbuild
  · exact Accounts.plainImport
      (fun _ => Accounts.typeAliasDecl.noImport Yields.typeAliasDecl) docs attr
  · exact Accounts.plainImport (fun _ => Accounts.varDecl.noImport Yields.varDecl) docs attr
  · exact Accounts.plainImport (fun _ => Accounts.constDecl.noImport Yields.constDecl) docs attr
  · exact Accounts.plainImport (fun _ => Accounts.treeDecl.noImport Yields.treeDecl) docs attr
  · exact Accounts.after (Clean.nothingDeclared _ _) fun _ _ => Accounts.pure (Nat.zero_le _)
  · exact hnone s

/-! ### Programs -/

theorem Accounts.importTurn (hwatches : ledger.Watches range) {decls : List Decl}
    (hdecls : PaysImports range decls gained) :
    Accounts ledger gained (Parser.programTurn decls) s (Turn.Accounted (PaysImports range)) := by
  have hdeclaration : ∀ s, Accounts ledger 0 Parser.declaration s fun decl =>
      PaysImports range decl.toList := by
    intro s
    apply Accounts.after Clean.docComments
    intro docs s'
    apply Accounts.after Clean.attributeHere
    intro attr s''
    exact Accounts.importAfter hwatches docs attr
  apply Accounts.after Clean.atEnd
  intro ended s'
  split
  · exact Accounts.pure hdecls
  · apply Accounts.bind (Accounts.orStepOver (hdeclaration s'))
    intro decl n s'' hdecl
    apply Accounts.pure
    unfold PaysImports at hdecls hdecl
    simp only [Turn.Accounted, PaysImports, pathRanges_append, List.count_append]
    omega

/-- Each path of an import is paid for by a token. -/
theorem Accounts.imports (hwatches : ledger.Watches range) :
    Accounts ledger 0 Parser.program s fun program n => PaysImports range program.decls n := by
  apply Accounts.after Clean.moduleDocs
  intro docs s'
  have hloop : Accounts ledger 0 (Parser.iterate Parser.programTurn []) s' (PaysImports range) := by
    apply Accounts.iterate
    · exact Nat.zero_le _
    · exact fun decls n s'' hdecls => Accounts.importTurn hwatches hdecls
  apply Accounts.thread hloop
  intro decls n s'' hdecls hholds
  exact ⟨hholds, n, Nat.le_refl _, hdecls⟩

end Parser

namespace Parsed

variable (file : FileId) (text : String) (arena : Arena)

/-- The name that a token at the range would have. -/
theorem exists_watches (range : SourceRange) :
    ∃ name : Name, name.range = range ∧ (ledger file text (.name name)).Watches range := by
  by_cases htoken : ∃ token ∈ (TokenStream.ofText file text).tokens, token.range = range
  · obtain ⟨token, hmem, hrange⟩ := htoken
    refine ⟨token.asName, hrange, fun other hother hplace => ?_⟩
    rw [TokenStream.asName_eq_of_range_eq hmem hother (hrange.trans hplace.symm)]
    rfl
  · exact ⟨⟨"", range⟩, rfl, fun other hother hplace => absurd ⟨other, hother, hplace⟩ htoken⟩

/-- As often as a path stands at the range, so often a token does. -/
theorem count_pathRanges_le (range : SourceRange) :
    (pathRanges (ofText file text arena).program.decls).count range ≤
      ((TokenStream.ofText file text).tokens.map fun token => token.range).count range := by
  obtain ⟨name, rfl, hwatches⟩ := exists_watches file text range
  have hholds : (ledger file text (.name name)).Holds
      (initial file (TokenStream.ofText file text).tokens arena) :=
    holds_initial (TokenStream.placed_scanFrom file 0 text.toList) (.name name)
  obtain ⟨-, n, hn, hpaid⟩ := Parser.Accounts.imports hwatches hholds
  calc (pathRanges (ofText file text arena).program.decls).count name.range
      ≤ n := hpaid
    _ ≤ (ledger file text (.name name)).issued (finalState file text arena) :=
        Nat.le_trans (Nat.le_add_right n _) (Nat.zero_add _ ▸ hn)
    _ ≤ ((TokenStream.ofText file text).tokens.map Token.asName).count name :=
        ((List.take_sublist _ _).map Token.asName).count_le name
    _ ≤ (((TokenStream.ofText file text).tokens.map Token.asName).map Name.range).count name.range :=
        List.count_le_count_map
    _ = ((TokenStream.ofText file text).tokens.map fun token => token.range).count name.range := by
        rw [List.map_map]
        rfl

/-- **Imports are told apart by their paths.** -/
theorem ofText_pathRanges_nodup : (pathRanges (ofText file text arena).program.decls).Nodup := by
  have hplaces : ((TokenStream.ofText file text).tokens.map fun token => token.range).Nodup := by
    have hstarts := (TokenStream.placed_scanFrom file 0 text.toList).nodup_starts
    exact List.Nodup.of_map SourceRange.start (by rwa [List.map_map])
  rw [List.nodup_iff_count_le_one] at hplaces ⊢
  intro range
  exact Nat.le_trans (count_pathRanges_le file text arena range) (hplaces range)

/-- The path of an import stands in the text. -/
theorem ofText_pathRange_file {range : SourceRange}
    (hrange : range ∈ pathRanges (ofText file text arena).program.decls) : range.file = file := by
  have hcount := count_pathRanges_le file text arena range
  have hpositive := List.count_pos_iff.mpr hrange
  obtain ⟨token, htoken, rfl⟩ := List.mem_map.mp (List.count_pos_iff.mp
    (Nat.lt_of_lt_of_le hpositive hcount))
  exact (TokenStream.placed_scanFrom file 0 text.toList).file_eq token htoken

end Parsed

end BehaviorTree
