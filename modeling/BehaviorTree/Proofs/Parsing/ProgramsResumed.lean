import BehaviorTree.Proofs.Parsing.StatementsResumed

/-!
# Programs around a missing terminator

Declarations land like statements do, and so does the program: where the first run reports nothing,
the second one makes one report, and both read the same program.
-/

namespace BehaviorTree.Parser

open ParserState

variable {α β : Type} {o : Omission} {bound : Nat} {token : Token}
  {R : ParserState → ParserState → Prop} {p : Parser α} {rel : α → α → Prop}

/-! ### Declarations -/

/-- What makes a declaration lands. -/
abbrev DeclLands (o : Omission) (bound : Nat) (R : ParserState → ParserState → Prop)
    (parser : Parser (Option (DeclHead → Decl))) : Prop :=
  Mirrored R parser (o.Lands (bound + 1) MayDeclareAlike)

theorem Grows.abandoned {what help : String} : Grows (do
    Parser.expectedWithHelp what help
    Parser.abandonDecl
    Pure.pure (none : Option (DeclHead → Decl))) :=
  (Grows.expectedWithHelp _ _).bind fun _ => Same.abandonDecl.grows.bind fun _ => Grows.pure none

theorem Loud.abandoned {what help : String} : Loud (do
    Parser.expectedWithHelp what help
    Parser.abandonDecl
    Pure.pure (none : Option (DeclHead → Decl))) :=
  Loud.expectedWithHelp_bind (fun _ => Same.abandonDecl.grows.bind fun _ => Grows.pure none) _ _

theorem Mirrors.importDecl (hflat : token.kind.closing = token.kind.opening) :
    DeclLands o bound (o.At 0 (bound + 1) token) importDecl := by
  refine Mirrors.advance (bound + 1) (Nat.le_succ _) (by rw [hflat]) fun _ => ?_
  refine Mirrors.peek_refusing ?_ fun _ _ _ => Loud.abandoned.refuses
  rintro ⟨kind, text, range, line⟩
  dsimp only
  split
  · refine Mirrors.advance (bound + 1) (Nat.le_succ _) rfl fun _ => ?_
    apply Mirrors.next (Mirrors.intern _)
    intro _
    refine Mirrors.terminated fun head head' hhead => ?_
    simp only [Decl.shape, hhead]
  · exact Mirrors.loud Grows.abandoned Loud.abandoned

theorem Mirrors.nodeDecl (behavior : Option Behavior)
    (hflat : token.kind.closing = token.kind.opening) :
    DeclLands o bound (o.At 0 (bound + 1) token) (nodeDecl behavior) := by
  refine Mirrors.advance (bound + 1) (Nat.le_succ _) (by rw [hflat]) fun _ => ?_
  refine Mirrors.peek_refusing ?_ fun _ _ _ => Loud.abandoned.refuses
  intro token
  split
  · exact Mirrors.loud Grows.abandoned Loud.abandoned
  · rename_i category hcategory
    have hflat' : token.kind.closing = token.kind.opening := by
      obtain ⟨word, hword, -⟩ := Option.bind_eq_some_iff.mp hcategory
      rw [Token.kind_of_keyword? hword]
      rfl
    refine Mirrors.advance (bound + 1) (Nat.le_succ _) (by rw [hflat']) fun _ => ?_
    refine Mirrors.expectName (bound + 1) (Nat.le_succ _) (fun name => ?_)
      (Same.abandonDecl.grows.bind fun _ => Grows.pure none)
    apply Mirrors.next (Mirrors.paramList _ _)
    intro ports
    refine Mirrors.terminated fun head head' hhead => ?_
    simp only [Decl.shape, hhead]

/-- The second word of `extern type` is no `;`. -/
theorem Mirrors.opaqueTypeDecl {second : Token} (hflat : token.kind.closing = token.kind.opening)
    (hword : second.kind = .keyword .typeWord) :
    DeclLands o bound (fun s t => o.At 0 (bound + 1) token s t ∧ s.tokenAt 1 = second)
      opaqueTypeDecl := by
  refine Mirrors.advanceTo (bound + 1) (Nat.le_succ _) (by rw [hword]; nofun) (by rw [hflat])
    fun _ => ?_
  refine Mirrors.advance (bound + 1) (Nat.le_succ _) (by rw [hword]; rfl) fun _ => ?_
  refine Mirrors.expectName (bound + 1) (Nat.le_succ _) (fun name => ?_)
    (Same.abandonDecl.grows.bind fun _ => Grows.pure none)
  refine Mirrors.terminated fun head head' hhead => ?_
  simp only [Decl.shape, hhead]

theorem Mirrors.typeAliasDecl (hflat : token.kind.closing = token.kind.opening) :
    DeclLands o bound (o.At 0 (bound + 1) token) typeAliasDecl := by
  refine Mirrors.advance (bound + 1) (Nat.le_succ _) (by rw [hflat]) fun _ => ?_
  refine Mirrors.expectName (bound + 1) (Nat.le_succ _) (fun name => ?_)
    (Same.abandonDecl.grows.bind fun _ => Grows.pure none)
  have hfinish : ∀ type, DeclLands o bound (o.Within 0 (bound + 1)) (do
      Parser.expectSemi "after type alias" .top
      Pure.pure (some (Decl.typeAlias · name type))) := fun type =>
    Mirrors.terminated fun head head' hhead => by simp only [Decl.shape, hhead]
  refine Mirrors.expectOperator (bound + 1) (Nat.le_succ _)
    (Mirrors.next Mirrors.typeExpr hfinish) ?_
  exact Agrees.missingType.grows.bind fun type => (hfinish type).1

theorem Mirrors.varDecl (hflat : token.kind.closing = token.kind.opening) :
    DeclLands o bound (o.At 0 (bound + 1) token) varDecl := by
  refine Mirrors.goOn (Mirrors.varParts _ hflat) (fun parts => Mirrors.settled fun _ _ h => h)
    fun parts parts' hparts => Mirrors.pure fun s t hpast => ⟨?_, hpast⟩
  cases parts <;> cases parts' <;> simp [Alike, VarParts.shape, MayBuildWith] at hparts ⊢
  intro head head' hhead
  simp [Decl.shape, hhead, hparts]

theorem Mirrors.constDecl (hflat : token.kind.closing = token.kind.opening) :
    DeclLands o bound (o.At 0 (bound + 1) token) constDecl := by
  refine Mirrors.goOn (Mirrors.constParts _ hflat) (fun parts => Mirrors.settled fun _ _ h => h)
    fun parts parts' hparts => Mirrors.pure fun s t hpast => ⟨?_, hpast⟩
  cases parts <;> cases parts' <;> simp [Alike, ConstParts.shape, MayBuildWith] at hparts ⊢
  intro head head' hhead
  simp [Decl.shape, hhead, hparts]

theorem Mirrors.treeBody :
    Mirrored (o.Within 0 (bound + 1)) treeBody (o.Lands (bound + 1) (Alike Stmt.shapes)) := by
  have hskips : ∀ _ : Recovery, Grows (do
      Parser.synchronize .top
      Pure.pure ([] : List Stmt)) := fun _ => (Grows.synchronize _).bind fun _ => Grows.pure []
  refine Mirrors.atPunctuation (fun _ => rfl) (fun text range line => Mirrors.block text range line) ?_
  exact Mirrors.loud ((Grows.missing _ _ _).bind hskips) (Loud.missing_bind hskips _ _ _)

theorem Mirrors.treeDecl (hflat : token.kind.closing = token.kind.opening) :
    DeclLands o bound (o.At 0 (bound + 1) token) treeDecl := by
  have hskips : Grows (do
      if ← Parser.atPunctuation .lBrace then Parser.skip Skip.group
      Pure.pure (none : Option (DeclHead → Decl))) := by
    refine (Same.atPunctuation _).grows.bind fun brace => ?_
    split
    · exact (Same.skip fun _ => Skip.group_blank).grows.bind fun _ => Grows.pure none
    · exact Grows.pure none
  refine Mirrors.advance (bound + 1) (Nat.le_succ _) (by rw [hflat]) fun _ => ?_
  refine Mirrors.expectName (bound + 1) (Nat.le_succ _) (fun name => ?_) hskips
  apply Mirrors.next (Mirrors.paramList _ _)
  intro params
  refine Mirrors.goOn Mirrors.treeBody (fun body => Mirrors.settled fun _ _ h => h)
    fun body body' hbody => Mirrors.pure fun s t hpast => ⟨fun head head' hhead => ?_, hpast⟩
  unfold Alike at hbody
  rw [Stmt.shapes_eq_map, Stmt.shapes_eq_map] at hbody
  simp only [Decl.shape, hhead, hbody]

/-! ### What stands around declarations -/

theorem Grows.finishDecl (build : Option (DeclHead → Decl)) (docs : Docs) (start : SourceRange)
    (attr : Option SourceRange) : Grows (finishDecl build docs start attr) := by
  cases build with
  | none => exact Grows.pure none
  | some build => exact (Grows.rangeSince _).bind fun _ => (Grows.newDecl _ _).map

theorem Mirrors.finishDecl (build : Option (DeclHead → Decl)) (docs : Docs) (start : SourceRange)
    (attr : Option SourceRange) : Keeps o 0 bound (finishDecl build docs start attr) := by
  cases build with
  | none => exact Mirrors.pure fun s t hwithin => ⟨rfl, hwithin⟩
  | some build =>
      refine Mirrors.rangeSince fun own => ?_
      exact Mirrors.map (Mirrors.ofArena fun arena =>
        arena.addDecl ((attr.map (·.merge own)).getD own) fun origin => build ⟨origin, docs.lines⟩)
        fun _ s t hwithin => hwithin

/-- Making a declaration of it keeps the runs where they are. -/
theorem Mirrors.finishDecl_past (docs : Docs) {start : SourceRange} {attr : Option SourceRange}
    {build build' : Option (DeclHead → Decl)} (hbuild : MayDeclareAlike build build') :
    Mirrors o.Past (Parser.finishDecl build docs start attr) (Parser.finishDecl build' docs start attr)
      (Passed o (Alike (Option.map Decl.shape))) := by
  cases build with
  | none =>
      cases build' with
      | some _ => exact hbuild.elim
      | none => exact Mirrors.pure fun s t hpast => ⟨rfl, hpast⟩
  | some build =>
      cases build' with
      | none => exact hbuild.elim
      | some build' =>
          exact ⟨Grows.finishDecl _ docs start attr, fun s t _ hpast _ =>
            ⟨congrArg some (hbuild _ _ rfl), hpast.withArena _ _⟩⟩

/-- Where the `;` comes right behind `extern`, the first run reports. -/
theorem Mirrors.nodeDecl_atSemi {behavior : Option Behavior} {second : Token}
    {q : Parser (Option Decl)} {post : Option Decl → Option Decl → ParserState → ParserState → Prop}
    (docs : Docs) (start : SourceRange) (attr : Option SourceRange)
    (hsemi : second.kind = .punctuation .semi) :
    Mirrors (fun s t => o.At 0 bound token s t ∧ s.tokenAt 1 = second)
      (Parser.nodeDecl behavior >>= fun build => Parser.finishDecl build docs start attr) q post := by
  obtain ⟨behind, hnodeDecl, hrefuses⟩ : ∃ behind,
      Parser.nodeDecl behavior = (Parser.advance >>= fun _ => behind) ∧ Refuses behind :=
    ⟨_, rfl, Refuses.peek fun _ _ _ => Loud.abandoned.refuses⟩
  have hnode : Grows (Parser.nodeDecl behavior) :=
    (Agrees.nodeDecl (rfl : Alike (Option.map Behavior.shape) behavior behavior)).grows
  have hfinish : ∀ build, Grows (Parser.finishDecl build docs start attr) :=
    fun build => Grows.finishDecl build docs start attr
  refine ⟨hnode.bind hfinish, fun s t hhonest ⟨⟨coming, _, hfaces⟩, hsecond⟩ hsilent => ?_⟩
  have hsilent' : (Parser.nodeDecl behavior s).2.Silent :=
    (hfinish _ _ (hnode s hhonest).1).2 hsilent
  have hat : (s.skip 1).AtSemi := by
    have hnext : (s.skip 1).current = s.tokenAt 1 := by
      simp [current, tokenAt, ParserState.skip]
    rw [AtSemi, hnext, hsecond, hsemi]
  rw [hnodeDecl] at hsilent'
  change (behind (Parser.advance s).2).2.Silent at hsilent'
  rw [hfaces.advance.1] at hsilent'
  exact (hrefuses (s.skip 1) hhonest hat hsilent').elim

/-- A declaration behind the token that it starts with, which both runs look at. -/
theorem Mirrors.declared {parser : Parser (Option (DeclHead → Decl))}
    (hparser : DeclLands o bound R parser) (docs : Docs) (start : SourceRange)
    (attr : Option SourceRange) :
    Mirrored R (parser >>= fun build => Parser.finishDecl build docs start attr)
      (o.Lands (bound + 1) (Alike (Option.map Decl.shape))) :=
  Mirrors.goOn hparser
    (fun build => (Mirrors.finishDecl build docs start attr).mono fun _ _ _ _ => .inl)
    fun _ _ hbuild => Mirrors.finishDecl_past docs hbuild

theorem Mirrors.plainDecl {parser : Parser (Option (DeclHead → Decl))}
    (hparser : DeclLands o bound R parser) (hR : ∀ s t, R s t → o.At 0 (bound + 1) token s t)
    (docs : Docs) (attr : Option Attribute) :
    Mirrored R (plainDecl parser docs attr)
      (o.Lands (bound + 1) (Alike (Option.map Decl.shape))) := by
  cases attr with
  | none =>
      have hfrom : ∀ start, Mirrored R (parser >>= fun build => Parser.finishDecl build docs start none)
          (o.Lands (bound + 1) (Alike (Option.map Decl.shape))) :=
        fun start => Mirrors.declared hparser docs start none
      refine ⟨fun s => (hfrom s.current.range).1 s, fun s t hhonest h hsilent => ?_⟩
      have hcurrent : t.current = s.current := by
        obtain ⟨coming, -, hfaces⟩ := hR s t h
        rw [hfaces.current, hfaces.current']
      have hrun := (hfrom s.current.range).2 s t hhonest h hsilent
      show o.Lands _ _ _
        ((parser >>= fun build => Parser.finishDecl build docs t.current.range none) t).1 _
        ((parser >>= fun build => Parser.finishDecl build docs t.current.range none) t).2
      rw [hcurrent]
      exact hrun
  | some attr =>
      have hgrows : ∀ start build, Grows (Parser.report (SyntaxReport.misplacedAttribute attr.range) >>=
          fun _ => Parser.finishDecl build docs start none) := fun start build =>
        (Same.report _ _ rfl).grows.bind fun _ => Grows.finishDecl build docs start none
      exact Mirrors.loud
        (Grows.peek fun token => hparser.1.bind fun build => hgrows token.range build)
        fun s hhonest => Loud.report_bind (fun _ => Grows.finishDecl _ docs _ none) _ _
          (hparser.1 s hhonest).1

section Behind

variable (docs : Docs) (attr : Option Attribute)

theorem Mirrors.declarationAfter :
    Mirrored (o.At 0 (bound + 1) token) (declarationAfter docs attr)
      (o.Lands (bound + 1) (Alike (Option.map Decl.shape))) := by
  have hnothing : ∀ token, Mirrored (o.At 0 (bound + 1) token) declarationAfter.noDeclaration
      (o.Lands (bound + 1) (Alike (Option.map Decl.shape))) := fun token =>
    Mirrors.loud ((Grows.expectedWithHelp _ _).bind fun _ => (Grows.synchronize _).bind
      fun _ => Grows.pure none) Loud.noDeclaration
  refine Mirrors.peekAt ?_
  rintro ⟨kind, text, range, line⟩
  dsimp only
  split
  case h_1 =>
    split
    · exact Mirrors.loud ((Same.skipForeign _).grows.bind fun _ => Grows.pure none)
        ((Loud.skipForeign _).bind (Same.skipForeign _).grows fun _ => Grows.pure none)
    · exact hnothing _
  case h_2 => exact Mirrors.plainDecl (Mirrors.importDecl rfl) (fun _ _ h => h) docs attr
  case h_3 =>
    refine Mirrors.peekSecondAt fun second second' hsecond => ?_
    obtain rfl | ⟨hsemi, -⟩ := hsecond
    · split
      · rename_i htype
        exact Mirrors.plainDecl (Mirrors.opaqueTypeDecl rfl (by simpa [Token.isKeyword] using htype))
          (fun _ _ h => h.1) docs attr
      · exact (Mirrors.declared (Mirrors.nodeDecl (attr.bind Attribute.behavior) rfl) docs range
          (attr.map Attribute.range)).weaken fun _ _ h => h.1
    · have hword : second.isKeyword .typeWord = false := by simp [Token.isKeyword, hsemi]
      rw [hword]
      exact Mirrors.nodeDecl_atSemi docs _ _ hsemi
  case h_4 => exact Mirrors.plainDecl (Mirrors.typeAliasDecl rfl) (fun _ _ h => h) docs attr
  case h_5 => exact Mirrors.plainDecl (Mirrors.varDecl rfl) (fun _ _ h => h) docs attr
  case h_6 => exact Mirrors.plainDecl (Mirrors.constDecl rfl) (fun _ _ h => h) docs attr
  case h_7 => exact Mirrors.plainDecl (Mirrors.treeDecl rfl) (fun _ _ h => h) docs attr
  case h_8 =>
    have hgrows : Grows (do
        Parser.nothingDeclared docs attr
        Pure.pure (none : Option Decl)) :=
      (Same.nothingDeclared (rfl : Alike Docs.shape docs docs)
        (rfl : Alike (Option.map attributeShape) attr attr)).grows.bind fun _ => Grows.pure none
    refine ⟨hgrows, fun s t _ hat _ => ?_⟩
    obtain ⟨coming, -, hfaces⟩ := hat
    cases hfaces.isEndOfFile
  case h_9 => exact hnothing _

end Behind

theorem Mirrors.declaration :
    Mirrored (o.At 0 (bound + 1) token) declaration
      (o.Lands (bound + 1) (Alike (Option.map Decl.shape))) := by
  refine Mirrors.nextRefusing (Mirrors.docComments.weaken fun _ _ => Omission.At.within)
    (fun docs => ?_) fun docs token => ?_
  · exact (Opens.behind Idle.attributeHere (fun attr => ⟨Agrees.attributeHere.grows,
      Grows.declarationAfter docs attr⟩) (Opens.declarationAfter docs)).refuses
  · exact Mirrors.nextRefusing (Mirrors.attributeHere.weaken fun _ _ => Omission.At.within)
      (fun attr => (Opens.declarationAfter docs attr).refuses) fun attr token =>
        Mirrors.declarationAfter docs attr

/-! ### The program -/

theorem programTurn_peek (decls : List Decl) :
    programTurn decls = (peek >>= fun token =>
      if token.isEndOfFile then pure (.done decls)
      else (orStepOver declaration fun _ => false) >>= fun decl =>
        pure (.again (decls ++ decl.toList))) := rfl

theorem Grows.programTurn (decls : List Decl) : Grows (programTurn decls) :=
  (Agrees.programTurn (rfl : Alike _ decls decls)).grows

theorem Refuses.programTurn (decls : List Decl) : Refuses (programTurn decls) := by
  intro s hhonest hsemi
  have hend : ¬s.current.isEndOfFile = true := by
    rw [Token.isEndOfFile, show s.current.kind = _ from hsemi]
    decide
  rw [programTurn_eq, if_neg hend]
  exact (Opens.orStepOver Opens.declaration Agrees.declaration.grows).refuses s hhonest hsemi

theorem Mirrors.programTurn (decls : List Decl) :
    Mirrored (o.Within 0 (bound + 1)) (programTurn decls)
      (o.Lands (bound + 1) (Turn.Agrees (Alike (List.map Decl.shape)))) := by
  refine Mirrors.ofAt (fun token => ?_) (Refuses.programTurn decls)
  rw [programTurn_peek]
  refine Mirrors.peekAt fun token => ?_
  split
  · exact Mirrors.settled fun _ _ hat => hat.within
  · refine Mirrors.goOn (Mirrors.orStepOver Mirrors.declaration Opens.declaration
      Agrees.declaration fun _ => rfl) (fun decl => Mirrors.settled fun _ _ h => h)
      fun decl decl' hdecl => Mirrors.pure fun s t hpast => ⟨?_, hpast⟩
    show Alike (List.map Decl.shape) (decls ++ decl.toList) (decls ++ decl'.toList)
    cases decl <;> cases decl' <;> simp [Alike] at hdecl ⊢
    exact hdecl

theorem Blind.programTurn (hend : token.isEndOfFile = false) (decls : List Decl) :
    Blind token (programTurn decls) := by
  rw [programTurn_peek]
  refine Blind.peek (fun _ => rfl) ?_
  split
  · exact Blind.pure _
  · exact Blind.bind (Blind.orStepOver hend (fun _ => rfl) Opens.declaration
      (Blind.declaration hend) Agrees.declaration.reaches)
      (fun _ => ⟨(Agrees.orStepOver (fun _ => rfl) Agrees.declaration).grows, Grows.pure _⟩)
      fun _ => Blind.pure _

theorem Mirrors.programTurn_crossed {decls decls' : List Decl}
    (hdecls : Alike (List.map Decl.shape) decls decls') :
    Mirrors o.Crossed (Parser.programTurn decls) (Parser.programTurn decls')
      (Passed o (Turn.Agrees (Alike (List.map Decl.shape)))) := by
  have hturn := Agrees.programTurn hdecls
  cases hnext : o.next.isEndOfFile with
  | false => exact Mirrors.crossed hnext hturn (Blind.programTurn hnext decls)
  | true =>
      refine Mirrors.crossedEnd hnext hturn.grows fun s t hs ht _ _ => ?_
      rw [programTurn_eq, programTurn_eq, if_pos hs, if_pos ht]
      exact ⟨hdecls, rfl, rfl⟩

/-- The declarations of a program. -/
theorem Mirrors.declarations :
    Mirrored (o.Within 0 (bound + 1)) (Parser.iterate Parser.programTurn [])
      (o.Lands (bound + 1) (Alike (List.map Decl.shape))) :=
  Mirrors.items (fun decls => (Agrees.programTurn (rfl : Alike _ decls decls)).reaches)
    (fun _ _ _ hended hagain => programTurn_shrinks hended hagain)
    (fun _ _ => Agrees.programTurn) Mirrors.programTurn fun _ _ => Mirrors.programTurn_crossed

theorem Refuses.declarations : Refuses (Parser.iterate Parser.programTurn []) :=
  fun s hhonest hsemi hsilent => Refuses.programTurn [] s hhonest hsemi (silent_firstTurn
    Grows.programTurn hhonest hsilent)

/-- The documentation and the declarations of a program. -/
def outline : Parser (List String × List Decl) := do
  let docs ← moduleDocs
  let decls ← iterate programTurn []
  pure (docs, decls)

/-- A program ends at the end of the file. -/
theorem outline_atEnd (s : ParserState) (hended : s.Ended) :
    (outline s).2.current.isEndOfFile = true := by
  have hdone : ∀ decls (s : ParserState) last, (programTurn decls s).1 = .done last →
      (programTurn decls s).2.current.isEndOfFile = true := by
    intro decls s last hdone
    rw [programTurn_eq] at hdone ⊢
    split at hdone
    · rename_i hend
      rw [if_pos hend]
      exact hend
    · cases hdone
  have hbehind : (moduleDocs s).2.Ended := (Same.moduleDocs.reaches s).ended hended
  exact iterate_atEnd (fun decls => (Agrees.programTurn (rfl : Alike _ decls decls)).reaches)
    (fun _ _ _ hended hagain => programTurn_shrinks hended hagain) hdone [] _ hbehind

theorem Mirrors.outline (o : Omission) (bound : Nat) :
    Mirrored (o.Within 0 (bound + 1)) outline
      (o.Lands (bound + 1) fun a a' => a.1 = a'.1 ∧ Alike (List.map Decl.shape) a.2 a'.2) := by
  refine Mirrors.nextRefusing Mirrors.moduleDocs
    (fun docs => Refuses.declarations.bind
      (fun s => Grows.iterateAlong Grows.programTurn s.rest [] s) fun _ => Grows.pure _)
    fun docs token => ?_
  exact Mirrors.goOn (Mirrors.declarations.weaken fun _ _ => Omission.At.within)
    (fun decls => Mirrors.settled fun _ _ h => h)
    fun decls decls' hdecls => Mirrors.pure fun s t hpast => ⟨⟨rfl, hdecls⟩, hpast⟩

end BehaviorTree.Parser
