import Mathlib.Data.List.InsertIdx
import BehaviorTree.Proofs.Lexical.Cuts
import BehaviorTree.Proofs.Parsing.Removals

/-!
# Programs without one of their imports

The three tokens of an import are taken out of a program on which nothing is reported. If the import
has no documentation, then nothing is reported on what is left, and it is the same program without the
import. If it has some, then the next declaration takes that over, or it is left at the end.
-/

namespace BehaviorTree

/-! ### Documentation in front of a declaration -/

theorem DeclForm.docs_ahead {decl : Decl} {ts : List Terminal} (h : DeclForm decl ts) :
    ∃ first rest, ts = docTerminals decl.head.docs ++ first :: rest ∧ first.kind.isDoc = false := by
  cases h with
  | @mk bs docs hhead hbare =>
      rw [hhead]
      have hfirst : ∃ first rest, bs = first :: rest ∧ first.kind.isDoc = false := by
        cases hbare with
        | node _ _ _ hattribute _ =>
            cases hattribute with
            | absent => exact ⟨_, _, rfl, rfl⟩
            | present hform => cases hform <;> exact ⟨_, _, rfl, rfl⟩
        | _ => exact ⟨_, _, rfl, rfl⟩
      obtain ⟨first, rest, rfl, hkind⟩ := hfirst
      exact ⟨first, rest, rfl, hkind⟩

/-- No declaration starts with documentation for the module. -/
theorem DeclForm.head_ne {decl : Decl} {ts : List Terminal} (h : DeclForm decl ts) :
    ∀ first ∈ ts.head?, ∀ line, first.kind ≠ .moduleDoc line := by
  obtain ⟨other, rest, rfl, hother⟩ := h.docs_ahead
  intro first hfirst line hkind
  cases hdocs : decl.head.docs with
  | nil =>
      rw [hdocs] at hfirst
      obtain rfl : other = first := Option.some.inj hfirst
      rw [hkind] at hother
      cases hother
  | cons doc docs =>
      rw [hdocs] at hfirst
      obtain rfl : Terminal.of (.docComment doc) = first := Option.some.inj hfirst
      cases hkind

/-- In front of something else the lines of documentation are told apart from it. -/
theorem docTerminals_inj {docs docs' : List String} {first first' : Terminal}
    {rest rest' : List Terminal} (hfirst : first.kind.isDoc = false) (hfirst' : first'.kind.isDoc = false)
    (h : docTerminals docs ++ first :: rest = docTerminals docs' ++ first' :: rest') :
    docs = docs' := by
  induction docs generalizing docs' with
  | nil =>
      cases docs' with
      | nil => rfl
      | cons line docs' =>
          rw [(List.cons.inj h).1] at hfirst
          cases hfirst
  | cons line docs ih =>
      cases docs' with
      | nil =>
          rw [← (List.cons.inj h).1] at hfirst'
          cases hfirst'
      | cons line' docs' =>
          obtain ⟨hline, hrest⟩ := List.cons.inj h
          rw [ih hrest, TokenKind.docComment.inj (congrArg Terminal.kind hline)]

/-- The kinds of token that the documentation of an import, or the import itself, can come behind. -/
def TokenKind.precedesImport (kind : TokenKind) : Prop :=
  kind.endsDecl = true ∨ ∃ line, kind = .moduleDoc line

/-- A program without one of its declarations. -/
def Program.without (program : Program) (position : Nat) : Program :=
  { program with decls := program.decls.eraseIdx position }

/-- The tokens of an import: those of its documentation, and those that its range goes through. -/
structure ImportTokens (file : FileId) (head : DeclHead) (docs cut : List Token) : Prop where
  docs : docs.map Token.terminal = docTerminals head.docs
  cut : ∃ word path semi, cut = [word, path, semi] ∧
    head.origin.range = ⟨file, word.range.start, max semi.range.stop word.range.stop⟩

namespace Parser

open ParserState

variable {s t u s' : ParserState} {front last decls decls' : List Decl} {decl : Decl}

/-! ### The declarations of a silent loop -/

theorem Loop.ended (h : Loop programTurn decls s last s') (hend : s.current.isEndOfFile = true) :
    last = decls := by
  cases h with
  | last hdone =>
      rw [programTurn_ended hend] at hdone
      exact (Turn.done.inj hdone).symm
  | turn hagain _ =>
      rw [programTurn_ended hend] at hagain
      cases hagain

/-- Where the file does not end the next declaration is read off the tokens to come. -/
theorem Loop.first (h : Loop programTurn decls s last s') (hready : s.Ready) (hsilent : s'.Silent)
    (hgoes : s.current.isEndOfFile = false) :
    ∃ decl ts us, last[decls.length]? = some decl ∧ DeclForm decl.shape ts ∧ s.coming = ts ++ us := by
  have hturn := (h.behind .programTurn).silent hsilent
  have hquiet := hready.quiet (((Driven.programTurn decls s).reached).silent hturn)
  have hready' := (Reads.programTurn decls hready).1
  have hgoesOn : programTurn decls s = _ := programTurn_goes hquiet.sealed hgoes
  rw [hgoesOn] at hturn hready'
  obtain ⟨decl, ts, hdecl, hform, hcoming⟩ := declaration_reads hready hturn hgoes
  rw [hdecl, Option.toList_some] at hgoesOn
  cases h with
  | last hdone => cases (congrArg Prod.fst hgoesOn).symm.trans hdone
  | turn hagain hlater =>
      obtain rfl := Turn.again.inj ((congrArg Prod.fst hgoesOn).symm.trans hagain)
      rw [hgoesOn] at hlater
      obtain ⟨more, rfl⟩ := hlater.isPrefix (hready'.quiet hturn) hsilent
      exact ⟨decl, ts, _, by simp, hform, hcoming⟩

theorem Loop.head_ne (h : Loop programTurn decls s last s') (hready : s.Ready) (hsilent : s'.Silent) :
    ∀ token ∈ s.rest.head?, ∀ line, token.kind ≠ .moduleDoc line := by
  rw [hready.rest_eq]
  rintro _ ⟨⟩ line hkind
  obtain ⟨decl, ts, us, -, hform, hcoming⟩ :=
    h.first hready hsilent (by rw [Token.isEndOfFile, hkind]; rfl)
  rw [coming, hready.rest_eq] at hcoming
  cases ts with
  | nil => exact hform.ne_nil rfl
  | cons first ts =>
      obtain rfl : s.current.terminal = first := (List.cons.inj hcoming).1
      exact hform.head_ne _ rfl line hkind

/-! ### Without a declaration -/

/-- The second declarations are those of the first without the one at the position. -/
def Lacks (position : Nat) (decls decls' : List Decl) : Prop :=
  position < decls.length ∧ decls'.map Decl.shape = (decls.map Decl.shape).eraseIdx position

theorem Lacks.append {position : Nat} {found found' : Option Decl} (h : Lacks position decls decls')
    (hfound : Alike (Option.map Decl.shape) found found') :
    Lacks position (decls ++ found.toList) (decls' ++ found'.toList) := by
  refine ⟨Nat.lt_of_lt_of_le h.1 (by simp), ?_⟩
  unfold Alike at hfound
  rw [List.map_append, List.map_append, List.eraseIdx_append_of_lt_length (by simpa using h.1), h.2,
    ← Option.toList_map, ← Option.toList_map, hfound]

/-- Behind some tokens the same tokens come as if those had not been there. -/
theorem twins_facing (hreached : Reached s t) (hquiet : s.Quiet) (hquiet' : t.Quiet) (hlevel : t.Level)
    (hfinal : t.final = s.final) :
    Twins (.level (t.position - s.position)) t (s.facing t.rest) :=
  ⟨rfl, congrArg Token.blank hfinal, (Nat.add_sub_of_le hreached.position_le).symm, hlevel,
    fun _ => ⟨hquiet'.gate, hquiet.silent⟩⟩

/-- **Behind a declaration** a silent loop goes on as it would without it. -/
theorem iterate_facing (hready : s.Ready) (hlevel : s.Level)
    (hsilent : (iterate programTurn (front ++ [decl]) (declaration s).2).2.Silent) :
    (iterate programTurn front (s.facing (declaration s).2.rest)).2.Silent ∧
      Lacks front.length (iterate programTurn (front ++ [decl]) (declaration s).2).1
        (iterate programTurn front (s.facing (declaration s).2.rest)).1 := by
  have hruns : Runs declaration := .ofRespects fun _ => .declaration
  have hreached : Reached s (declaration s).2 := hruns s
  have honward := hruns.onward s
  have hbehind : (declaration s).2.Sealed := hreached.sealed hready.sealed
  have hturn : (declaration s).2.Silent :=
    ((Loop.iterate .programTurn hbehind).reached .programTurn).silent hsilent
  have hquiet := hready.quiet (hreached.silent hturn)
  have htwins := twins_facing hreached hquiet (hreached.quiet hquiet hturn)
    (hlevel.of_onward honward) honward.final
  have hstart : Lacks front.length (front ++ [decl]) front := by
    refine ⟨by simp, ?_⟩
    rw [List.map_append, List.eraseIdx_append_of_length_le (by simp)]
    simp
  obtain ⟨hlacks, hends⟩ := Agrees.iterate hstart
    (fun _ _ h => Agrees.programTurnKeeping (fun _ _ hfound => h.append hfound) h) _ _ _ htwins
  exact ⟨(hends.related.2.2 hsilent).2, hlacks⟩

/-- **Documentation is handed on.** If the documentation of a declaration stays where the declaration
was, then a silent loop does not come to the same declarations without it. -/
theorem not_lacks {docs : List Token} {line : String} {lines : List String}
    (hready : (s.facing (docs ++ t.rest)).Ready) (hready' : t.Ready)
    (hdocs : docs.map Token.terminal = docTerminals (line :: lines))
    (hsilent : (iterate programTurn front (s.facing (docs ++ t.rest))).2.Silent)
    (hsilent' : (iterate programTurn (front ++ [decl]) t).2.Silent) :
    ¬Lacks front.length (iterate programTurn (front ++ [decl]) t).1
      (iterate programTurn front (s.facing (docs ++ t.rest))).1 := by
  rintro ⟨-, hlacks⟩
  obtain ⟨first, others, rfl, hfirst, -⟩ := List.map_eq_cons_iff.mp hdocs
  have hkind : first.kind = .docComment line := Token.kind_of_terminal hfirst
  have hgoes : (s.facing (first :: others ++ t.rest)).current.isEndOfFile = false := by
    have hcurrent : (s.facing (first :: others ++ t.rest)).current = first := current_of_rest rfl
    rw [hcurrent, Token.isEndOfFile, hkind]
    rfl
  obtain ⟨found, ts, us, hfound, hform, hcoming⟩ :=
    (Loop.iterate (v := front) .programTurn hready.sealed).first hready hsilent hgoes
  have hloop := Loop.iterate (v := front ++ [decl]) .programTurn hready'.sealed
  have hplace := congrArg (·[front.length]?) hlacks
  rw [List.getElem?_map, hfound, List.getElem?_eraseIdx_of_ge (Nat.le_refl _), List.getElem?_map] at hplace
  cases hend : t.current.isEndOfFile with
  | true =>
      rw [hloop.ended hend, List.getElem?_eq_none (by simp)] at hplace
      cases hplace
  | false =>
      obtain ⟨next, ts', us', hnext, hform', hcoming'⟩ := hloop.first hready' hsilent' hend
      rw [List.length_append, List.length_singleton] at hnext
      rw [hnext] at hplace
      have hsame : found.shape = next.shape := Option.some.inj hplace
      -- the same declaration is read from the tokens with the documentation and from those without
      obtain ⟨start, rest, rfl, hstart⟩ := hform.docs_ahead
      obtain ⟨start', rest', rfl, hstart'⟩ := hform'.docs_ahead
      rw [hsame] at hcoming
      have hwhole : docTerminals next.shape.head.docs ++ start :: (rest ++ us) =
          docTerminals ((line :: lines) ++ next.shape.head.docs) ++ start' :: (rest' ++ us') := by
        have hsplit : (s.facing (first :: others ++ t.rest)).coming =
            docTerminals (line :: lines) ++ t.coming := by
          rw [← hdocs, coming, coming, ← List.map_append]
          rfl
        rw [hsplit, hcoming'] at hcoming
        simpa [docTerminals] using hcoming.symm
      have hlengths := congrArg List.length (docTerminals_inj hstart hstart' hwhole)
      rw [List.length_append, List.length_cons] at hlengths
      omega

/-- The declarations of a silent loop without one of the imports among them. -/
theorem decls_cut {position : Nat} {head : DeclHead} {path : String} {range : SourceRange}
    (hready : s.Ready) (hlevel : s.Level) (hsilent : (iterate programTurn [] s).2.Silent)
    (hdecl : (iterate programTurn [] s).1[position]? = some (.importFile head path range)) :
    ∃ front docs cut behind, s.rest = front ++ (docs ++ (cut ++ behind)) ∧
      (∀ mark ∈ front.getLast?, mark.kind.endsDecl = true) ∧ ImportTokens s.file head docs cut ∧
      (∃ token ∈ behind, token.isEndOfFile = true) ∧
      (∀ token ∈ behind.head?, ∀ line, token.kind ≠ .moduleDoc line) ∧
      ((iterate programTurn [] (s.facing (front ++ (docs ++ behind)))).2.Silent ∧
        Lacks position (iterate programTurn [] s).1
          (iterate programTurn [] (s.facing (front ++ (docs ++ behind)))).1 ↔ head.docs = []) := by
  have hloop := Loop.iterate (v := ([] : List Decl)) .programTurn hready.sealed
  obtain ⟨passed, u, hturns, rfl, hgoes, hfound, hlater⟩ :=
    hloop.reading hready hsilent (Nat.zero_le _) hdecl
  have hruns : Runs declaration := .ofRespects fun _ => .declaration
  have hturn := (hlater.reached .programTurn).silent hsilent
  have hready₁ := ready_turns hturns hready
  have hsilent₁ : u.Silent := (hruns u).silent hturn
  have hready₂ := (Reads.declaration hgoes hready₁).1
  obtain ⟨docs, word, text, semi, hrest₁, hdocs, -, -, -, hrange⟩ :=
    declaration_import hready₁ hturn hgoes hfound
  obtain ⟨front, hrest, hmarks, hfacing⟩ :=
    hturns.facing (hready.quiet ((hloop.reached .programTurn).silent hsilent)) hsilent₁
  have hfile : u.file = s.file := by
    obtain ⟨count, -, hbeside⟩ := (hturns.reached .programTurn).passed
    exact hbeside.file
  have hclosed := hready₂.sealed.closed
  have hthere : ∃ token ∈ docs ++ (declaration u).2.rest, token.isEndOfFile = true := by
    obtain ⟨token, hmem, hend⟩ := hclosed
    exact ⟨token, List.mem_append_right _ hmem, hend⟩
  have hedited : iterate programTurn [] (s.facing (front ++ (docs ++ (declaration u).2.rest))) =
      iterate programTurn passed (u.facing (docs ++ (declaration u).2.rest)) := by
    refine (hfacing _ hthere).iterate .programTurn ⟨hready.sealed.ended, ?_⟩
    obtain ⟨token, hmem, hend⟩ := hthere
    exact ⟨token, List.mem_append_right _ hmem, hend⟩
  obtain ⟨hdecls, hstate⟩ := hlater.unique (Loop.iterate .programTurn hready₂.sealed)
  refine ⟨front, docs, [word, text, semi], (declaration u).2.rest, ?_, hmarks,
    ⟨hdocs, word, text, semi, rfl, hfile ▸ hrange⟩, hclosed, hlater.head_ne hready₂ hsilent, ?_⟩
  · rw [hrest, hrest₁]
    rfl
  · rw [hedited]
    rw [hstate] at hsilent
    rw [hdecls]
    constructor
    · rintro ⟨hsilent', hlacks⟩
      cases hlines : head.docs with
      | nil => rfl
      | cons line lines =>
          rw [hlines] at hdocs
          have hknown : ∀ token ∈ docs, token.kind ≠ .unknown := fun token htoken =>
            hready₁.known token (hrest₁ ▸ List.mem_append_left _ htoken)
          exact (not_lacks (hready₁.facing hready₂ (hruns.onward u).final hknown) hready₂ hdocs hsilent'
            hsilent hlacks).elim
    · intro hnone
      rw [hnone] at hdocs
      obtain rfl := List.map_eq_nil_iff.mp hdocs
      exact iterate_facing hready₁ (hlevel.of_onward (hturns.onward .programTurn)) hsilent

/-! ### Documentation of the module -/

section Docs

variable {docs last : List String} {line : String}

theorem moduleDocTurn_doc (hkind : s.current.kind = .moduleDoc line) :
    moduleDocTurn docs s = (.again (docs ++ [line]), s.skip 1) := by
  have hadvance : advance s = (s.current, s.skip 1) :=
    Prod.ext rfl (advance_of_goes (by simp [Token.isEndOfFile, hkind]))
  simp only [moduleDocTurn, bind, StateT.bind, Parser.peek, hkind, hadvance]
  rfl

theorem moduleDocTurn_done (hkind : ∀ line, s.current.kind ≠ .moduleDoc line) :
    moduleDocTurn docs s = (.done docs, s) := by
  rcases moduleDocTurn_cases docs s with ⟨⟨line, hline⟩, -⟩ | hdone
  · exact absurd hline (hkind line)
  · exact hdone

/-- The documentation of the module is the same in front of any tokens that do not go on with it. -/
theorem Loop.moduleDocs (h : Loop moduleDocTurn docs s last s') (hsealed : s.Sealed) :
    ∃ front, s.rest = front ++ s'.rest ∧ (∀ token ∈ front, ∃ line, token.kind = .moduleDoc line) ∧
      (∀ line, s'.current.kind ≠ .moduleDoc line) ∧
      ∀ tokens, (∀ line, (s'.facing tokens).current.kind ≠ .moduleDoc line) →
        Loop moduleDocTurn docs (s.facing (front ++ tokens)) last (s'.facing tokens) := by
  induction h with
  | @last docs last s hdone =>
      have hstops : ∀ line, s.current.kind ≠ .moduleDoc line := by
        intro line hkind
        rw [moduleDocTurn_doc hkind] at hdone
        cases hdone
      rw [moduleDocTurn_done hstops] at hdone ⊢
      refine ⟨[], rfl, nofun, hstops, fun tokens htokens => ?_⟩
      have hthere : moduleDocTurn docs (s.facing tokens) = _ := moduleDocTurn_done htokens
      have hloop : Loop moduleDocTurn docs (s.facing tokens) last
          (moduleDocTurn docs (s.facing tokens)).2 := .last (by rw [hthere, hdone])
      rwa [hthere] at hloop
  | @turn docs next last s s' hagain hlater ih =>
      rcases moduleDocTurn_cases docs s with ⟨⟨line, hkind⟩, -⟩ | hdone
      · have hrest := hsealed.rest_eq
        have hbehind := (Driven.moduleDocTurn docs s).reached.sealed hsealed
        rw [moduleDocTurn_doc hkind] at hagain hlater hbehind ih
        obtain ⟨front, hfront, hlines, hstops, hloop⟩ := ih hbehind
        refine ⟨s.current :: front, ?_, ?_, hstops, fun tokens htokens => ?_⟩
        · rw [hrest, List.cons_append, ← hfront]
          rfl
        · exact List.forall_mem_cons.mpr ⟨⟨line, hkind⟩, hlines⟩
        · have hcurrent : (s.facing (s.current :: (front ++ tokens))).current = s.current :=
            current_of_rest rfl
          have hlast : ((s.rest.take 1).getLast?.map Token.range).getD s.lastRange = s.current.range := by
            rw [hrest]
            rfl
          have hskip : (s.facing (s.current :: (front ++ tokens))).skip 1 =
              (s.skip 1).facing (front ++ tokens) := by
            unfold ParserState.skip ParserState.facing
            rw [hlast]
            rfl
          have hturn : moduleDocTurn docs (s.facing (s.current :: (front ++ tokens))) = _ :=
            moduleDocTurn_doc (by rw [hcurrent, hkind])
          refine .turn (by rw [List.cons_append, hturn, hagain]) ?_
          rw [List.cons_append, hturn, hskip]
          exact hloop tokens htokens
      · rw [hdone] at hagain
        cases hagain

end Docs

/-! ### Programs -/

theorem program_cut {position : Nat} {head : DeclHead} {path : String} {range : SourceRange}
    (hready : s.Ready) (hlevel : s.Level) (hsilent : (program s).2.Silent)
    (hdecl : (program s).1.decls[position]? = some (.importFile head path range)) :
    ∃ front docs cut behind, s.rest = front ++ (docs ++ (cut ++ behind)) ∧
      (∀ mark ∈ front.getLast?, mark.kind.precedesImport) ∧ ImportTokens s.file head docs cut ∧
      (∃ token ∈ behind, token.isEndOfFile = true) ∧
      ((program (s.facing (front ++ (docs ++ behind)))).2.Silent ∧
        (program (s.facing (front ++ (docs ++ behind)))).1.shape =
          (program s).1.shape.without position ↔ head.docs = []) := by
  have hdocs : Loop moduleDocTurn [] s (moduleDocs s).1 (moduleDocs s).2 :=
    Loop.iterate .moduleDocTurn hready.sealed
  have hready' := (Reads.moduleDocs hready).1
  obtain ⟨lines, hlines, hkinds, hstops, hloop⟩ := Loop.moduleDocs hdocs hready.sealed
  obtain ⟨front, docs, cut, behind, hrest, hmarks, himport, hclosed, hhead, hiff⟩ :=
    decls_cut hready' (hlevel.of_onward (Nearsighted.moduleDocs.onward s)) hsilent hdecl
  have hfile : (moduleDocs s).2.file = s.file := by
    obtain ⟨count, -, hbeside⟩ := (hdocs.reached .moduleDocTurn).passed
    exact hbeside.file
  have hcurrent : ∀ line,
      ((moduleDocs s).2.facing (front ++ (docs ++ behind))).current.kind ≠ .moduleDoc line := by
    intro line
    cases front with
    | cons first front =>
        have hfirst : ((moduleDocs s).2.facing (first :: front ++ (docs ++ behind))).current = first :=
          current_of_rest rfl
        rw [hfirst, ← current_of_rest hrest]
        exact hstops line
    | nil =>
        cases docs with
        | cons doc docs =>
            obtain ⟨text, -, htext⟩ := List.mem_map.mp
              (himport.docs ▸ List.mem_map_of_mem (List.mem_cons_self : doc ∈ doc :: docs))
            have hdoc : ((moduleDocs s).2.facing (doc :: docs ++ behind)).current = doc :=
              current_of_rest rfl
            rw [List.nil_append, hdoc, Token.kind_of_terminal htext.symm]
            nofun
        | nil =>
            cases behind with
            | nil => simp at hclosed
            | cons token behind =>
                have hnext : ((moduleDocs s).2.facing (token :: behind)).current = token :=
                  current_of_rest rfl
                rw [List.nil_append, List.nil_append, hnext]
                exact hhead token rfl line
  have hedited : moduleDocs (s.facing (lines ++ (front ++ (docs ++ behind)))) =
      ((moduleDocs s).1, (moduleDocs s).2.facing (front ++ (docs ++ behind))) := by
    have hsealed : (s.facing (lines ++ (front ++ (docs ++ behind)))).Sealed := by
      obtain ⟨token, hmem, hend⟩ := hclosed
      exact ⟨hready.sealed.ended, token, by simp [ParserState.facing, hmem], hend⟩
    obtain ⟨hvalue, hstate⟩ := (Loop.iterate .moduleDocTurn hsealed).unique (hloop _ hcurrent)
    exact Prod.ext hvalue hstate
  refine ⟨lines ++ front, docs, cut, behind, ?_, ?_, hfile ▸ himport, hclosed, ?_⟩
  · rw [hlines, hrest, List.append_assoc]
  · intro mark hmark
    rw [List.getLast?_append] at hmark
    cases hlast : front.getLast? with
    | some last =>
        rw [hlast, Option.some_or, Option.mem_some_iff] at hmark
        exact .inl (hmark ▸ hmarks last hlast)
    | none =>
        rw [hlast, Option.none_or] at hmark
        exact .inr (hkinds mark (List.mem_of_getLast? hmark))
  · have hlength : position < (program s).1.decls.length := (List.getElem?_eq_some_iff.mp hdecl).1
    rw [List.append_assoc, ← hiff]
    show (iterate programTurn [] (moduleDocs (s.facing _)).2).2.Silent ∧
      (Program.mk .detached (moduleDocs (s.facing _)).1
        ((iterate programTurn [] (moduleDocs (s.facing _)).2).1.map Decl.shape) .none) =
        Program.mk .detached (moduleDocs s).1
          (((iterate programTurn [] (moduleDocs s).2).1.map Decl.shape).eraseIdx position) .none ↔ _
    rw [hedited, Program.mk.injEq]
    simp only [true_and, and_true]
    exact and_congr_right' (and_iff_right hlength).symm

end Parser

/-! ### Streams of tokens -/

namespace Parsed

variable {file file' : FileId} {tokens tokens' : List Token} {arena arena' : Arena} {program : Program}

theorem silent_of_bare (hbare : tokens.map Token.bare = tokens'.map Token.bare)
    (hsilent : (ofTokens file tokens arena).diagnostics = []) :
    (ofTokens file' tokens' arena').diagnostics = [] ∧
      (ofTokens file' tokens' arena').program.shape = (ofTokens file tokens arena).program.shape := by
  have hflat : ofTokens file (tokens.map Token.flat) arena = ofTokens file tokens arena :=
    ofTokens_reflowed (by simp [Token.flat]) (by rw [hsilent]; rfl)
  have htwins : (initial file (tokens.map Token.flat) arena).Twins .same
      (initial file' (tokens'.map Token.flat) arena') :=
    twins_initial (by rw [List.map_map, List.map_map]; exact hbare)
  obtain ⟨hshape, hstates⟩ := Parser.Agrees.program _ _ _ htwins
  have hsilent' : (ofTokens file' (tokens'.map Token.flat) arena').diagnostics = [] := by
    have hseverities := hstates.related.severities
    have hnone : (ofTokens file (tokens.map Token.flat) arena).diagnostics = [] := by rw [hflat, hsilent]
    rw [show (Parser.program (initial file (tokens.map Token.flat) arena)).2.diagnostics = [] from hnone]
      at hseverities
    exact List.map_eq_nil_iff.mp hseverities.symm
  have hflat' : ofTokens file' tokens' arena' = ofTokens file' (tokens'.map Token.flat) arena' :=
    ofTokens_reflowed (by simp [Token.flat]) (by rw [hsilent']; rfl)
  rw [hflat', ← hflat]
  exact ⟨hsilent', hshape.symm⟩

/-- Where the tokens of a text stand does not matter to what is read, if nothing is reported. -/
theorem silent_iff_of_bare (hbare : tokens.map Token.bare = tokens'.map Token.bare) :
    ((ofTokens file tokens arena).diagnostics = [] ∧
        (ofTokens file tokens arena).program.shape = program) ↔
      (ofTokens file' tokens' arena').diagnostics = [] ∧
        (ofTokens file' tokens' arena').program.shape = program := by
  constructor
  · rintro ⟨hsilent, rfl⟩
    exact silent_of_bare hbare hsilent
  · rintro ⟨hsilent, rfl⟩
    exact silent_of_bare hbare.symm hsilent

/-- In front of a stream that ends with the end of the file, and has it at its end alone. -/
theorem initial_closed (file : FileId) (arena : Arena) (before : List Token) {last : Token}
    (hlast : last.isEndOfFile = true) :
    (initial file (before ++ [last]) arena).rest = before ++ [last] ∧
      (initial file (before ++ [last]) arena).final = last := by
  simp [initial, hlast]

/-- Other tokens in front of the same end of the file. -/
theorem initial_facing (file : FileId) (arena : Arena) (before before' : List Token) {last : Token}
    (hlast : last.isEndOfFile = true) :
    (initial file (before ++ [last]) arena).facing (before' ++ [last]) =
      initial file (before' ++ [last]) arena := by
  simp [initial, ParserState.facing, hlast]

theorem exists_of_map_append {α β : Type} {f : α → β} {l : List α} {a b c d : List β}
    (h : l.map f = a ++ (b ++ (c ++ d))) : ∃ a' b' c' d', l = a' ++ (b' ++ (c' ++ d')) ∧
      a'.map f = a ∧ b'.map f = b ∧ c'.map f = c ∧ d'.map f = d := by
  obtain ⟨a', more, rfl, ha, h⟩ := List.map_eq_append_iff.mp h
  obtain ⟨b', more, rfl, hb, h⟩ := List.map_eq_append_iff.mp h
  obtain ⟨c', d', rfl, hc, hd⟩ := List.map_eq_append_iff.mp h
  exact ⟨a', b', c', d', rfl, ha, hb, hc, hd⟩

/-- **Imports can be taken out.** A stream on which nothing is reported has the tokens of each of its
imports in front of others. If they are taken out and the documentation of the import is left there,
then nothing is reported on what remains and the program is the same without the import, if and only
if there is no such documentation. -/
theorem ofTokens_cut {before : List Token} {last : Token} {position : Nat} {head : DeclHead}
    {path : String} {range : SourceRange} (htokens : tokens = before ++ [last])
    (hlast : last.isEndOfFile = true) (hknown : ∀ token ∈ tokens, token.kind ≠ .unknown)
    (hsilent : (ofTokens file tokens arena).diagnostics = [])
    (hdecl : (ofTokens file tokens arena).program.decls[position]? =
      some (.importFile head path range)) :
    ∃ front docs cut behind, tokens = front ++ (docs ++ (cut ++ behind)) ∧
      (∀ mark ∈ front.getLast?, mark.kind.precedesImport) ∧ ImportTokens file head docs cut ∧
      behind ≠ [] ∧ ∀ file' arena' tokens', tokens'.map Token.bare =
        (front ++ (docs ++ behind)).map Token.bare →
          ((ofTokens file' tokens' arena').diagnostics = [] ∧
              (ofTokens file' tokens' arena').program.shape =
                (ofTokens file tokens arena).program.shape.without position ↔ head.docs = []) := by
  have hflat : ofTokens file (tokens.map Token.flat) arena = ofTokens file tokens arena :=
    ofTokens_reflowed (by simp [Token.flat]) (by rw [hsilent]; rfl)
  rw [← hflat] at hsilent hdecl
  have hsplit : tokens.map Token.flat = before.map Token.flat ++ [last.flat] := by
    rw [htokens, List.map_append, List.map_singleton]
  have hclosing : last.flat.isEndOfFile = true := hlast
  obtain ⟨hrest, hfinal⟩ := initial_closed file arena (before.map Token.flat) hclosing
  rw [← hsplit] at hrest hfinal
  have hready : (initial file (tokens.map Token.flat) arena).Ready := by
    refine ⟨by rw [hfinal]; exact hlast, ⟨before.map Token.flat, by rw [hrest, hfinal, hsplit]⟩, ?_,
      fun _ => rfl⟩
    rw [hrest]
    intro token htoken
    obtain ⟨other, hother, rfl⟩ := List.mem_map.mp htoken
    exact hknown other hother
  have hlevel : (initial file (tokens.map Token.flat) arena).Level := by
    refine ⟨by rw [hfinal]; exact hlast, by rw [hfinal]; rfl, ?_⟩
    rw [hrest]
    intro token htoken
    obtain ⟨other, -, rfl⟩ := List.mem_map.mp htoken
    rfl
  obtain ⟨front, docs, cut, behind, hwhole, hmarks, himport, hclosed, hiff⟩ :=
    Parser.program_cut hready hlevel hsilent hdecl
  rw [hrest] at hwhole
  -- the tokens themselves, in their lines
  obtain ⟨front, docs, cut, behind, hreal, rfl, rfl, rfl, rfl⟩ := exists_of_map_append hwhole
  have hbehind : behind ≠ [] := by
    rintro rfl
    simp at hclosed
  refine ⟨front, docs, cut, behind, hreal, ?_, ?_, hbehind, fun file' arena' tokens' hbare => ?_⟩
  · intro mark hmark
    exact hmarks mark.flat (by rw [List.getLast?_map, hmark]; rfl)
  · obtain ⟨word, text, semi, hcut, hplace⟩ := himport.cut
    obtain ⟨word, two, rfl, rfl, htwo⟩ := List.map_eq_cons_iff.mp hcut
    obtain ⟨text, one, rfl, rfl, hone⟩ := List.map_eq_cons_iff.mp htwo
    obtain ⟨semi, nothing, rfl, rfl, hnothing⟩ := List.map_eq_cons_iff.mp hone
    obtain rfl := List.map_eq_nil_iff.mp hnothing
    refine ⟨?_, word, text, semi, rfl, hplace⟩
    rw [← himport.docs, List.map_map]
    rfl
  · obtain ⟨passed, final, hconcat⟩ := (List.eq_nil_or_concat behind).resolve_left hbehind
    rw [List.concat_eq_append] at hconcat
    subst hconcat
    rw [htokens] at hreal
    obtain ⟨-, hends⟩ := List.append_inj' (hreal.trans
      (show _ = (front ++ (docs ++ (cut ++ passed))) ++ [final] by simp)) rfl
    obtain rfl := List.singleton_inj.mp hends
    have hedited : (initial file (tokens.map Token.flat) arena).facing
        (front.map Token.flat ++ (docs.map Token.flat ++ (passed ++ [last]).map Token.flat)) =
          initial file ((front ++ (docs ++ (passed ++ [last]))).map Token.flat) arena := by
      have hfacing := initial_facing file arena (before.map Token.flat)
        ((front ++ (docs ++ passed)).map Token.flat) hclosing
      rw [hsplit]
      simpa using hfacing
    rw [hedited] at hiff
    rw [← hflat, ← hiff]
    refine silent_iff_of_bare ?_
    rw [hbare, List.map_map]
    rfl

end Parsed

/-! ### Texts -/

/-- The text with an edit carried out on it. -/
def FixIt.carriedOut (fix : FixIt) (text : String) : String :=
  String.ofList (takeBytes fix.range.start text.toList ++
    (fix.replacement.toList ++ dropBytes fix.range.stop text.toList))

/-- The text is read as the program, in whatever file it stands, and nothing is reported. -/
def Program.IsReadFrom (program : Program) (text : String) : Prop :=
  ∀ file arena, (Parsed.ofText file text arena).diagnostics = [] ∧
    (Parsed.ofText file text arena).program.shape = program.shape

theorem Program.shape_without (program : Program) (position : Nat) :
    (program.without position).shape = program.shape.without position := by
  simp [Program.without, Program.shape, List.eraseIdx_map]

theorem Placed.of_append {file : FileId} {offset : Nat} {front behind : List Token}
    (h : Placed file offset (front ++ behind)) (hbehind : behind ≠ []) :
    ∃ later, Placed file later behind := by
  induction front generalizing offset with
  | nil => exact ⟨offset, h⟩
  | cons token front ih =>
      rw [List.cons_append] at h
      generalize hrest : front ++ behind = rest at h
      cases h with
      | last => exact absurd (List.append_eq_nil_iff.mp hrest).2 hbehind
      | cons _ _ _ _ hlater => exact ih (hrest ▸ hlater)

/-- In front of another token one has bytes of its own, and the other stands behind it. -/
theorem Placed.of_cons {file : FileId} {offset : Nat} {token : Token} {rest : List Token}
    (h : Placed file offset (token :: rest)) (hrest : rest ≠ []) :
    offset ≤ token.range.start ∧ token.range.start < token.range.stop ∧
      Placed file token.range.stop rest := by
  cases h with
  | last => exact absurd rfl hrest
  | cons _ _ hstart hlt hlater => exact ⟨hstart, hlt, hlater⟩

theorem TokenKind.isDetached_of_precedesImport {kind : TokenKind} (h : kind.precedesImport) :
    kind.IsDetached := by
  rcases h with hends | ⟨line, rfl⟩
  · exact (Bool.or_eq_true_iff.mp hends).imp beq_iff_eq.mp fun h => .inl (beq_iff_eq.mp h)
  · exact .inr (.inr rfl)

namespace ImportTokens

variable {file : FileId} {head : DeclHead} {docs cut front behind : List Token} {offset : Nat}

/-- Nothing in front of the word `import` belongs to it. -/
theorem isDetached (h : ImportTokens file head docs cut)
    (hmarks : ∀ mark ∈ front.getLast?, mark.kind.precedesImport) :
    ∀ mark ∈ (front ++ docs).getLast?, mark.kind.IsDetached := by
  intro mark hmark
  rw [List.getLast?_append] at hmark
  cases hlast : docs.getLast? with
  | none =>
      rw [hlast, Option.none_or] at hmark
      exact TokenKind.isDetached_of_precedesImport (hmarks mark hmark)
  | some doc =>
      rw [hlast, Option.some_or, Option.mem_some_iff] at hmark
      subst hmark
      have hdoc := List.mem_map_of_mem (f := Token.terminal) (List.mem_of_getLast? hlast)
      rw [h.docs] at hdoc
      obtain ⟨line, -, hline⟩ := List.mem_map.mp hdoc
      exact .inr (.inr (by rw [Token.kind_of_terminal hline.symm]; rfl))

/-- The range of the import goes from its first token through its last. -/
theorem range_eq (h : ImportTokens file head docs cut) (hplaced : Placed file offset (cut ++ behind))
    (hbehind : behind ≠ []) : ∃ first final, cut.head? = some first ∧ cut.getLast? = some final ∧
      head.origin.range = ⟨file, first.range.start, final.range.stop⟩ := by
  obtain ⟨word, path, semi, rfl, hrange⟩ := h.cut
  obtain ⟨-, -, hpath⟩ := hplaced.of_cons (List.cons_ne_nil _ _)
  obtain ⟨hword, hwide, hsemi⟩ := hpath.of_cons (List.cons_ne_nil _ _)
  obtain ⟨hlater, hlt, -⟩ := hsemi.of_cons hbehind
  refine ⟨word, semi, rfl, rfl, ?_⟩
  rw [hrange, Nat.max_eq_left (by omega)]

end ImportTokens

namespace Parsed

variable {file : FileId} {arena : Arena} {text : String} {position : Nat} {head : DeclHead}
  {path : String} {range : SourceRange}

/-- What is read silently from a text in one file is read so in any. -/
theorem isReadFrom_of_silent (hsilent : (ofText file text arena).diagnostics = []) (file' : FileId)
    (arena' : Arena) : (ofText file' text arena').program.IsReadFrom text := by
  intro other arena''
  have hseverities : Diagnostics.severities (ofText other text arena'').diagnostics =
      Diagnostics.severities (ofText file text arena).diagnostics := (ofText_alike text).2
  rw [hsilent] at hseverities
  exact ⟨List.map_eq_nil_iff.mp hseverities, (ofText_alike text).1⟩

/-- **The edit that takes out an import** of a text on which nothing is reported leaves the text of
the program without that import if and only if the import has no documentation. -/
theorem ofText_cut (hsilent : (ofText file text arena).diagnostics = [])
    (hdecl : (ofText file text arena).program.decls[position]? = some (.importFile head path range)) :
    ((ofText file text arena).program.without position).IsReadFrom
      (FixIt.carriedOut ⟨head.origin.range, ""⟩ text) ↔ head.docs = [] := by
  obtain ⟨hlexed, hparsed⟩ := List.append_eq_nil_iff.mp hsilent
  have hplaced : Placed file 0 (TokenStream.ofText file text).tokens :=
    TokenStream.placed_scanFrom file 0 text.toList
  obtain ⟨before, last, htokens, hlast, -⟩ := hplaced.ended
  obtain ⟨front, docs, cut, behind, hsplit, hmarks, himport, hbehind, hiff⟩ :=
    ofTokens_cut htokens hlast (TokenStream.known_scanFrom file 0 text.toList hlexed) hparsed hdecl
  rw [← List.append_assoc] at hsplit
  rw [hsplit] at hplaced
  obtain ⟨offset, hcut⟩ := hplaced.of_append (by simp [hbehind])
  obtain ⟨first, final, hfirst, hfinal, hrange⟩ := himport.range_eq hcut hbehind
  have hread := TokenStream.readAs_cut hlexed hsplit (himport.isDetached hmarks) hfirst hfinal hbehind
  have hedited : FixIt.carriedOut ⟨head.origin.range, ""⟩ text = String.ofList
      (takeBytes first.range.start text.toList ++ dropBytes final.range.stop text.toList) := by
    rw [FixIt.carriedOut, hrange]
    rfl
  have heach : ∀ file' arena',
      (ofText file' (FixIt.carriedOut ⟨head.origin.range, ""⟩ text) arena').diagnostics = [] ∧
        (ofText file' (FixIt.carriedOut ⟨head.origin.range, ""⟩ text) arena').program.shape =
          ((ofText file text arena).program.without position).shape ↔ head.docs = [] := by
    intro file' arena'
    obtain ⟨hsilent', hbare⟩ := hread file' 0
    rw [← hiff file' arena' _ (by rw [hbare, List.append_assoc]), Program.shape_without, hedited]
    unfold ofText TokenStream.ofText
    rw [String.toList_ofList]
    dsimp only
    rw [hsilent', List.nil_append]
  exact ⟨fun h => (heach .detached .empty).mp (h .detached .empty),
    fun hnone file' arena' => (heach file' arena').mpr hnone⟩

end Parsed

end BehaviorTree
