import BehaviorTree.Proofs.Parsing.ProgramsResumed

/-!
# Exact recovery

A `;` that was left out at the end of a line costs one report and nothing else: the report says
where it belongs, and the program is the one of the stream with the `;`.
-/

namespace BehaviorTree

/-- The tokens and a `;` behind them end an item. Between square brackets a `;` parts an array from
its length; everywhere else it is a terminator. -/
structure EndsItem (before : List Token) (semi : Token) : Prop where
  isSemi : semi.kind = .punctuation .semi
  balanced : Token.openings before = Token.closings before
  unended : ∀ token ∈ before, token.isEndOfFile = false

theorem SyntaxReport.labels_missingAtLineEnd (what context insertion : String) {place : SourceRange}
    (hplace : place.isLocated = true) :
    (missingAtLineEnd what context insertion place).labels =
      [⟨place, .primary, "expected " ++ what⟩] := by
  show Diagnostic.setPrimaryMessage _ (if place.isLocated then _ else _) = _
  rw [if_pos hplace]
  rfl

namespace Parser

theorem moduleDocs_atSemi (s : ParserState) (hsemi : s.AtSemi) : moduleDocs s = ([], s) := by
  have hturn : moduleDocTurn [] s = (.done [], s) := by
    have hkind : s.current.kind = .punctuation .semi := hsemi
    simp only [moduleDocTurn, bind, StateT.bind, Parser.peek, hkind]
    rfl
  have hloop : moduleDocs s = ([], (moduleDocTurn [] s).2) :=
    iterate_done (congrArg Prod.fst hturn)
  rw [hloop, hturn]

/-- A program does not start with a `;`. -/
theorem Refuses.outline : Refuses outline :=
  Refuses.still (fun s hsemi => ⟨_, moduleDocs_atSemi s hsemi⟩) fun _ =>
    Refuses.declarations.bind (fun s => Grows.iterateAlong Grows.programTurn s.rest [] s) fun _ =>
      Grows.pure _

end Parser

namespace Omission

variable {o : Omission} {s t : ParserState}

/-- The first run ends behind the omission, where the file does. -/
theorem Lands.atEnd {α : Type} {bound : Nat} {rel : α → α → Prop} {a a' : α}
    (hlands : o.Lands bound rel a a' s t) (hend : s.current.isEndOfFile = true) :
    rel a a' ∧ o.next.kind.startsItem = true ∧ o.parted.related s t := by
  obtain ⟨-, coming, -, hfaces⟩ | ⟨hrel, hcrossed | ⟨hstarts, htwins⟩⟩ := hlands
  · cases coming with
    | nil =>
        rw [hfaces.current_nil, Token.isEndOfFile, o.isSemi] at hend
        cases hend
    | cons token coming =>
        rw [hfaces.current, hfaces.isEndOfFile] at hend
        cases hend
  · have hstarts : o.next.kind.startsItem = true := by
      rw [Parser.current_of_rest hcrossed.rest, Token.isEndOfFile, beq_iff_eq] at hend
      rw [hend]
      rfl
    have hparted := hcrossed.twins.related
    rw [books_of_starts hstarts] at hparted
    exact ⟨hrel, hstarts, hparted.position, hparted.passed, hparted.honest, hparted.reported⟩
  · have hparted := htwins.related
    rw [books_of_starts hstarts] at hparted
    exact ⟨hrel, hstarts, hparted⟩

end Omission

namespace Parsed

variable {file : FileId} {before later : List Token} {semi next : Token} {arena : Arena}

/-- What comes behind a token once the stream is closed. -/
def behind (file : FileId) (next : Token) (later : List Token) : List Token :=
  if ((next :: later).getLast?.map Token.isEndOfFile).getD false then later
  else later ++ [closing file (next :: later)]

theorem getLast?_behind (next : Token) (later passed : List Token) :
    (passed ++ next :: later).getLast? = (next :: later).getLast? := by
  rw [List.getLast?_append, List.getLast?_cons, Option.some_or]

theorem rest_initial (file : FileId) (next : Token) (later : List Token) (arena : Arena)
    (passed : List Token) : (initial file (passed ++ next :: later) arena).rest =
      passed ++ next :: behind file next later := by
  have hlast := getLast?_behind next later passed
  unfold initial behind closing
  simp only [hlast]
  split
  · rfl
  · rw [List.append_assoc, List.cons_append]

theorem behind_onNewLine : behind file next.onNewLine later = behind file next later := by
  cases later with
  | nil => rfl
  | cons token later => rfl

theorem final_initial (passed passed' : List Token) (hnext : next.isEndOfFile = false) :
    (initial file (passed ++ next :: later) arena).final =
      (initial file (passed' ++ next.onNewLine :: later) arena).final := by
  unfold initial closing
  simp only [getLast?_behind]
  cases later with
  | nil =>
      have hsame : next.onNewLine.isEndOfFile = next.isEndOfFile := rfl
      simp only [List.getLast?_singleton, Option.map_some, Option.getD_some, hsame, hnext]
      rfl
  | cons token later => rfl

theorem initial_ended (tokens : List Token) : (initial file tokens arena).Ended := by
  unfold ParserState.Ended initial
  cases hlast : tokens.getLast? with
  | none => rfl
  | some last =>
      cases hend : last.isEndOfFile with
      | true => simp [hend]
      | false =>
          simp only [Option.map_some, Option.getD_some, hend]
          rfl

theorem begun_of_silent (hsemi : semi.kind = .punctuation .semi)
    (hsilent : (ofTokens file (before ++ semi :: later) arena).diagnostics = []) :
    before ≠ [] := by
  rintro rfl
  refine Parser.Refuses.outline (initial file (semi :: later) arena) (fun _ => rfl) ?_ hsilent
  have hrest := rest_initial file semi later arena []
  rw [List.nil_append] at hrest
  rw [ParserState.AtSemi, Parser.current_of_rest hrest]
  exact hsemi

section Omitted

variable (file later next arena)

/-- The omission of a `;` from a stream. -/
def omission (hends : EndsItem before semi) (hbegun : before ≠ []) : Omission where
  file := file
  before := before
  semi := semi
  next := next
  later := behind file next later
  final := (initial file (before ++ next.onNewLine :: later) arena).final
  isSemi := hends.isSemi
  balanced := hends.balanced
  unended := hends.unended
  begun := hbegun
  ended := initial_ended _

variable {hends : EndsItem before semi} {hbegun : before ≠ []}

theorem faces_initial :
    (omission file later next arena hends hbegun).Faces 0 before
      (initial file (before ++ semi :: next :: later) arena)
      { initial file (before ++ semi :: next :: later) arena with
        rest := before ++ (omission file later next arena hends hbegun).there
        final := (omission file later next arena hends hbegun).final } where
  file := rfl
  ended := initial_ended _
  final hnext := by
    have hsplit : before ++ semi :: next :: later = (before ++ [semi]) ++ next :: later := by simp
    rw [hsplit]
    exact final_initial _ _ hnext
  passed := ⟨[], rfl, rfl, rfl, nofun⟩
  rest := by
    have hsplit : before ++ semi :: next :: later = (before ++ [semi]) ++ next :: later := by simp
    rw [hsplit, rest_initial, List.append_assoc]
    rfl
  same := rfl

/-- Where an item can start behind the `;`, the second run is the one on the stream without it. -/
theorem initial_omitted (hstarts : next.kind.startsItem = true) :
    { initial file (before ++ semi :: next :: later) arena with
      rest := before ++ (omission file later next arena hends hbegun).there
      final := (omission file later next arena hends hbegun).final } =
        initial file (before ++ next.onNewLine :: later) arena := by
  rw [Omission.there_of_starts hstarts]
  have hrest := rest_initial file next.onNewLine later arena before
  rw [behind_onNewLine] at hrest
  show { initial file (before ++ next.onNewLine :: later) arena with
    rest := before ++ next.onNewLine :: behind file next later } = _
  rw [← hrest]

end Omitted

/-- **Exact recovery.** Leave out a `;` that ends an item of a faultless stream, and let the token
behind it be the first of its line. Then one error is reported, at the end of the token in front,
with an edit that puts the `;` there, and the program is the one it was. -/
theorem ofTokens_missingTerminator (hfile : file.isDetached = false) (hends : EndsItem before semi)
    (hsilent : (ofTokens file (before ++ semi :: next :: later) arena).diagnostics = []) :
    let recovered := ofTokens file (before ++ next.onNewLine :: later) arena
    ∃ last report, before.getLast? = some last ∧ recovered.diagnostics = [report] ∧
      report.severity = .error ∧ report.code = some Code.expectedToken ∧
      report.labels = [⟨.emptyAt file last.range.stop, .primary, "expected `;`"⟩] ∧
      report.fixIts = [⟨.emptyAt file last.range.stop, ";"⟩] ∧
      recovered.program.shape =
        (ofTokens file (before ++ semi :: next :: later) arena).program.shape := by
  intro recovered
  have hbegun : before ≠ [] := begun_of_silent hends.isSemi hsilent
  let o := omission file later next arena hends hbegun
  let s := initial file (before ++ semi :: next :: later) arena
  let t : ParserState := { s with rest := before ++ o.there, final := o.final }
  have hlands := (Parser.Mirrors.outline o before.length).2 s t (fun _ => rfl)
    ⟨before, Nat.lt_succ_self _, faces_initial file later next arena⟩ hsilent
  obtain ⟨⟨hdocs, hdecls⟩, hstarts, hparted⟩ :=
    hlands.atEnd (Parser.outline_atEnd s (initial_ended _))
  have ht : t = initial file (before ++ next.onNewLine :: later) arena :=
    initial_omitted file later next arena hstarts
  rw [ht] at hdocs hdecls hparted
  obtain ⟨context, hreport⟩ := hparted.reported hsilent
  refine ⟨before.getLast hbegun, _, List.getLast?_eq_some_getLast hbegun, hreport, rfl, rfl, ?_,
    rfl, ?_⟩
  · have hplace : (SourceRange.emptyAt o.file o.stop).isLocated = true := by
      show (!file.isDetached) = true
      rw [hfile]
      rfl
    exact SyntaxReport.labels_missingAtLineEnd _ _ _ hplace
  · show (⟨.detached, _, _, .none⟩ : Program) = ⟨.detached, _, _, .none⟩
    exact congrFun (congr (congrArg (Program.mk .detached) hdocs.symm) hdecls.symm) .none

/-- The first of the two calls of a tree loses its `;`. -/
theorem ofTokens_missingTerminator_of_tree :
    let file := FileId.registered 0
    let token (kind : TokenKind) (text : String) : Token := ⟨kind, text, .emptyAt file 0, false⟩
    let call (name : String) : List Token :=
      [token .identifier name, token (.punctuation .lParen) "(", token (.punctuation .rParen) ")"]
    let before := token (.keyword .treeWord) "tree" :: call "Main" ++
      token (.punctuation .lBrace) "\x7b" :: call "Go"
    let semi := token (.punctuation .semi) ";"
    let next := token .identifier "Stop"
    let later := (call "Stop").tail ++ [semi, token (.punctuation .rBrace) "\x7d"]
    let original := ofTokens file (before ++ semi :: next :: later) .empty
    let recovered := ofTokens file (before ++ next.onNewLine :: later) .empty
    EndsItem before semi ∧ original.diagnostics = [] ∧
      ∃ last report, before.getLast? = some last ∧ recovered.diagnostics = [report] ∧
        report.severity = .error ∧ report.code = some Code.expectedToken ∧
        report.labels = [⟨.emptyAt file last.range.stop, .primary, "expected `;`"⟩] ∧
        report.fixIts = [⟨.emptyAt file last.range.stop, ";"⟩] ∧
        recovered.program.shape = original.program.shape := by
  intro file token call before semi next later original recovered
  have hends : EndsItem before semi := ⟨rfl, by decide +kernel, by decide +kernel⟩
  have hsilent : original.diagnostics = [] := by decide +kernel
  exact ⟨hends, hsilent, ofTokens_missingTerminator rfl hends hsilent⟩

end Parsed
end BehaviorTree
