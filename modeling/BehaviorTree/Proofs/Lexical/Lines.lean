import BehaviorTree.Proofs.Lexical.Tiling

/-!
# Lexing is local to lines

No lexeme reaches over a line feed, and of the gaps only block comments do. So where a text has no
open block comment, the tokens and the reports of what stands behind the next line feed are those of
a text of its own, moved to their place: nothing that is wrong in a line changes a later one.
-/

namespace BehaviorTree

/-! ### Moving to a later place of the file -/

def Token.shift (token : Token) (distance : Nat) : Token :=
  { token with range := token.range.shift distance }

def Label.shift (label : Label) (distance : Nat) : Label :=
  { label with range := label.range.shift distance }

def FixIt.shift (fixIt : FixIt) (distance : Nat) : FixIt :=
  { fixIt with range := fixIt.range.shift distance }

def Diagnostic.shift (diagnostic : Diagnostic) (distance : Nat) : Diagnostic :=
  { diagnostic with
    labels := diagnostic.labels.map (·.shift distance)
    fixIts := diagnostic.fixIts.map (·.shift distance) }

def TokenStream.shift (stream : TokenStream) (distance : Nat) : TokenStream where
  tokens := stream.tokens.map (·.shift distance)
  diagnostics := stream.diagnostics.map (·.shift distance)

theorem Diagnostic.setPrimaryMessage_shift (message : String) (distance : Nat)
    (labels : List Label) :
    setPrimaryMessage message (labels.map (·.shift distance)) =
      (setPrimaryMessage message labels).map (·.shift distance) := by
  induction labels with
  | nil => rfl
  | cons label rest ih =>
      have hprimary : (label.shift distance).isPrimary = label.isPrimary := rfl
      simp only [List.map_cons, setPrimaryMessage, hprimary, ih]
      split <;> rfl

section ShiftDiagnostic

variable (diagnostic : Diagnostic) (text : String) (distance : Nat)

theorem Diagnostic.new_shift (severity : Severity) (range : SourceRange) :
    new severity (range.shift distance) text = (new severity range text).shift distance := by
  have hlocated : (range.shift distance).isLocated = range.isLocated := rfl
  unfold new
  rw [hlocated]
  split <;> rfl

theorem Diagnostic.withCode_shift :
    (diagnostic.shift distance).withCode text = (diagnostic.withCode text).shift distance := rfl

theorem Diagnostic.withHelp_shift :
    (diagnostic.shift distance).withHelp text = (diagnostic.withHelp text).shift distance := rfl

theorem Diagnostic.withLabel_shift :
    (diagnostic.shift distance).withLabel text = (diagnostic.withLabel text).shift distance := by
  simp only [withLabel, shift, setPrimaryMessage_shift]

end ShiftDiagnostic

theorem LexicalFault.report_range_shift (fault : LexicalFault) (range : SourceRange)
    (distance : Nat) :
    fault.report (range.shift distance) = (fault.report range).shift distance := by
  have hnew : Diagnostic.error (range.shift distance) fault.message =
      (Diagnostic.error range fault.message).shift distance := Diagnostic.new_shift _ _ _ _
  unfold report
  rw [hnew, Diagnostic.withCode_shift]
  cases fault with
  | escape fault =>
      dsimp only
      cases fault.help? with
      | none => rfl
      | some help => exact Diagnostic.withHelp_shift _ _ _
  | unterminatedString => simp only [Diagnostic.withLabel_shift, Diagnostic.withHelp_shift]
  | unterminatedComment => simp only [Diagnostic.withLabel_shift, Diagnostic.withHelp_shift]
  | unexpected => rfl
  | number => rfl

theorem LocatedFault.report_base_shift (located : LocatedFault) (file : FileId)
    (base distance : Nat) :
    located.report file (base + distance) = (located.report file base).shift distance := by
  have hrange : (⟨file, base + distance + located.start, base + distance + located.stop⟩ :
      SourceRange) = SourceRange.shift ⟨file, base + located.start, base + located.stop⟩ distance := by
    simp only [SourceRange.shift, Nat.add_right_comm]
  unfold report
  rw [hrange, LexicalFault.report_range_shift]

theorem Lexeme.token_shift (lexeme : Lexeme) (file : FileId) (offset distance : Nat)
    (newlineBefore : Bool) : lexeme.token file (offset + distance) newlineBefore =
      (lexeme.token file offset newlineBefore).shift distance := by
  simp only [token, Token.shift, SourceRange.shift, Nat.add_right_comm]

namespace TokenStream

theorem reports_shift (faults : List LocatedFault) (file : FileId) (base distance : Nat) :
    reports faults file (base + distance) =
      (reports faults file base).map (·.shift distance) := by
  simp only [reports, List.map_map]
  exact List.map_congr_left fun located _ => located.report_base_shift file base distance

/-- Where a text starts in its file moves its tokens and reports and nothing else. -/
theorem scanFrom_shift (file : FileId) (offset distance : Nat) (chars : List Char) :
    scanFrom file (offset + distance) chars = (scanFrom file offset chars).shift distance := by
  fun_induction scanFrom file offset chars with
  | case1 offset chars gap start gapReports hrest =>
      rw [scanFrom_of_rest_nil file _ hrest, reports_shift, Nat.add_right_comm]
      rfl
  | case2 offset chars gap start gapReports c rest hrest scanned stop later ih =>
      rw [scanFrom_of_rest_cons file _ hrest]
      rw [Nat.add_right_comm offset, Nat.add_right_comm _ distance, ih, reports_shift,
        reports_shift, Lexeme.token_shift]
      simp only [shift, List.map_cons, List.map_append]
      rfl

end TokenStream

/-! ### Lexemes -/

section Runs

variable {p : Char → Bool} (line later : List Char)

theorem takeWhile_line (hp : p '\n' = false) :
    (line ++ '\n' :: later).takeWhile p = line.takeWhile p := by
  induction line with
  | nil => simp [hp]
  | cons c line ih => simp only [List.cons_append, List.takeWhile_cons, ih]

theorem dropWhile_line (hp : p '\n' = false) :
    (line ++ '\n' :: later).dropWhile p = line.dropWhile p ++ '\n' :: later := by
  induction line with
  | nil => simp [hp]
  | cons c line ih =>
      simp only [List.cons_append, List.dropWhile_cons, ih]
      split <;> rfl

end Runs

/-- What was read from a text, if a line feed and further text stand behind it. -/
def Lexeme.before (later : List Char) (scanned : Lexeme × List Char) : Lexeme × List Char :=
  (scanned.1, scanned.2 ++ '\n' :: later)

theorem StringLiteral.scanBody_line (line later : List Char) :
    scanBody (line ++ '\n' :: later) =
      { scanBody line with rest := (scanBody line).rest ++ '\n' :: later } := by
  fun_induction scanBody line with
  | case1 => simp [scanBody]
  | case2 => simp [scanBody]
  | case3 rest => simp [scanBody]
  | case4 c rest hc ih => simp [scanBody, hc, ih, Body.push]
  | case5 rest hother => simp [scanBody]
  | case6 rest hline hother => simp [scanBody]
  | case7 c rest hnone hsome hline hquote ih =>
      have hslash : c ≠ '\\' := by
        rintro rfl
        cases rest with
        | nil => exact hnone rfl rfl
        | cons d rest => exact hsome d rest rfl rfl
      rw [List.cons_append, scanBody, if_neg hline, if_neg hquote, ih]
      · rfl
      · exact fun h => absurd h hslash
      · exact fun _ _ h => absurd h hslash

theorem StringLiteral.scan_line (line later : List Char) :
    scan (line ++ '\n' :: later) = Lexeme.before later (scan line) := by
  have hcloser : ((scanBody line).rest ++ '\n' :: later).drop (scanBody line).closer.length =
      (scanBody line).rest.drop (scanBody line).closer.length ++ '\n' :: later := by
    have hrest := scanBody_closer line
    rw [← hrest, List.append_assoc, List.drop_left, List.drop_left]
  simp only [scan, scanBody_line, Lexeme.before]
  rw [← hcloser]
  rfl

namespace NumberLiteral

variable (line later : List Char)

theorem scanFraction_line : scanFraction (line ++ '\n' :: later) =
    ((scanFraction line).1, (scanFraction line).2 ++ '\n' :: later) := by
  rcases line with _ | ⟨c, _ | ⟨d, line⟩⟩
  · simp [scanFraction]
  · by_cases hc : c = '.'
    · simp [scanFraction, hc, Char.isDigit]
    · simp [scanFraction, hc]
  · by_cases hc : c = '.'
    · subst hc
      simp only [scanFraction, List.cons_append]
      rw [← List.cons_append, takeWhile_line _ _ (by decide), dropWhile_line _ _ (by decide)]
      split <;> rfl
    · simp [scanFraction, hc]

theorem signOf_line : signOf (line ++ '\n' :: later) = signOf line := by
  cases line with
  | nil => rfl
  | cons c line => unfold signOf; split <;> simp_all

theorem drop_signOf_line : (line ++ '\n' :: later).drop (signOf line).length =
    line.drop (signOf line).length ++ '\n' :: later := by
  rw [List.drop_append_of_le_length]
  have hwhole := congrArg List.length (signOf_append_drop line)
  rw [List.length_append] at hwhole
  omega

theorem head?_line (p : Char → Bool) (hp : p '\n' = false) :
    (line ++ '\n' :: later).head?.any p = line.head?.any p := by
  cases line with
  | nil => simp [hp]
  | cons c line => rfl

theorem scanExponent_line : scanExponent (line ++ '\n' :: later) =
    ((scanExponent line).1, (scanExponent line).2 ++ '\n' :: later) := by
  cases line with
  | nil => simp [scanExponent]
  | cons e line =>
      simp only [List.cons_append, scanExponent, signOf_line, drop_signOf_line,
        head?_line _ _ _ (by decide : Char.isDigit '\n' = false),
        takeWhile_line _ _ (by decide : isDigitPart '\n' = false),
        dropWhile_line _ _ (by decide : isDigitPart '\n' = false)]
      split <;> rfl

theorem scanDecimal_line : scanDecimal (line ++ '\n' :: later) =
    ((scanDecimal line).1, (scanDecimal line).2 ++ '\n' :: later) := by
  simp only [scanDecimal, takeWhile_line _ _ (by decide : isDigitPart '\n' = false),
    dropWhile_line _ _ (by decide : isDigitPart '\n' = false), scanFraction_line,
    scanExponent_line]

theorem scanMarked_line (mark : RadixMark) (markText : List Char) :
    scanMarked mark markText (line ++ '\n' :: later) =
      Lexeme.before later (scanMarked mark markText line) := by
  simp only [scanMarked, takeWhile_line _ _ (by decide : isWordPart '\n' = false),
    dropWhile_line _ _ (by decide : isWordPart '\n' = false), Lexeme.before]

theorem scan_line : scan (line ++ '\n' :: later) = Lexeme.before later (scan line) := by
  have hdecimal : ((scanDecimal (line ++ '\n' :: later)).1.lexeme,
      (scanDecimal (line ++ '\n' :: later)).2) =
        Lexeme.before later ((scanDecimal line).1.lexeme, (scanDecimal line).2) := by
    rw [scanDecimal_line]
    rfl
  -- a mark takes the second character of the text, which the line feed may be
  rcases line with _ | ⟨c, _ | ⟨d, line⟩⟩
  · exact hdecimal
  · by_cases hc : c = '0'
    · subst hc
      exact hdecimal
    · simpa [scan, hc] using hdecimal
  · by_cases hc : c = '0'
    · subst hc
      cases hmark : RadixMark.ofChar? d with
      | none => simpa [scan, hmark] using hdecimal
      | some mark => simp [scan, hmark, scanMarked_line]
    · simpa [scan, hc] using hdecimal

end NumberLiteral

theorem docMark?_append_line (line later : List Char) : docMark? (line ++ '\n' :: later) =
    (docMark? line).map fun marked => (marked.1, marked.2 ++ '\n' :: later) := by
  rcases line with _ | ⟨c, line⟩
  · rfl
  · by_cases hbang : c = '!'
    · simp [docMark?, hbang]
    · by_cases hslash : c = '/'
      · cases line <;> simp [docMark?, hslash]
        split <;> rfl
      · simp [docMark?, hbang, hslash]

namespace Lexeme

theorem scanName_line (line later : List Char) :
    scanName (line ++ '\n' :: later) = before later (scanName line) := by
  simp only [scanName, takeWhile_line _ _ (by decide : isNamePart '\n' = false),
    dropWhile_line _ _ (by decide : isNamePart '\n' = false), before]

theorem scanDoc?_line (line later : List Char) :
    scanDoc? (line ++ '\n' :: later) = (scanDoc? line).map (before later) := by
  have hline : isInLine '\n' = false := by decide
  cases line with
  | nil => rfl
  | cons c line =>
      by_cases hslash : c = '/'
      · subst hslash
        simp only [List.cons_append, scanDoc?, docMark?_append_line, Option.map_map,
          takeWhile_line _ _ hline]
        refine Option.map_congr fun marked _ => ?_
        simp only [Function.comp_apply, before, takeWhile_line _ _ hline, dropWhile_line _ _ hline]
      · simp [scanDoc?, hslash]

/-- No operator is spelled with a line feed. -/
theorem ofSpelling?_newline (c : Char) (text : List Char) :
    Operator.ofSpelling? (String.ofList (c :: '\n' :: text)) = none := by
  rw [Option.eq_none_iff_forall_ne_some]
  intro op hop
  have hspelling := congrArg String.toList (Operator.spelling_eq_of_ofSpelling? hop)
  rw [String.toList_ofList] at hspelling
  have hnone : ∀ op : Operator, '\n' ∉ op.spelling.toList := by
    intro op
    cases op <;> decide
  exact hnone op (by simp [hspelling])

theorem symbol?_line (c : Char) (line later : List Char) :
    symbol? c (line ++ '\n' :: later) = (symbol? c line).map (before later) := by
  cases line with
  | nil =>
      simp only [symbol?, List.nil_append, List.take_succ_cons, List.take_zero,
        List.singleton_append, ofSpelling?_newline, List.take_nil, List.append_nil,
        List.drop_nil]
      cases Operator.ofSpelling? (String.ofList [c]) with
      | some op => rfl
      | none => cases Punctuation.ofSpelling? (String.ofList [c]) <;> rfl
  | cons d line =>
      simp only [symbol?, List.cons_append, List.nil_append, List.take_succ_cons, List.take_zero,
        List.drop_succ_cons, List.drop_zero]
      cases Operator.ofSpelling? (String.ofList [c, d]) with
      | some op => rfl
      | none =>
          cases Operator.ofSpelling? (String.ofList [c]) with
          | some op => rfl
          | none => cases Punctuation.ofSpelling? (String.ofList [c]) <;> rfl

theorem scanSymbol_line (c : Char) (line later : List Char) :
    scanSymbol c (line ++ '\n' :: later) = before later (scanSymbol c line) := by
  have hends : (!endsUnknown '\n') = false := by decide
  unfold scanSymbol
  rw [symbol?_line, takeWhile_line (p := fun c => !endsUnknown c) _ _ hends,
    dropWhile_line (p := fun c => !endsUnknown c) _ _ hends]
  cases symbol? c line <;> rfl

/-- **No lexeme reaches over a line feed.** -/
theorem scan_line (c : Char) (line later : List Char) :
    scan c (line ++ '\n' :: later) = before later (scan c line) := by
  unfold scan
  rw [StringLiteral.scan_line, ← List.cons_append, NumberLiteral.scan_line, scanName_line,
    scanDoc?_line, scanSymbol_line]
  split
  · rfl
  · split
    · rfl
    · split
      · rfl
      · split
        · cases scanDoc? line <;> rfl
        · rfl

end Lexeme

/-! ### Gaps -/

namespace Gap

def Mode.shift (distance : Nat) : Mode → Mode
  | block start inner => block (start + distance) inner
  | mode => mode

def shift (gap : Gap) (distance : Nat) : Gap := { gap with mode := gap.mode.shift distance }

theorem Mode.close_shift (start inner distance : Nat) :
    (block (start + distance) inner).close = (block start inner).close.shift distance := by
  cases inner <;> rfl

variable {c : Char} {chars rest : List Char}

theorem scanFrom_blank (offset : Nat) (hblank : isBlank c = true) : scanFrom offset .between (c :: rest) =
    (scanFrom (offset + c.utf8Size) .between rest).push [c] := by
  have hslash : c ≠ '/' := by
    rintro rfl
    exact absurd hblank (by decide)
  rw [scanFrom, if_pos hblank]
  · exact fun _ h => absurd h hslash
  · exact fun _ h => absurd h hslash

/-- A gap ends where no comment opens and no blank stands. -/
theorem scanFrom_stop (offset : Nat) (hopening : ∀ more, c = '/' → rest = '*' :: more → False)
    (hline : ∀ more, c = '/' → rest = '/' :: more → False) (hblank : ¬ isBlank c = true) :
    scanFrom offset .between (c :: rest) = ⟨[], c :: rest, .between⟩ := by
  rw [scanFrom, if_neg hblank]
  · exact hopening
  · exact hline

theorem scanFrom_doc (offset : Nat) (hdoc : (docMark? rest).isSome = true) :
    scanFrom offset .between ('/' :: '/' :: rest) = ⟨[], '/' :: '/' :: rest, .between⟩ := by
  rw [scanFrom, if_pos hdoc]

theorem scanFrom_comment (offset : Nat) (hdoc : ¬ (docMark? rest).isSome = true) :
    scanFrom offset .between ('/' :: '/' :: rest) =
      (scanFrom (offset + 2) .line rest).push ['/', '/'] := by
  rw [scanFrom, if_neg hdoc]

theorem scanFrom_inLine (offset : Nat) : scanFrom offset .line (c :: rest) =
    (scanFrom (offset + c.utf8Size) (if c = '\n' then .between else .line) rest).push [c] := by
  rw [scanFrom]

/-- Where a gap starts only moves the place of the comment that it ends in. -/
theorem scanFrom_shift (offset distance : Nat) (mode : Mode) (chars : List Char) :
    scanFrom (offset + distance) (mode.shift distance) chars =
      (scanFrom offset mode chars).shift distance := by
  fun_induction scanFrom offset mode chars with
  | case1 offset mode => simp [scanFrom, shift]
  | case2 offset start inner rest ih =>
      rw [Nat.add_right_comm] at ih
      exact congrArg (push ['/', '*']) ih
  | case3 offset start inner rest ih =>
      rw [← Mode.close_shift, Nat.add_right_comm] at ih
      exact congrArg (push ['*', '/']) ih
  | case4 offset start inner c rest hopening hclosing ih =>
      rw [Nat.add_right_comm] at ih
      exact (scanFrom_other (not_startsMark_cons hopening hclosing)).trans (congrArg (push [c]) ih)
  | case5 offset c rest ih =>
      have hmode : (if c = '\n' then Mode.between else .line).shift distance =
          if c = '\n' then .between else .line := by
        split <;> rfl
      rw [hmode, Nat.add_right_comm] at ih
      exact (scanFrom_inLine _).trans (congrArg (push [c]) ih)
  | case6 offset rest ih =>
      rw [Nat.add_right_comm] at ih
      exact congrArg (push ['/', '*']) ih
  | case7 offset rest hdoc => exact scanFrom_doc _ hdoc
  | case8 offset rest hdoc ih =>
      rw [Nat.add_right_comm] at ih
      exact (scanFrom_comment _ hdoc).trans (congrArg (push ['/', '/']) ih)
  | case9 offset c rest _ _ hblank ih =>
      rw [Nat.add_right_comm] at ih
      exact (scanFrom_blank _ hblank).trans (congrArg (push [c]) ih)
  | case10 offset c rest hopening hline hblank => exact scanFrom_stop _ hopening hline hblank

/-- The gap, if a line feed and further text stand behind what follows it. -/
def before (later : List Char) (gap : Gap) : Gap := { gap with rest := gap.rest ++ '\n' :: later }

theorem not_cons_line {mark : Char} {later : List Char} (hmark : mark ≠ '\n')
    (hnone : ∀ more, c = '/' → rest = mark :: more → False) :
    ∀ more, c = '/' → rest ++ '\n' :: later = mark :: more → False := by
  intro more hslash hcons
  cases rest with
  | nil => exact hmark (List.cons.inj hcons).1.symm
  | cons d rest => exact hnone rest hslash (by rw [(List.cons.inj hcons).1])

theorem not_startsMark_line (later : List Char) (hmark : ¬ StartsMark (c :: rest)) :
    ¬ StartsMark (c :: (rest ++ '\n' :: later)) := by
  cases rest with
  | nil => simp [StartsMark]
  | cons d rest => exact mt (startsMark_of_append (List.cons_ne_nil _ _)) hmark

theorem docMark?_isSome_line (line later : List Char) :
    (docMark? (line ++ '\n' :: later)).isSome = (docMark? line).isSome := by
  rw [docMark?_append_line, Option.isSome_map]

/-- A gap that something follows in its text is not changed by more text behind a line feed. -/
theorem scanFrom_before (offset : Nat) (mode : Mode) (chars later : List Char)
    (hrest : (scanFrom offset mode chars).rest ≠ []) :
    scanFrom offset mode (chars ++ '\n' :: later) =
      (scanFrom offset mode chars).before later := by
  fun_induction scanFrom offset mode chars with
  | case1 => exact absurd rfl hrest
  | case2 offset start inner rest ih => exact congrArg (push ['/', '*']) (ih hrest)
  | case3 offset start inner rest ih => exact congrArg (push ['*', '/']) (ih hrest)
  | case4 offset start inner c rest hopening hclosing ih =>
      have hmark := not_startsMark_line later (not_startsMark_cons hopening hclosing)
      exact (scanFrom_other hmark).trans (congrArg (push [c]) (ih hrest))
  | case5 offset c rest ih => exact (scanFrom_inLine _).trans (congrArg (push [c]) (ih hrest))
  | case6 offset rest ih => exact congrArg (push ['/', '*']) (ih hrest)
  | case7 offset rest hdoc =>
      rw [← docMark?_isSome_line rest later] at hdoc
      exact scanFrom_doc _ hdoc
  | case8 offset rest hdoc ih =>
      rw [← docMark?_isSome_line rest later] at hdoc
      exact (scanFrom_comment _ hdoc).trans (congrArg (push ['/', '/']) (ih hrest))
  | case9 offset c rest _ _ hblank ih =>
      exact (scanFrom_blank _ hblank).trans (congrArg (push [c]) (ih hrest))
  | case10 offset c rest hopening hline hblank =>
      exact scanFrom_stop _ (not_cons_line (by decide) hopening) (not_cons_line (by decide) hline)
        hblank

theorem push_through {gap : Gap} {front line later : List Char} {offset size : Nat}
    (hsize : byteLength front = size)
    (hgap : gap = (scanFrom (offset + size + byteLength line) .between later).push line) :
    gap.push front = (scanFrom (offset + byteLength (front ++ line)) .between later).push
      (front ++ line) := by
  rw [hgap, push_push, byteLength_append, hsize, Nat.add_assoc]

/-- A gap to the end of its text that does not end inside a block comment goes on in the next line
as if it started there. -/
theorem scanFrom_through (offset : Nat) (mode : Mode) (chars later : List Char)
    (hrest : (scanFrom offset mode chars).rest = [])
    (hmode : (scanFrom offset mode chars).mode.ending ≠ .block) :
    scanFrom offset mode (chars ++ '\n' :: later) =
      (scanFrom (offset + byteLength (chars ++ ['\n'])) .between later).push (chars ++ ['\n']) := by
  fun_induction scanFrom offset mode chars with
  | case1 offset mode =>
      cases mode with
      | between => exact scanFrom_blank _ rfl
      | line => exact scanFrom_inLine _
      | block => exact absurd rfl hmode
  | case2 offset start inner rest ih => exact push_through rfl (ih hrest hmode)
  | case3 offset start inner rest ih => exact push_through rfl (ih hrest hmode)
  | case4 offset start inner c rest hopening hclosing ih =>
      have hmark := not_startsMark_line later (not_startsMark_cons hopening hclosing)
      exact (scanFrom_other hmark).trans (push_through rfl (ih hrest hmode))
  | case5 offset c rest ih =>
      exact (scanFrom_inLine _).trans (push_through rfl (ih hrest hmode))
  | case6 offset rest ih => exact push_through rfl (ih hrest hmode)
  | case7 => cases hrest
  | case8 offset rest hdoc ih =>
      rw [← docMark?_isSome_line rest later] at hdoc
      exact (scanFrom_comment _ hdoc).trans (push_through rfl (ih hrest hmode))
  | case9 offset c rest _ _ hblank ih =>
      exact (scanFrom_blank _ hblank).trans (push_through rfl (ih hrest hmode))
  | case10 => cases hrest

/-- The gap of a text that is nothing but one, if further lines follow. -/
theorem scan_through {chars : List Char} (later : List Char) (hrest : (scan chars).rest = [])
    (hmode : (scan chars).mode.ending ≠ .block) : scan (chars ++ '\n' :: later) =
      ((scan later).shift (byteLength (chars ++ ['\n']))).push (chars ++ ['\n']) :=
  (scanFrom_through 0 .between chars later hrest hmode).trans
    (congrArg (push _) (scanFrom_shift 0 _ .between later))

theorem faults_shift (gap : Gap) (distance : Nat) :
    (gap.shift distance).faults = gap.faults.map (·.shift distance) := by
  rcases gap with ⟨text, rest, mode⟩
  cases mode with
  | block start inner =>
      simp only [shift, Mode.shift, faults, List.map_cons, List.map_nil, LocatedFault.shift,
        Nat.add_right_comm start 2]
  | _ => rfl

end Gap

/-! ### Streams -/

namespace TokenStream

theorem reports_map_shift (faults : List LocatedFault) (file : FileId) (base distance : Nat) :
    reports (faults.map (·.shift distance)) file base = reports faults file (base + distance) := by
  simp only [reports, List.map_map]
  exact List.map_congr_left fun located _ => located.report_shift file base distance

/-- Behind a gap with a line feed in it a text is read as if it started there. -/
theorem scanFrom_of_gap (file : FileId) (offset : Nat) {chars front later : List Char}
    (hline : '\n' ∈ front)
    (hgap : Gap.scan chars = ((Gap.scan later).shift (byteLength front)).push front) :
    scanFrom file offset chars =
      ⟨(scanFrom file (offset + byteLength front) later).tokens.modifyHead Token.onNewLine,
        (scanFrom file (offset + byteLength front) later).diagnostics⟩ := by
  have hstart : offset + byteLength (Gap.scan chars).text =
      offset + byteLength front + byteLength (Gap.scan later).text := by
    rw [hgap, Gap.text_push, byteLength_append, Nat.add_assoc]
    rfl
  have hnewline : (Gap.scan chars).hasNewline = true := by
    rw [hgap]
    simp [Gap.hasNewline, hline]
  have hfaults : reports (Gap.scan chars).faults file offset =
      reports (Gap.scan later).faults file (offset + byteLength front) := by
    rw [← reports_map_shift, ← Gap.faults_shift, hgap]
    rfl
  have hrest : (Gap.scan chars).rest = (Gap.scan later).rest := by
    rw [hgap]
    rfl
  cases hlater : (Gap.scan later).rest with
  | nil =>
      rw [scanFrom_of_rest_nil file _ (hrest.trans hlater), scanFrom_of_rest_nil file _ hlater,
        hstart, hnewline, hfaults]
      rfl
  | cons c rest =>
      rw [scanFrom_of_rest_cons file _ (hrest.trans hlater),
        scanFrom_of_rest_cons file _ hlater, hstart, hnewline, hfaults]
      rfl

/-- Reading goes on behind a line feed with the tokens and reports of the rest of the text. -/
theorem scanFrom_line (file : FileId) (offset : Nat) (chars later : List Char)
    (hclosed : commentReports (scanFrom file offset chars).diagnostics = 0) :
    scanFrom file offset (chars ++ '\n' :: later) =
      ⟨(scanFrom file offset chars).tokens.dropLast ++
          (scanFrom file (offset + byteLength (chars ++ ['\n'])) later).tokens.modifyHead
            Token.onNewLine,
        (scanFrom file offset chars).diagnostics ++
          (scanFrom file (offset + byteLength (chars ++ ['\n'])) later).diagnostics⟩ := by
  fun_induction scanFrom file offset chars with
  | case1 offset chars gap start gapReports hrest =>
      have hmode : gap.mode.ending ≠ .block := by
        intro hblock
        rw [commentReports_gap, if_pos hblock] at hclosed
        cases hclosed
      have hsilent : gapReports = [] := by
        have hfaults : gap.faults = [] := by
          cases hkind : gap.mode with
          | block => exact absurd (congrArg Gap.Mode.ending hkind) hmode
          | _ => simp [Gap.faults, hkind]
        exact congrArg (reports · file offset) hfaults
      rw [scanFrom_of_gap file offset (by simp) (Gap.scan_through later hrest hmode), hsilent]
      rfl
  | case2 offset chars gap start gapReports c rest hrest scanned stop rest' ih =>
      have hgap : Gap.scan (chars ++ '\n' :: later) = gap.before later :=
        Gap.scanFrom_before 0 .between chars later (hrest ▸ List.cons_ne_nil _ _)
      have hnext : (Gap.scan (chars ++ '\n' :: later)).rest = c :: (rest ++ '\n' :: later) := by
        rw [hgap]
        exact congrArg (· ++ '\n' :: later) hrest
      have hstop : stop + byteLength (scanned.2 ++ ['\n']) =
          offset + byteLength (chars ++ ['\n']) := by
        have hchars : byteLength chars = byteLength gap.text +
            (byteLength scanned.1.text + byteLength scanned.2) := by
          rw [← byteLength_append, Lexeme.scan_append, ← hrest, ← byteLength_append,
            Gap.scan_append]
        simp only [byteLength_append, hchars, stop, start]
        omega
      have hclosed' : commentReports rest'.diagnostics = 0 := by
        rw [commentReports_append] at hclosed
        exact (Nat.add_eq_zero_iff.mp hclosed).2
      have hsome : rest'.tokens ≠ [] := by
        obtain ⟨before, last, htokens, -⟩ := (placed_scanFrom file stop scanned.2).ended
        exact htokens ▸ List.append_ne_nil_of_right_ne_nil _ (List.cons_ne_nil _ _)
      rw [scanFrom_of_rest_cons file _ hnext, Lexeme.scan_line, hgap]
      have hih := ih hclosed'
      rw [hstop] at hih
      show (⟨_ :: (scanFrom file stop (scanned.2 ++ '\n' :: later)).tokens,
        _ ++ (scanFrom file stop (scanned.2 ++ '\n' :: later)).diagnostics⟩ : TokenStream) = _
      rw [hih, List.dropLast_cons_of_ne_nil hsome]
      exact congrArg (TokenStream.mk _) (List.append_assoc _ _ _).symm

/-- **Lexing is local to lines.** Behind a text without an open block comment and a line feed, the
tokens and reports are those of the further text, moved to their place in the file. -/
theorem ofText_lines (file : FileId) (first second : String)
    (hclosed : commentReports (ofText file first).diagnostics = 0) :
    let moved := (ofText file second).shift (byteLength first.toList + 1)
    (∃ line last, (ofText file first).tokens = line ++ [last] ∧ last.kind = .endOfFile ∧
      (ofText file (first ++ "\n" ++ second)).tokens =
        line ++ moved.tokens.modifyHead Token.onNewLine) ∧
      (ofText file (first ++ "\n" ++ second)).diagnostics =
        (ofText file first).diagnostics ++ moved.diagnostics := by
  intro moved
  have hwhole : ofText file (first ++ "\n" ++ second) =
      ⟨(ofText file first).tokens.dropLast ++ moved.tokens.modifyHead Token.onNewLine,
        (ofText file first).diagnostics ++ moved.diagnostics⟩ := by
    have hread := scanFrom_line file 0 first.toList second.toList hclosed
    rw [byteLength_append, scanFrom_shift] at hread
    unfold ofText
    rw [String.toList_append, String.toList_append, List.append_assoc]
    exact hread
  obtain ⟨line, last, htokens, hlast, -⟩ := (placed_scanFrom file 0 first.toList).ended
  rw [hwhole]
  refine ⟨⟨line, last, htokens, by simpa [Token.isEndOfFile] using hlast, ?_⟩, rfl⟩
  show (scanFrom file 0 first.toList).tokens.dropLast ++ _ = _
  rw [htokens, List.dropLast_concat]

/-- A number without digits and a string that its line cuts off leave the next line as it is. -/
theorem ofText_lines_of_badLine :
    commentReports (ofText (.registered 0) "0x \"a\\q").diagnostics = 0 ∧
      (ofText (.registered 0) "0x \"a\\q").diagnostics.length = 3 ∧
      (ofText (.registered 0) ("0x \"a\\q" ++ "\n" ++ "tree b")).diagnostics =
        (ofText (.registered 0) "0x \"a\\q").diagnostics ++
          ((ofText (.registered 0) "tree b").shift
            (byteLength "0x \"a\\q".toList + 1)).diagnostics :=
  ⟨by decide +kernel, by decide +kernel, (ofText_lines _ _ _ (by decide +kernel)).2⟩

end TokenStream

end BehaviorTree
