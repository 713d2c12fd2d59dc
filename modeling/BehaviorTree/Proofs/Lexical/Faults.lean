import BehaviorTree.Proofs.Lexical.Tiling
import BehaviorTree.Proofs.Syntax.Marks

/-!
# Where the faults of a text are

A fault covers a part of the text that it was found in: a whole lexeme, one malformed escape inside
the quotes of a string literal, or the mark that opens a block comment. So a report on it shows whole
characters of the source. The same is true of the tokens, each of which is a slice of the source.
-/

namespace BehaviorTree

/-! ### Usable ranges -/

/-- The range lies in a file with a certain text, and either end of it is between two characters. -/
structure SourceRange.Usable (source : SourceFile) (file : FileId) (range : SourceRange) : Prop where
  file_eq : range.file = file
  ordered : range.start ≤ range.stop
  bounded : range.stop ≤ source.size
  startsCharacter : source.floor range.start = range.start
  stopsCharacter : source.floor range.stop = range.stop

/-- A range is usable, and the text of a name is what the source has at its range. -/
def Mark.Sound (source : SourceFile) (file : FileId) : Mark → Prop
  | .range place => place.Usable source file
  | .name found => source.slice? found.range.start found.range.stop = some found.text

variable {source : SourceFile} {file : FileId}

namespace SourceFile

theorem floor_of_append {before after : List Char} (hchars : source.chars = before ++ after) :
    source.floor (byteLength before) = byteLength before := by
  unfold floor SourceFile.before
  rw [hchars, takeBytes_of_append]

theorem floor_le_size (source : SourceFile) (offset : Nat) : source.floor offset ≤ source.size := by
  have hwhole := congrArg byteLength (takeBytes_append_dropBytes offset source.chars)
  rw [byteLength_append] at hwhole
  exact Nat.le_of_add_right_le (Nat.le_of_eq hwhole)

theorem floor_zero (source : SourceFile) : source.floor 0 = 0 :=
  Nat.le_zero.mp (byteLength_takeBytes_le 0 source.chars)

/-- What is cut out of a file is cut between characters. -/
theorem floor_of_slice? {start stop : Nat} {text : String}
    (hslice : source.slice? start stop = some text) :
    start ≤ stop ∧ source.floor start = start ∧ source.floor stop = stop := by
  unfold slice? at hslice
  split at hslice
  · rename_i hcut
    simpa [and_assoc] using hcut
  · cases hslice

theorem slice?_empty {offset : Nat} (hfloor : source.floor offset = offset) :
    source.slice? offset offset = some "" := by
  have hnothing : takeBytes 0 (dropBytes offset source.chars) = [] := by
    cases dropBytes offset source.chars with
    | nil => rfl
    | cons c rest => rw [takeBytes, if_neg (by have := c.utf8Size_pos; omega)]
  unfold slice?
  simp [hfloor, hnothing]

end SourceFile

namespace SourceRange

theorem Usable.of_slice? {range : SourceRange} {text : String} (hfile : range.file = file)
    (hslice : source.slice? range.start range.stop = some text) : range.Usable source file := by
  obtain ⟨hordered, hstart, hstop⟩ := SourceFile.floor_of_slice? hslice
  exact ⟨hfile, hordered, hstop ▸ source.floor_le_size _, hstart, hstop⟩

theorem Usable.of_append (file : FileId) {before part after : List Char}
    (hchars : source.chars = before ++ (part ++ after)) :
    (⟨file, byteLength before, byteLength before + byteLength part⟩ : SourceRange).Usable source file :=
  .of_slice? rfl (SourceFile.slice?_of_append hchars)

theorem Usable.emptyAt {offset : Nat} (hfloor : source.floor offset = offset) :
    (emptyAt file offset).Usable source file :=
  .of_slice? rfl (SourceFile.slice?_empty hfloor)

theorem Usable.merge {left right : SourceRange} (hleft : left.Usable source file)
    (hright : right.Usable source file) : (left.merge right).Usable source file := by
  unfold SourceRange.merge
  split
  · exact hright
  · split
    · exact hleft
    · have hordered := hleft.ordered
      have hbounds := And.intro hleft.bounded hright.bounded
      refine ⟨hleft.file_eq, ?_, ?_, ?_, ?_⟩
      · show min _ _ ≤ max _ _
        omega
      · show max _ _ ≤ _
        omega
      · show source.floor (min _ _) = min _ _
        rcases Nat.le_total left.start right.start with hle | hle
        · rw [Nat.min_eq_left hle, hleft.startsCharacter]
        · rw [Nat.min_eq_right hle, hright.startsCharacter]
      · show source.floor (max _ _) = max _ _
        rcases Nat.le_total left.stop right.stop with hle | hle
        · rw [Nat.max_eq_right hle, hright.stopsCharacter]
        · rw [Nat.max_eq_left hle, hleft.stopsCharacter]

end SourceRange

/-! ### Parts of a text -/

namespace LocatedFault

/-- The fault covers a part of the text. -/
def Fits (text : List Char) (located : LocatedFault) : Prop :=
  ∃ before part after, text = before ++ (part ++ after) ∧ located.start = byteLength before ∧
    located.stop = byteLength before + byteLength part

variable {text : List Char} {located : LocatedFault}

theorem fits_whole (text : List Char) (fault : LexicalFault) :
    Fits text ⟨0, byteLength text, fault⟩ :=
  ⟨[], text, [], by simp, rfl, (Nat.zero_add _).symm⟩

theorem Fits.append (h : located.Fits text) (more : List Char) : located.Fits (text ++ more) := by
  obtain ⟨before, part, after, rfl, hstart, hstop⟩ := h
  exact ⟨before, part, after ++ more, by simp, hstart, hstop⟩

theorem Fits.shift (h : located.Fits text) (front : List Char) :
    (located.shift (byteLength front)).Fits (front ++ text) := by
  obtain ⟨before, part, after, rfl, hstart, hstop⟩ := h
  refine ⟨front ++ before, part, after, by simp, ?_, ?_⟩
  · show located.start + _ = _
    rw [hstart, byteLength_append, Nat.add_comm]
  · show located.stop + _ = _
    rw [hstop, byteLength_append]
    omega

/-- A report on a fault shows the part of the source that the fault covers. -/
theorem Fits.meets_report (h : located.Fits text) {before after : List Char}
    (hchars : source.chars = before ++ (text ++ after)) :
    Meets (Mark.Sound source file) (located.report file (byteLength before)) := by
  obtain ⟨front, part, behind, rfl, hstart, hstop⟩ := h
  have hwhole : source.chars = (before ++ front) ++ (part ++ (behind ++ after)) := by
    rw [hchars]
    simp
  have husable : Meets (Mark.Sound source file)
      (⟨file, byteLength before + located.start, byteLength before + located.stop⟩ : SourceRange) := by
    have hpart := SourceRange.Usable.of_append file hwhole
    rw [byteLength_append, Nat.add_assoc, ← hstop, ← hstart] at hpart
    exact hpart
  have hplain := Diagnostic.meets_new .error located.fault.message husable
  unfold report LexicalFault.report
  dsimp only
  split
  · exact Diagnostic.meets_withLabel _ hplain
  · exact Diagnostic.meets_withLabel _ hplain
  · split
    · exact hplain
    · exact hplain
  · exact hplain

end LocatedFault

/-! ### Faults in lexemes -/

theorem EscapeItem.fits_of_mem_faults (front : List Char) (items : List EscapeItem) :
    ∀ located ∈ faults (byteLength front) items, located.Fits (front ++ items.flatMap text) := by
  induction items generalizing front with
  | nil => simp [faults]
  | cons item rest ih =>
      intro located hmem
      have hrest := ih (front ++ item.text)
      rw [byteLength_append, List.append_assoc] at hrest
      unfold faults at hmem
      dsimp only at hmem
      rw [List.flatMap_cons]
      split at hmem
      · rename_i malformed fault
        rcases List.mem_cons.mp hmem with rfl | hlater
        · exact ⟨front, malformed, rest.flatMap text, rfl, rfl, rfl⟩
        · exact hrest located hlater
      · exact hrest located hmem

theorem fits_of_mem_unescape {body : List Char} :
    ∀ located ∈ (unescape body).faults, located.Fits body := by
  intro located hmem
  have hfits := EscapeItem.fits_of_mem_faults [] (EscapeItem.split body) located hmem
  rwa [List.nil_append, EscapeItem.split_text] at hfits

namespace Lexeme

/-- All faults of the lexeme are in its text. -/
def FaultsFit (lexeme : Lexeme) : Prop := ∀ located ∈ lexeme.faults, located.Fits lexeme.text

theorem faultsFit_plain (kind : TokenKind) (text : List Char) : (plain kind text).FaultsFit :=
  fun _ h => by cases h

theorem faultsFit_faulty (kind : TokenKind) (text : List Char) (fault : LexicalFault) :
    (faulty kind text fault).FaultsFit :=
  List.forall_mem_singleton.mpr (LocatedFault.fits_whole text fault)

theorem faultsFit_scanNumber (chars : List Char) : (NumberLiteral.scan chars).1.FaultsFit := by
  apply NumberLiteral.scan_cases
  case int => exact fun value text => faultsFit_plain _ text
  case float => exact fun value text => faultsFit_plain _ text
  case fault => exact fun cause text => faultsFit_faulty _ text _

/-- What is decoded of a string literal stands behind its opening quote. A backslash that covers
nothing comes behind it. -/
theorem faultsFit_scanString (chars : List Char) : (StringLiteral.scan chars).1.FaultsFit := by
  have hdecoded : ∃ tail, (StringLiteral.scanBody chars).text =
      (StringLiteral.scanBody chars).decoded ++ tail := by
    unfold StringLiteral.Body.decoded
    split
    · refine ⟨(StringLiteral.scanBody chars).text.drop
        ((StringLiteral.scanBody chars).text.length - 1), ?_⟩
      rw [List.dropLast_eq_take, List.take_append_drop]
    · exact ⟨[], (List.append_nil _).symm⟩
  obtain ⟨tail, hdecoded⟩ := hdecoded
  have htext : (StringLiteral.scan chars).1.text =
      ['"'] ++ ((StringLiteral.scanBody chars).decoded ++
        (tail ++ (StringLiteral.scanBody chars).closer)) := by
    show '"' :: (StringLiteral.scanBody chars).text ++ _ = _
    rw [hdecoded]
    simp
  intro located hmem
  rcases List.mem_append.mp hmem with hcut | hescape
  · split at hcut
    · cases hcut
    · rw [List.mem_singleton.mp hcut]
      exact LocatedFault.fits_whole _ _
  · obtain ⟨inner, hinner, rfl⟩ := List.mem_map.mp hescape
    rw [htext]
    exact ((fits_of_mem_unescape inner hinner).append _).shift ['"']

theorem faultsFit_scan (c : Char) (rest : List Char) : (scan c rest).1.FaultsFit := by
  apply scan_cases
  case string => exact faultsFit_scanString _
  case number => exact faultsFit_scanNumber _
  case name => exact faultsFit_plain _ _
  case doc => exact fun mark body text => faultsFit_plain _ text
  case operator => exact fun op text => faultsFit_plain _ text
  case mark => exact fun mark text => faultsFit_plain _ text
  case unknown => exact fun text => faultsFit_faulty _ text _

end Lexeme

/-! ### Faults in gaps -/

namespace Gap

/-- The comment that a gap ends in was open from the start, or it opens where its mark stands. -/
theorem block_scanFrom (offset : Nat) (mode : Mode) (chars : List Char) {start inner : Nat}
    (hmode : (scanFrom offset mode chars).mode = .block start inner) :
    (∃ inner, mode = .block start inner) ∨
      ∃ before after, (scanFrom offset mode chars).text = before ++ '/' :: '*' :: after ∧
        start = offset + byteLength before := by
  -- What is found behind some more of the gap is found in all of it.
  have hpush : ∀ {offset next : Nat} {front : List Char} {gap : Gap}, next = offset + byteLength front →
      (∃ before after, gap.text = before ++ '/' :: '*' :: after ∧ start = next + byteLength before) →
        ∃ before after, (gap.push front).text = before ++ '/' :: '*' :: after ∧
          start = offset + byteLength before := by
    rintro offset next front gap rfl ⟨before, after, htext, hstart⟩
    refine ⟨front ++ before, after, ?_, ?_⟩
    · rw [text_push, htext, List.append_assoc]
    · rw [hstart, byteLength_append, Nat.add_assoc]
  fun_induction scanFrom offset mode chars with
  | case1 offset mode => exact .inl ⟨inner, hmode⟩
  | case2 offset opened depth rest ih =>
      rcases ih hmode with ⟨inner, heq⟩ | hfound
      · obtain ⟨rfl, -⟩ := Mode.block.inj heq
        exact .inl ⟨depth, rfl⟩
      · exact .inr (hpush rfl hfound)
  | case3 offset opened depth rest ih =>
      rcases ih hmode with ⟨inner, heq⟩ | hfound
      · cases depth with
        | zero => cases heq
        | succ depth =>
            obtain ⟨rfl, -⟩ := Mode.block.inj heq
            exact .inl ⟨depth + 1, rfl⟩
      · exact .inr (hpush rfl hfound)
  | case4 offset opened depth c rest _ _ ih =>
      rcases ih hmode with ⟨inner, heq⟩ | hfound
      · obtain ⟨rfl, -⟩ := Mode.block.inj heq
        exact .inl ⟨depth, rfl⟩
      · exact .inr (hpush rfl hfound)
  | case5 offset c rest ih =>
      rcases ih hmode with ⟨inner, heq⟩ | hfound
      · split at heq <;> cases heq
      · exact .inr (hpush rfl hfound)
  | case6 offset rest ih =>
      rcases ih hmode with ⟨inner, heq⟩ | hfound
      · obtain ⟨rfl, -⟩ := Mode.block.inj heq
        exact .inr ⟨[], _, rfl, rfl⟩
      · exact .inr (hpush rfl hfound)
  | case7 => cases hmode
  | case8 offset rest _ ih =>
      rcases ih hmode with ⟨inner, heq⟩ | hfound
      · cases heq
      · exact .inr (hpush rfl hfound)
  | case9 offset c rest _ _ _ ih =>
      rcases ih hmode with ⟨inner, heq⟩ | hfound
      · cases heq
      · exact .inr (hpush rfl hfound)
  | case10 => cases hmode

theorem fits_of_mem_faults (chars : List Char) :
    ∀ located ∈ (scan chars).faults, located.Fits (scan chars).text := by
  intro located hmem
  unfold faults at hmem
  split at hmem
  · rename_i start inner hmode
    obtain rfl := List.mem_singleton.mp hmem
    rcases block_scanFrom 0 .between chars hmode with ⟨_, hopen⟩ | ⟨before, after, htext, hstart⟩
    · cases hopen
    · rw [Nat.zero_add] at hstart
      exact ⟨before, ['/', '*'], after, htext, hstart, congrArg (· + 2) hstart⟩
  · cases hmem

end Gap

/-! ### Streams -/

namespace TokenStream

/-- The reports on a part of the source that all of the faults are in. -/
theorem meets_reports {faults : List LocatedFault} {before text after : List Char}
    (hfits : ∀ located ∈ faults, located.Fits text)
    (hchars : source.chars = before ++ (text ++ after)) :
    Meets (Mark.Sound source file) (reports faults file (byteLength before)) := by
  intro diagnostic hmem
  obtain ⟨located, hlocated, rfl⟩ := List.mem_map.mp hmem
  exact (hfits located hlocated).meets_report hchars

theorem meets_diagnostics_scanFrom (source : SourceFile) (file : FileId) (offset : Nat)
    (chars : List Char) : ∀ before : List Char, offset = byteLength before →
      source.chars = before ++ chars →
      Meets (Mark.Sound source file) (scanFrom file offset chars).diagnostics := by
  fun_induction scanFrom file offset chars with
  | case1 offset chars gap start gapReports hrest =>
      rintro before rfl hchars
      rw [← Gap.scan_append chars] at hchars
      exact meets_reports (Gap.fits_of_mem_faults chars) hchars
  | case2 offset chars gap start gapReports c rest hrest scanned stop later ih =>
      rintro before rfl hchars
      have happend : chars = gap.text ++ (scanned.1.text ++ scanned.2) := by
        rw [Lexeme.scan_append, ← hrest, Gap.scan_append]
      have hgap : source.chars = before ++ (gap.text ++ (scanned.1.text ++ scanned.2)) := by
        rw [hchars, happend]
      have hlexeme : source.chars = (before ++ gap.text) ++ (scanned.1.text ++ scanned.2) := by
        rw [hgap, List.append_assoc]
      have hbehind : source.chars = (before ++ gap.text ++ scanned.1.text) ++ scanned.2 := by
        rw [hlexeme, List.append_assoc _ scanned.1.text]
      have hstart : start = byteLength (before ++ gap.text) := (byteLength_append _ _).symm
      have hstop : stop = byteLength (before ++ gap.text ++ scanned.1.text) := by
        rw [byteLength_append, ← hstart]
      refine Meets.append (Meets.append ?_ ?_) (ih _ hstop hbehind)
      · exact meets_reports (Gap.fits_of_mem_faults chars) hgap
      · rw [hstart]
        exact meets_reports (Lexeme.faultsFit_scan c rest) hlexeme

theorem meets_of_tiles {ending : Gap.Ending} {start : Nat} {tokens : List Token}
    (htiles : Tiles source file ending start tokens) : Meets (Mark.Sound source file) tokens := by
  have hslice : ∀ {token : Token}, token.range.file = file →
      source.slice? token.range.start token.range.stop = some token.text →
        Meets (Mark.Sound source file) token :=
    fun hfile hslice => ⟨.of_slice? hfile hslice, hslice⟩
  induction htiles with
  | @last start token _ htext hrange _ =>
      have hend : source.floor source.size = source.size :=
        SourceFile.floor_of_append (List.append_nil source.chars).symm
      refine Meets.singleton (hslice ?_ ?_)
      · rw [hrange]
        rfl
      · rw [hrange, htext]
        exact SourceFile.slice?_empty hend
  | cons _ hfile _ htext _ _ ih => exact List.forall_mem_cons.mpr ⟨hslice hfile htext, ih⟩

/-- **What the lexer hands out.** The tokens of a text are slices of it, and the reports on it show
whole characters. -/
theorem meets_ofText (file : FileId) (path : Path) (text : String) :
    Meets (Mark.Sound ⟨path, text.toList⟩ file) (TokenStream.ofText file text).tokens ∧
      Meets (Mark.Sound ⟨path, text.toList⟩ file) (TokenStream.ofText file text).diagnostics := by
  obtain ⟨ending, htiles, -⟩ := tiles_scanFrom ⟨path, text.toList⟩ file 0 text.toList [] rfl rfl
  exact ⟨meets_of_tiles htiles, meets_diagnostics_scanFrom _ file 0 _ [] rfl rfl⟩

end TokenStream

end BehaviorTree
