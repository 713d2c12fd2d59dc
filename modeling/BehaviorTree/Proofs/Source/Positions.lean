import BehaviorTree.Diagnostic.Record
import BehaviorTree.Proofs.Parsing.Ranges

/-!
# Lines and columns

A position is what stands in front of it: lines that are over, and a part of its own line. From this
follow the line and the column of an offset, in characters and in units of UTF-16, the way back from
both to the offset, and that a later offset has no earlier position. Lines can be looked up in a
table of the places where they start, as well as counted.
-/

namespace BehaviorTree

/-! ### Characters in front of an offset -/

/-- All that ends at or before an offset is a beginning of what is taken there. -/
theorem begins_takeBytes {front : List Char} (back : List Char) {offset : Nat}
    (hfront : byteLength front ≤ offset) : front <+: takeBytes offset (front ++ back) := by
  induction front generalizing offset with
  | nil => exact List.nil_prefix
  | cons c front ih =>
      rw [byteLength_cons] at hfront
      rw [List.cons_append, takeBytes, if_pos (by omega), List.cons_prefix_cons]
      exact ⟨rfl, ih (by omega)⟩

theorem takeBytes_begins (offset : Nat) (chars : List Char) : takeBytes offset chars <+: chars :=
  ⟨dropBytes offset chars, takeBytes_append_dropBytes offset chars⟩

theorem takeBytes_mono {left right : Nat} (hle : left ≤ right) (chars : List Char) :
    takeBytes left chars <+: takeBytes right chars := by
  obtain ⟨rest, hrest⟩ := takeBytes_begins left chars
  have hbytes := Nat.le_trans (byteLength_takeBytes_le left chars) hle
  have hbegins := begins_takeBytes rest hbytes
  rwa [hrest] at hbegins

theorem byteLength_le_of_begins {front chars : List Char} (h : front <+: chars) :
    byteLength front ≤ byteLength chars := by
  obtain ⟨back, rfl⟩ := h
  rw [byteLength_append]
  exact Nat.le_add_right _ _

/-! ### Lines -/

/-- The text ends where a line is over, or it is empty. -/
def IsOver (text : List Char) : Prop := text = [] ∨ text.getLast? = some '\n'

/-- Lines that are over and a part of the next one. -/
theorem exists_lastLine (text : List Char) :
    ∃ earlier, text = earlier ++ lastLine text ∧ IsOver earlier ∧ '\n' ∉ lastLine text := by
  refine ⟨(text.reverse.dropWhile (· != '\n')).reverse, ?_, ?_, ?_⟩
  · rw [lastLine, ← List.reverse_append, List.takeWhile_append_dropWhile, List.reverse_reverse]
  · cases hrest : text.reverse.dropWhile (· != '\n') with
    | nil => exact .inl rfl
    | cons c rest =>
        have hhead := List.head?_dropWhile_not (· != '\n') text.reverse
        rw [hrest] at hhead
        have hc : c = '\n' := by simpa using hhead
        exact .inr (by simp [hc])
  · intro hmem
    simpa using List.all_eq_true.mp List.all_takeWhile _ (List.mem_reverse.mp hmem)

theorem lastLine_append_of_line {line : List Char} (hline : '\n' ∉ line) (text : List Char) :
    lastLine (text ++ line) = lastLine text ++ line := by
  have hall : ∀ c ∈ line.reverse, (c != '\n') = true := by
    intro c hmem
    have hc : c ≠ '\n' := fun h => hline (h ▸ List.mem_reverse.mp hmem)
    simpa using hc
  rw [lastLine, List.reverse_append, List.takeWhile_append_of_pos hall, List.reverse_append,
    List.reverse_reverse]
  rfl

theorem isOver_cons {c : Char} {text : List Char} :
    IsOver (c :: text) ↔ (text = [] → c = '\n') ∧ IsOver text := by
  cases text with
  | nil => simp [IsOver]
  | cons d text => simp [IsOver]

theorem IsOver.eq_nil {text : List Char} (hover : IsOver text) (hcount : text.count '\n' = 0) :
    text = [] := by
  rcases hover with hnil | hlast
  · exact hnil
  · exact absurd (List.mem_of_getLast? hlast) (List.count_eq_zero.mp hcount)

/-- The text from a line on is what stands behind as many lines that are over. -/
theorem fromLine?_eq_some_iff {line : Nat} {chars tail : List Char} :
    fromLine? line chars = some tail ↔
      ∃ front, chars = front ++ tail ∧ front.count '\n' = line ∧ IsOver front := by
  fun_induction fromLine? line chars with
  | case1 chars =>
      constructor
      · rintro ⟨rfl⟩
        exact ⟨[], rfl, rfl, .inl rfl⟩
      · rintro ⟨front, rfl, hcount, hover⟩
        rw [hover.eq_nil hcount]
        rfl
  | case2 line =>
      constructor
      · rintro ⟨⟩
      · rintro ⟨front, hnil, hcount, -⟩
        obtain ⟨rfl, -⟩ := List.append_eq_nil_iff.mp hnil.symm
        cases hcount
  | case3 line rest ih =>
      rw [ih]
      constructor
      · rintro ⟨front, rfl, hcount, hover⟩
        exact ⟨'\n' :: front, rfl, by rw [List.count_cons_self, hcount],
          isOver_cons.mpr ⟨fun _ => rfl, hover⟩⟩
      · rintro ⟨front, hfront, hcount, hover⟩
        cases front with
        | nil => cases hcount
        | cons c front =>
            obtain ⟨rfl, rfl⟩ := List.cons.inj hfront
            rw [List.count_cons_self] at hcount
            exact ⟨front, rfl, Nat.succ.inj hcount, (isOver_cons.mp hover).2⟩
  | case4 line c rest hc ih =>
      rw [ih]
      constructor
      · rintro ⟨front, rfl, hcount, hover⟩
        refine ⟨c :: front, rfl, by rw [List.count_cons_of_ne hc, hcount],
          isOver_cons.mpr ⟨?_, hover⟩⟩
        rintro rfl
        cases hcount
      · rintro ⟨front, hfront, hcount, hover⟩
        cases front with
        | nil => cases hcount
        | cons d front =>
            obtain ⟨rfl, rfl⟩ := List.cons.inj hfront
            rw [List.count_cons_of_ne hc] at hcount
            exact ⟨front, rfl, hcount, (isOver_cons.mp hover).2⟩

theorem length_splitLines (chars : List Char) :
    (splitLines chars).length = chars.count '\n' + 1 := by
  fun_induction splitLines chars with
  | case1 => rfl
  | case2 rest ih => rw [List.length_cons, ih, List.count_cons_self]
  | case3 c rest hc hnone ih =>
      rw [hnone] at ih
      cases ih
  | case4 c rest hc line others hsome ih =>
      rw [hsome] at ih
      rw [List.count_cons_of_ne hc]
      exact ih

/-! ### The table of lines -/

/-- The offsets of the line feeds of a text that starts at an offset. -/
def newlinesFrom (offset : Nat) : List Char → List Nat
  | [] => []
  | c :: rest =>
    if c = '\n' then offset :: newlinesFrom (offset + c.utf8Size) rest
    else newlinesFrom (offset + c.utf8Size) rest

theorem newlinesFrom_append (offset : Nat) (left right : List Char) :
    newlinesFrom offset (left ++ right) =
      newlinesFrom offset left ++ newlinesFrom (offset + byteLength left) right := by
  induction left generalizing offset with
  | nil => rfl
  | cons c left ih =>
      rw [List.cons_append, newlinesFrom, newlinesFrom, ih, byteLength_cons, Nat.add_assoc]
      split <;> rfl

theorem length_newlinesFrom (offset : Nat) (chars : List Char) :
    (newlinesFrom offset chars).length = chars.count '\n' := by
  induction chars generalizing offset with
  | nil => rfl
  | cons c chars ih =>
      rw [newlinesFrom, List.count_cons]
      split
      · rename_i hc
        simp [ih, hc]
      · rename_i hc
        simp [ih, hc]

theorem mem_newlinesFrom_iff {offset place : Nat} {chars : List Char} :
    place ∈ newlinesFrom offset chars ↔
      ∃ front back, chars = front ++ '\n' :: back ∧ place = offset + byteLength front := by
  constructor
  · intro hmem
    induction chars generalizing offset with
    | nil => cases hmem
    | cons c chars ih =>
        have hlater : place ∈ newlinesFrom (offset + c.utf8Size) chars →
            ∃ front back, c :: chars = front ++ '\n' :: back ∧
              place = offset + byteLength front := by
          intro hmem
          obtain ⟨front, back, rfl, rfl⟩ := ih hmem
          exact ⟨c :: front, back, rfl, by rw [byteLength_cons, Nat.add_assoc]⟩
        rw [newlinesFrom] at hmem
        split at hmem
        · rename_i hc
          rcases List.mem_cons.mp hmem with rfl | hmem
          · exact ⟨[], chars, by rw [hc]; rfl, rfl⟩
          · exact hlater hmem
        · exact hlater hmem
  · rintro ⟨front, back, rfl, rfl⟩
    rw [newlinesFrom_append, newlinesFrom, if_pos rfl]
    exact List.mem_append_right _ List.mem_cons_self

theorem bounds_of_mem_newlinesFrom {offset place : Nat} {chars : List Char}
    (hmem : place ∈ newlinesFrom offset chars) :
    offset ≤ place ∧ place < offset + byteLength chars := by
  obtain ⟨front, back, rfl, rfl⟩ := mem_newlinesFrom_iff.mp hmem
  have hsize := Char.utf8Size_pos '\n'
  rw [byteLength_append, byteLength_cons]
  omega

theorem pairwise_newlinesFrom (offset : Nat) (chars : List Char) :
    (newlinesFrom offset chars).Pairwise (· < ·) := by
  induction chars generalizing offset with
  | nil => exact .nil
  | cons c chars ih =>
      rw [newlinesFrom]
      split
      · refine List.pairwise_cons.mpr ⟨fun place hmem => ?_, ih _⟩
        have hplace := bounds_of_mem_newlinesFrom hmem
        have hsize := c.utf8Size_pos
        omega
      · exact ih _

/-- Counting lines and looking them up in the table come to the same. -/
theorem getElem?_newlinesFrom (offset line : Nat) (chars : List Char) :
    (offset :: (newlinesFrom offset chars).map (· + 1))[line]? =
      (fromLine? line chars).map fun tail => offset + (byteLength chars - byteLength tail) := by
  induction chars generalizing offset line with
  | nil => cases line <;> rfl
  | cons c chars ih =>
      cases line with
      | zero => simp [fromLine?]
      | succ line =>
          have hbehind : ∀ inner, ((fromLine? inner chars).map fun tail =>
              offset + c.utf8Size + (byteLength chars - byteLength tail)) =
                (fromLine? inner chars).map fun tail =>
                  offset + (byteLength (c :: chars) - byteLength tail) := by
            intro inner
            refine Option.map_congr fun tail htail => ?_
            obtain ⟨front, rfl, -, -⟩ := fromLine?_eq_some_iff.mp htail
            rw [byteLength_cons, byteLength_append]
            omega
          rw [fromLine?, newlinesFrom]
          by_cases hc : c = '\n'
          · have hone : c.utf8Size = 1 := by rw [hc]; rfl
            rw [if_pos hc, if_pos hc, List.map_cons, List.getElem?_cons_succ, ← hbehind, ← ih, hone]
          · rw [if_neg hc, if_neg hc, List.getElem?_cons_succ, ← hbehind, ← ih,
              List.getElem?_cons_succ]

namespace SourceFile

variable (source : SourceFile)

/-- The offsets where the lines of a file start, in their order. -/
def lineStarts : List Nat := 0 :: (newlinesFrom 0 source.chars).map (· + 1)

theorem lineStart?_eq_lineStarts (line : Nat) :
    source.lineStart? (line + 1) = source.lineStarts[line]? := by
  rw [lineStarts, getElem?_newlinesFrom, lineStart?]
  simp only [Nat.zero_add]
  rfl

theorem length_lineStarts : source.lineStarts.length = source.chars.count '\n' + 1 := by
  rw [lineStarts, List.length_cons, List.length_map, length_newlinesFrom]

theorem pairwise_lineStarts : source.lineStarts.Pairwise (· < ·) := by
  refine List.pairwise_cons.mpr ⟨fun start hmem => ?_, ?_⟩
  · obtain ⟨place, -, rfl⟩ := List.mem_map.mp hmem
    exact Nat.succ_pos place
  · exact (pairwise_newlinesFrom 0 source.chars).map _ fun _ _ h => Nat.succ_lt_succ h

variable {source}

/-- The lines that have started in front of a place. -/
theorem countP_lineStarts {before after : List Char} (hchars : source.chars = before ++ after) :
    source.lineStarts.countP (fun start => decide (start ≤ byteLength before)) =
      before.count '\n' + 1 := by
  have hfront : ∀ start ∈ (newlinesFrom 0 before).map (· + 1),
      decide (start ≤ byteLength before) = true := by
    intro start hmem
    obtain ⟨place, hplace, rfl⟩ := List.mem_map.mp hmem
    have hbounds := bounds_of_mem_newlinesFrom hplace
    exact decide_eq_true (by omega)
  have hback : ∀ start ∈ (newlinesFrom (0 + byteLength before) after).map (· + 1),
      ¬ decide (start ≤ byteLength before) = true := by
    intro start hmem
    obtain ⟨place, hplace, rfl⟩ := List.mem_map.mp hmem
    have hbounds := bounds_of_mem_newlinesFrom hplace
    simp only [decide_eq_true_eq]
    omega
  rw [lineStarts, hchars, newlinesFrom_append, List.map_append,
    List.countP_cons_of_pos (by simp), List.countP_append, List.countP_eq_length.mpr hfront,
    List.countP_eq_zero.mpr hback, List.length_map, length_newlinesFrom]

theorem lineStart?_eq_some_iff {line start : Nat} : source.lineStart? line = some start ↔
    ∃ front back, source.chars = front ++ back ∧ IsOver front ∧ line = front.count '\n' + 1 ∧
      start = byteLength front := by
  constructor
  · intro hstart
    cases line with
    | zero => cases hstart
    | succ line =>
        obtain ⟨tail, htail, rfl⟩ := Option.map_eq_some_iff.mp hstart
        obtain ⟨front, hchars, rfl, hover⟩ := fromLine?_eq_some_iff.mp htail
        refine ⟨front, tail, hchars, hover, rfl, ?_⟩
        rw [SourceFile.size, hchars, byteLength_append, Nat.add_sub_cancel]
  · rintro ⟨front, back, hchars, hover, rfl, rfl⟩
    have hback := fromLine?_eq_some_iff.mpr ⟨front, hchars, rfl, hover⟩
    rw [lineStart?, hback, Option.map_some, SourceFile.size, hchars, byteLength_append,
      Nat.add_sub_cancel]

/-! ### Positions -/

/-- The place that an offset means: no place between two characters that is inside the file and not
behind the offset comes later. In front of it are lines that are over and a part of its own line. -/
structure Locates (source : SourceFile) (offset : Nat) (earlier line after : List Char) : Prop where
  chars : source.chars = earlier ++ line ++ after
  ended : IsOver earlier
  inLine : '\n' ∉ line
  bounded : byteLength (earlier ++ line) ≤ min offset source.size
  greatest : ∀ front back, source.chars = front ++ back →
    byteLength front ≤ min offset source.size → byteLength front ≤ byteLength (earlier ++ line)

theorem exists_locates (source : SourceFile) (offset : Nat) : ∃ earlier after,
    source.before offset = earlier ++ lastLine (source.before offset) ∧
      source.Locates offset earlier (lastLine (source.before offset)) after := by
  obtain ⟨earlier, hbefore, hover, hline⟩ := exists_lastLine (source.before offset)
  have hchars : source.chars = source.before offset ++ dropBytes offset source.chars :=
    (takeBytes_append_dropBytes offset source.chars).symm
  refine ⟨earlier, dropBytes offset source.chars, hbefore, ⟨?_, hover, hline, ?_, ?_⟩⟩
  · rwa [← hbefore]
  · rw [← hbefore]
    exact Nat.le_min.mpr ⟨byteLength_takeBytes_le offset source.chars, source.floor_le_size offset⟩
  · intro front back hfront hbytes
    rw [← hbefore]
    have hbegins := begins_takeBytes back (Nat.le_trans hbytes (Nat.min_le_left _ _))
    rw [← hfront] at hbegins
    exact byteLength_le_of_begins hbegins

end SourceFile

/-- The one position is that of the other or in front of it. -/
def NotBehind (left right : Nat × Nat) : Prop :=
  left.1 < right.1 ∨ left.1 = right.1 ∧ left.2 ≤ right.2

theorem SourceFile.lineCol_mono (source : SourceFile) {left right : Nat} (hle : left ≤ right) :
    NotBehind (source.lineCol left) (source.lineCol right) := by
  obtain ⟨more, hmore⟩ := takeBytes_mono hle source.chars
  have hright : source.before right = source.before left ++ more := hmore.symm
  unfold lineCol NotBehind
  dsimp only
  rw [hright, List.count_append]
  by_cases hline : '\n' ∈ more
  · have hcount := List.count_pos_iff.mpr hline
    exact .inl (by omega)
  · rw [List.count_eq_zero.mpr hline, lastLine_append_of_line hline, List.length_append]
    exact .inr ⟨rfl, by omega⟩

theorem utf16Size_le (c : Char) : utf16Size c ≤ c.utf8Size := by
  unfold utf16Size
  split
  · exact c.utf8Size_pos
  · rename_i hlarge
    have hbytes : ¬ c.val ≤ 0x7F := by
      rw [UInt32.le_iff_toNat_le]
      exact fun hle => hlarge (Nat.lt_of_le_of_lt hle (by decide))
    unfold Char.utf8Size
    dsimp only
    split
    · rename_i hone
      exact absurd hone hbytes
    · split
      · exact Nat.le_refl 2
      · split <;> decide

theorem total_utf16Size_le (chars : List Char) : total utf16Size chars ≤ byteLength chars := by
  induction chars with
  | nil => exact Nat.le_refl 0
  | cons c chars ih =>
      have hc := utf16Size_le c
      rw [total_cons, byteLength_cons]
      omega

theorem count_le_byteLength (c : Char) (chars : List Char) : chars.count c ≤ byteLength chars := by
  induction chars with
  | nil => exact Nat.le_refl 0
  | cons d chars ih =>
      have hd := d.utf8Size_pos
      rw [List.count_cons, byteLength_cons]
      split <;> omega

/-- What is told about an offset that means the place behind some lines and a part of a line. -/
structure Sources.PointsTo (sources : Sources) (id : FileId) (offset : Nat)
    (earlier line : List Char) : Prop where
  lineCol : sources.lineCol id offset =
    (1 + (earlier ++ line).count '\n', 1 + line.length)
  back : ∃ start, sources.lineStart? id (sources.lineCol id offset).1 = some start ∧
    start + byteLength ((dropBytes start (sources.chars id)).take
      ((sources.lineCol id offset).2 - 1)) = byteLength (earlier ++ line)
  editor : sources.editorPosition id offset =
    ((sources.lineCol id offset).1 - 1, total utf16Size line)
  /-- So nothing is lost where the two are cut down to 32 bits, up to files of 4 GiB. -/
  editorBounded : (sources.editorPosition id offset).1 ≤ byteLength (sources.chars id) ∧
    (sources.editorPosition id offset).2 ≤ byteLength (sources.chars id)

/-- The lines of a file, by the places of its line feeds and by the table of their starts. -/
structure Sources.CountsLines (sources : Sources) (id : FileId) (source : SourceFile) : Prop where
  lineCount : sources.lineCount id = 1 + source.chars.count '\n'
  lineStart : ∀ line start, sources.lineStart? id line = some start ↔
    ∃ front back, source.chars = front ++ back ∧ IsOver front ∧ line = front.count '\n' + 1 ∧
      start = byteLength front
  table : source.lineStarts.length = sources.lineCount id ∧
    ∀ line, sources.lineStart? id (line + 1) = source.lineStarts[line]?
  increasing : source.lineStarts.Pairwise (· < ·)
  search : ∀ offset, source.lineStarts.countP (fun start => decide (start ≤ source.floor offset)) =
    (sources.lineCol id offset).1

namespace Sources

variable {sources : Sources} {id : FileId} {source : SourceFile}

theorem pointsTo_of_locates (hfile : sources.file? id = some source) {offset : Nat}
    {earlier after : List Char}
    (hbefore : source.before offset = earlier ++ lastLine (source.before offset))
    (hlocates : source.Locates offset earlier (lastLine (source.before offset)) after) :
    sources.PointsTo id offset earlier (lastLine (source.before offset)) := by
  have hlineCol : sources.lineCol id offset = source.lineCol offset := by
    simp [Sources.lineCol, hfile]
  have heditor : sources.editorPosition id offset = source.editorPosition offset := by
    simp [Sources.editorPosition, hfile]
  have hchars : sources.chars id = source.chars := by simp [Sources.chars, hfile]
  have hsize : byteLength (source.before offset) ≤ byteLength source.chars :=
    byteLength_le_of_begins (takeBytes_begins offset source.chars)
  have hparts := congrArg byteLength hbefore
  rw [byteLength_append] at hparts
  refine ⟨?_, ?_, ?_, ?_⟩
  · rw [hlineCol, ← hbefore]
    simp only [SourceFile.lineCol, Nat.add_comm 1]
  · have hstart : source.lineStart? (source.lineCol offset).1 = some (byteLength earlier) := by
      refine SourceFile.lineStart?_eq_some_iff.mpr
        ⟨earlier, lastLine (source.before offset) ++ after, ?_, hlocates.ended, ?_, rfl⟩
      · rw [hlocates.chars, List.append_assoc]
      · have hcount := congrArg (List.count '\n') hbefore
        rw [List.count_append, List.count_eq_zero.mpr hlocates.inLine, Nat.add_zero] at hcount
        exact congrArg (· + 1) hcount
    refine ⟨byteLength earlier, ?_, ?_⟩
    · rw [hlineCol]
      simpa [Sources.lineStart?, hfile] using hstart
    · rw [hlineCol, hchars, hlocates.chars, List.append_assoc, dropBytes_of_append]
      simp [SourceFile.lineCol]
  · rw [heditor, hlineCol]
    rfl
  · have hcount := count_le_byteLength '\n' (source.before offset)
    have hunits := total_utf16Size_le (lastLine (source.before offset))
    rw [heditor, hchars]
    simp only [SourceFile.editorPosition]
    omega

theorem countsLines (hfile : sources.file? id = some source) : sources.CountsLines id source where
  lineCount := by
    simp [Sources.lineCount, hfile, SourceFile.lineCount, SourceFile.lines, length_splitLines,
      Nat.add_comm 1]
  lineStart line start := by
    rw [← SourceFile.lineStart?_eq_some_iff]
    simp [Sources.lineStart?, hfile]
  table := by
    constructor
    · simp [Sources.lineCount, hfile, SourceFile.lineCount, SourceFile.lines, length_splitLines,
        SourceFile.length_lineStarts]
    · intro line
      simpa [Sources.lineStart?, hfile] using source.lineStart?_eq_lineStarts line
  increasing := source.pairwise_lineStarts
  search offset := by
    have hchars : source.chars = source.before offset ++ dropBytes offset source.chars :=
      (takeBytes_append_dropBytes offset source.chars).symm
    have hlineCol : sources.lineCol id offset = source.lineCol offset := by
      simp [Sources.lineCol, hfile]
    rw [hlineCol]
    exact SourceFile.countP_lineStarts hchars

/-- A record of a place in order ends where it starts or behind it. -/
theorem notBehind_place {diagnostic : Diagnostic} {place : RecordPlace}
    (hordered : diagnostic.primaryRange.start ≤ diagnostic.primaryRange.stop)
    (hplace : diagnostic.place? sources = some place) : NotBehind place.start place.stop := by
  obtain ⟨source, hsource, rfl⟩ := Option.map_eq_some_iff.mp hplace
  simpa [Sources.lineCol, hsource] using source.lineCol_mono hordered

theorem primaryRange_ordered {source : SourceFile} {file : FileId} {diagnostic : Diagnostic}
    (hmeets : Meets (Mark.Sound source file) diagnostic) :
    diagnostic.primaryRange.start ≤ diagnostic.primaryRange.stop := by
  unfold Diagnostic.primaryRange
  cases hlabel : diagnostic.primaryLabel? with
  | none => exact Nat.le_refl 0
  | some label =>
      have hmem := List.mem_of_find?_eq_some hlabel
      have hrange : label.range ∈ diagnostic.ranges :=
        List.mem_append_left _ (List.mem_map_of_mem hmem)
      exact (hmeets label.range hrange).ordered

/-- **Positions are exact.** An offset of a registered text means the last place between two
characters up to it. Its line and column count the line feeds in front of it and the characters
behind the last of them; with the start of the line they lead back to the place; an editor gets the
line from zero and the units of UTF-16 of these characters. The lines and their starts are those of
the line feeds, and can be looked up. A later offset has no earlier position, so that what is
recorded of a range never ends in front of its start, as in all reports on the text itself. -/
theorem lineCol_exact (hfile : sources.file? id = some source) :
    (∀ offset, ∃ earlier line after, source.Locates offset earlier line after ∧
      sources.PointsTo id offset earlier line) ∧
    sources.CountsLines id source ∧
    (∀ left right, left ≤ right →
      NotBehind (sources.lineCol id left) (sources.lineCol id right)) ∧
    (∀ (diagnostic : Diagnostic) (place : RecordPlace),
      diagnostic.primaryRange.start ≤ diagnostic.primaryRange.stop →
      diagnostic.place? sources = some place → NotBehind place.start place.stop) ∧
    ∀ (arena : Arena), ∀ diagnostic ∈ (Parsed.ofText id source.text arena).diagnostics,
      ∀ place, diagnostic.place? sources = some place → NotBehind place.start place.stop := by
  refine ⟨fun offset => ?_, countsLines hfile, fun left right hle => ?_,
    fun _ _ => notBehind_place, fun arena diagnostic hmem place => ?_⟩
  · obtain ⟨earlier, after, hbefore, hlocates⟩ := source.exists_locates offset
    exact ⟨earlier, _, after, hlocates, pointsTo_of_locates hfile hbefore hlocates⟩
  · simpa [Sources.lineCol, hfile] using source.lineCol_mono hle
  · obtain ⟨htokens, hfaults⟩ := TokenStream.meets_ofText id source.path source.text
    have hreports := (Parsed.meets_ofTokens htokens arena).2.2
    exact notBehind_place (primaryRange_ordered (Meets.append hfaults hreports diagnostic hmem))

/-- An offset inside the first character of a text, and one behind the text. -/
theorem lineCol_exact_of_twoLines :
    let sources := (Sources.inDirectory ⟨"/work"⟩).add ⟨"/work/a.bt"⟩ "é\nbc"
    let source : SourceFile := ⟨⟨"/work/a.bt"⟩, ['é', '\n', 'b', 'c']⟩
    sources.file? (.registered 0) = some source ∧
      sources.lineCol (.registered 0) 1 = (1, 1) ∧ sources.lineCol (.registered 0) 9 = (2, 3) ∧
      NotBehind (sources.lineCol (.registered 0) 1) (sources.lineCol (.registered 0) 9) := by
  intro sources source
  have hfile : sources.file? (.registered 0) = some source := by decide
  exact ⟨hfile, by decide, by decide, (lineCol_exact hfile).2.2.1 1 9 (by decide)⟩

end Sources

end BehaviorTree
