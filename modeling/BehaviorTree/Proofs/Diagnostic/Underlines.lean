import BehaviorTree.Proofs.Diagnostic.Gutters
import BehaviorTree.Proofs.Source.LineTiling

/-!
# Underlines

The underline of a label is found by offsets: those of the label are forced into the line where the
label starts, and then moved to the starts of characters. The steps that can fail, forcing an offset
between bounds and cutting a text between characters, never do, whatever the label; and what they cut
out is the part of the line in front of the label and the part that belongs to it.
-/

namespace BehaviorTree

/-! ## The steps -/

namespace Excerpt

/-- Forces an offset between two bounds, which have to be in order. -/
def clamp? (offset low high : Nat) : Option Nat :=
  if low ≤ high then some (max low (min offset high)) else none

/-- Steps back from an offset to a place between two characters. -/
def stepBack? (source : SourceFile) : Nat → Option Nat
  | 0 => if source.floor 0 = 0 then some 0 else none
  | offset + 1 =>
    if source.floor (offset + 1) = offset + 1 then some (offset + 1) else stepBack? source offset

def boundary? (source : SourceFile) (offset : Nat) : Option Nat :=
  stepBack? source (min offset source.size)

/-- The column and the length of an underline by steps each of which may fail. -/
def underline? (sources : Sources) (line : Nat) (label : Label) : Option (Nat × Nat) := do
  let source ← sources.file? label.range.file
  let lineStart := (sources.lineStart? label.range.file line).getD 0
  let lineEnd := lineStart + byteLength ((sources.lineText? label.range.file line).getD [])
  let start ← (clamp? label.range.start lineStart lineEnd).bind (boundary? source)
  let stop ← (clamp? label.range.stop start lineEnd).bind (boundary? source)
  let lead ← source.slice? lineStart start
  let marked ← source.slice? start stop
  return (width lead.toList, max 1 (width marked.toList))

end Excerpt

/-! ## Characters up to an offset -/

theorem takeBytes_zero (chars : List Char) : takeBytes 0 chars = [] := takeBytes_of_append [] chars

theorem takeBytes_behind (front rest : List Char) (offset : Nat) :
    takeBytes (byteLength front + offset) (front ++ rest) = front ++ takeBytes offset rest := by
  induction front with
  | nil => simp
  | cons c front ih =>
      rw [List.cons_append, byteLength_cons, takeBytes, if_pos (by omega), Nat.add_assoc,
        Nat.add_sub_cancel_left, ih, List.cons_append]

theorem takeBytes_of_le {chars : List Char} {offset : Nat} (hle : byteLength chars ≤ offset) :
    takeBytes offset chars = chars := by
  have hbegins := begins_takeBytes [] hle
  rw [List.append_nil] at hbegins
  exact (takeBytes_begins offset chars).eq_of_length
    (Nat.le_antisymm (takeBytes_begins offset chars).length_le hbegins.length_le)

theorem takeBytes_append_of_le {chars rest : List Char} {offset : Nat}
    (hle : offset ≤ byteLength chars) : takeBytes offset (chars ++ rest) = takeBytes offset chars := by
  induction chars generalizing offset with
  | nil => rw [Nat.le_zero.mp hle, List.nil_append, takeBytes_zero, takeBytes_zero]
  | cons c chars ih =>
      rw [byteLength_cons] at hle
      rw [List.cons_append, takeBytes, takeBytes]
      split
      · rw [ih (by omega)]
      · rfl

namespace SourceFile

variable {source : SourceFile} {front part back : List Char} {offset : Nat}

theorem floor_le (source : SourceFile) (offset : Nat) : source.floor offset ≤ offset :=
  byteLength_takeBytes_le offset source.chars

theorem stepBack?_eq (source : SourceFile) (offset : Nat) :
    Excerpt.stepBack? source offset = some (source.floor offset) := by
  induction offset with
  | zero => rw [Excerpt.stepBack?, if_pos source.floor_zero, source.floor_zero]
  | succ offset ih =>
      rw [Excerpt.stepBack?]
      split
      case isTrue hboundary => rw [hboundary]
      case isFalse hinside =>
        have hle := source.floor_le (offset + 1)
        have hback : byteLength (takeBytes (offset + 1) source.chars) ≤ offset := by
          change source.floor (offset + 1) ≤ offset
          omega
        have hbegins := begins_takeBytes (dropBytes (offset + 1) source.chars) hback
        rw [takeBytes_append_dropBytes] at hbegins
        have hlower := byteLength_le_of_begins hbegins
        have hupper := byteLength_le_of_begins (takeBytes_mono (Nat.le_succ offset) source.chars)
        rw [ih]
        exact congrArg some (Nat.le_antisymm hupper hlower)

theorem floor_min_size (source : SourceFile) (offset : Nat) :
    source.floor (min offset source.size) = source.floor offset := by
  rcases Nat.le_total offset source.size with hle | hle
  · rw [Nat.min_eq_left hle]
  · rw [Nat.min_eq_right hle]
    simp [floor, before, takeBytes_of_le hle, takeBytes_of_le (Nat.le_refl source.size)]

theorem boundary?_eq (source : SourceFile) (offset : Nat) :
    Excerpt.boundary? source offset = some (source.floor offset) := by
  rw [Excerpt.boundary?, stepBack?_eq, floor_min_size]

/-- An offset behind the front of a text means, inside of the part that follows, the place that it
means in this part. -/
theorem min_floor (hchars : source.chars = front ++ (part ++ back))
    (hfront : byteLength front ≤ offset) :
    min (source.floor offset) (byteLength front + byteLength part) =
      byteLength front + byteLength (takeBytes (offset - byteLength front) part) := by
  obtain ⟨inner, rfl⟩ := Nat.exists_eq_add_of_le hfront
  rw [floor, before, hchars, takeBytes_behind, byteLength_append, Nat.add_sub_cancel_left,
    Nat.add_min_add_left]
  rcases Nat.le_total inner (byteLength part) with hinside | hbehind
  · have hbytes := byteLength_le_of_begins (takeBytes_begins inner part)
    rw [takeBytes_append_of_le hinside, Nat.min_eq_left hbytes]
  · have hwhole := byteLength_le_of_begins (begins_takeBytes back hbehind)
    rw [takeBytes_of_le hbehind, Nat.min_eq_right hwhole]

/-- An offset that is forced into a part of a text means the place in this part. -/
theorem clamp?_boundary? (hchars : source.chars = front ++ (part ++ back)) (offset : Nat) :
    (Excerpt.clamp? offset (byteLength front) (byteLength front + byteLength part)).bind
        (Excerpt.boundary? source) =
      some (byteLength front + byteLength (takeBytes (offset - byteLength front) part)) := by
  obtain ⟨clamped, hclamped⟩ : ∃ clamped,
      clamped = max (byteLength front) (min offset (byteLength front + byteLength part)) := ⟨_, rfl⟩
  have hsame : takeBytes (clamped - byteLength front) part =
      takeBytes (offset - byteLength front) part := by
    rcases Nat.le_total offset (byteLength front + byteLength part) with hinside | hbehind
    · congr 1
      omega
    · rw [takeBytes_of_le (by omega), takeBytes_of_le (by omega)]
  have hfloor := source.floor_le clamped
  have hfront : byteLength front ≤ clamped := by omega
  have hmin := min_floor hchars hfront
  rw [Excerpt.clamp?, if_pos (Nat.le_add_right _ _), Option.bind_some, boundary?_eq, ← hclamped,
    ← hsame, ← hmin, Nat.min_eq_left (by omega)]

end SourceFile

/-! ## The line of a label -/

theorem dropCarriageReturn_begins (line : List Char) : dropCarriageReturn line <+: line :=
  ⟨strayReturn line, dropCarriageReturn_append_strayReturn line⟩

/-- The line that an offset lies on: the text in front of it, what is shown of it, and the rest. -/
theorem SourceFile.exists_shownLine (source : SourceFile) (offset : Nat) :
    ∃ earlier text back, source.chars = earlier ++ (text ++ back) ∧
      source.lineText? (source.lineCol offset).1 = some text ∧
      source.lineStart? (source.lineCol offset).1 = some (byteLength earlier) ∧
      byteLength earlier ≤ source.floor offset := by
  obtain ⟨earlier, after, hbefore, hlocates⟩ := source.exists_locates offset
  obtain ⟨line, hline⟩ : ∃ line, line = lastLine (source.before offset) := ⟨_, rfl⟩
  rw [← hline] at hbefore hlocates
  have hchars : source.chars = earlier ++ (line ++ after) := by
    rw [hlocates.chars, List.append_assoc]
  have hnumber : (source.lineCol offset).1 = earlier.count '\n' + 1 := by
    rw [lineCol, hbefore, List.count_append, List.count_eq_zero.mpr hlocates.inLine]
  have hfrom : fromLine? (earlier.count '\n') source.chars = some (line ++ after) :=
    fromLine?_eq_some_iff.mpr ⟨earlier, hchars, rfl, hlocates.ended⟩
  obtain ⟨back, hback⟩ : dropCarriageReturn ((line ++ after).takeWhile (· != '\n')) <+:
      line ++ after :=
    (dropCarriageReturn_begins _).trans (List.takeWhile_prefix _)
  refine ⟨earlier, _, back, hchars.trans (congrArg (earlier ++ ·) hback.symm), ?_, ?_, ?_⟩
  · rw [hnumber, lineText?, hfrom, Option.map_some]
  · rw [hnumber]
    exact lineStart?_eq_some_iff.mpr ⟨earlier, _, hchars, hlocates.ended, rfl, rfl⟩
  · rw [floor, hbefore, byteLength_append]
    exact Nat.le_add_right _ _

/-! ## Underlines -/

/-- What the underline of a label is about. Its line is shown as `lead ++ marked ++ rest`, where
`lead` lies in front of the label, and `marked` from there on in front of its end. -/
structure Underlines (sources : Sources) (source : SourceFile) (label : Label)
    (line lineStart : Nat) (lead marked rest : List Char) : Prop where
  shown : sources.lineText? label.range.file line = some (lead ++ marked ++ rest)
  starts : sources.lineStart? label.range.file line = some lineStart
  begun : lineStart ≤ source.floor label.range.start
  /-- The line up to the start of the label, or all of it. -/
  leads : lineStart + byteLength lead =
    min (source.floor label.range.start) (lineStart + byteLength (lead ++ marked ++ rest))
  /-- From there up to the end of the label, if it comes later, or all that is left. -/
  marks : lineStart + byteLength (lead ++ marked) = max (lineStart + byteLength lead)
    (min (source.floor label.range.stop) (lineStart + byteLength (lead ++ marked ++ rest)))
  inTerminator : lineStart + byteLength (lead ++ marked ++ rest) ≤
    source.floor label.range.start → marked = [] ∧ rest = []
  steps : Excerpt.underline? sources line label =
    some (Excerpt.underline sources line label)
  underline : Excerpt.underline sources line label =
    (Excerpt.width lead, max 1 (Excerpt.width marked))
  fits : (Excerpt.underline sources line label).1 + (Excerpt.underline sources line label).2 ≤
    (Excerpt.expandTabs (lead ++ marked ++ rest)).length + 1

theorem exists_underlines {sources : Sources} {source : SourceFile} {label : Label}
    (hfile : sources.file? label.range.file = some source) :
    ∃ lineStart lead marked rest, Underlines sources source label
      (sources.lineCol label.range.file label.range.start).1 lineStart lead marked rest := by
  obtain ⟨earlier, text, back, hchars, htext, hstart, hbegun⟩ :=
    source.exists_shownLine label.range.start
  obtain ⟨line, hline⟩ : ∃ line,
      line = (sources.lineCol label.range.file label.range.start).1 := ⟨_, rfl⟩
  have hsame : (source.lineCol label.range.start).1 = line := by
    rw [hline]
    simp [Sources.lineCol, hfile]
  rw [hsame] at htext hstart
  have hshown : sources.lineText? label.range.file line = some text := by
    simpa [Sources.lineText?, hfile] using htext
  have hstarts : sources.lineStart? label.range.file line = some (byteLength earlier) := by
    simpa [Sources.lineStart?, hfile] using hstart
  obtain ⟨lead, hlead⟩ : ∃ lead,
      lead = takeBytes (label.range.start - byteLength earlier) text := ⟨_, rfl⟩
  obtain ⟨remaining, rfl⟩ : lead <+: text := hlead ▸ takeBytes_begins _ text
  obtain ⟨marked, hmarked⟩ : ∃ marked, marked =
      takeBytes (label.range.stop - (byteLength earlier + byteLength lead)) remaining := ⟨_, rfl⟩
  obtain ⟨rest, rfl⟩ : marked <+: remaining := hmarked ▸ takeBytes_begins _ remaining
  have hunderline : Excerpt.underline sources line label =
      (Excerpt.width lead, max 1 (Excerpt.width marked)) := by
    simp only [Excerpt.underline, hshown, hstarts, Option.getD_some, ← hlead, List.drop_left,
      ← hmarked]
  have hbehind : source.chars = (earlier ++ lead) ++ ((marked ++ rest) ++ back) := by
    rw [hchars]
    simp only [List.append_assoc]
  have hoffset : byteLength earlier ≤ label.range.start :=
    Nat.le_trans hbegun (source.floor_le label.range.start)
  rw [← hline]
  refine ⟨byteLength earlier, lead, marked, rest, ?_⟩
  constructor
  case shown => rw [hshown, List.append_assoc]
  case starts => exact hstarts
  case begun => exact hbegun
  case leads =>
    rw [List.append_assoc, SourceFile.min_floor hchars hoffset, ← hlead]
  case marks =>
    rcases Nat.le_total (byteLength earlier + byteLength lead) label.range.stop with hin | hout
    · have hinside : byteLength (earlier ++ lead) ≤ label.range.stop := by
        rwa [byteLength_append]
      have hmin := SourceFile.min_floor hbehind hinside
      rw [byteLength_append, ← hmarked] at hmin
      simp only [byteLength_append] at hmin ⊢
      omega
    · have hnone : marked = [] := by rw [hmarked, Nat.sub_eq_zero_of_le hout, takeBytes_zero]
      have hfloor := source.floor_le label.range.stop
      simp only [hnone, byteLength_append, byteLength_nil]
      omega
  case inTerminator =>
    intro hend
    have hmin := SourceFile.min_floor hchars hoffset
    rw [← hlead] at hmin
    have hnone : byteLength (marked ++ rest) = 0 := by
      simp only [byteLength_append] at hend hmin ⊢
      omega
    exact List.append_eq_nil_iff.mp (Decidable.byContradiction fun hsome =>
      absurd hnone (Nat.ne_of_gt (byteLength_pos hsome)))
  case steps =>
    have hfirst : source.slice? (byteLength earlier) (byteLength earlier + byteLength lead) =
        some (String.ofList lead) :=
      SourceFile.slice?_of_append (hchars.trans (by rw [List.append_assoc]))
    have hsecond : source.slice? (byteLength earlier + byteLength lead)
        (byteLength earlier + byteLength lead + byteLength marked) = some (String.ofList marked) := by
      rw [← byteLength_append]
      exact SourceFile.slice?_of_append (hbehind.trans (by rw [List.append_assoc marked]))
    have hstart := SourceFile.clamp?_boundary? hchars label.range.start
    have hstop := SourceFile.clamp?_boundary? hbehind label.range.stop
    rw [← hlead] at hstart
    rw [byteLength_append, ← hmarked] at hstop
    have hend : byteLength earlier + byteLength (lead ++ (marked ++ rest)) =
        byteLength earlier + byteLength lead + byteLength (marked ++ rest) := by
      rw [byteLength_append, Nat.add_assoc]
    rw [hunderline, Excerpt.underline?, hfile, hshown, hstarts]
    simp only [Option.bind_eq_bind, Option.bind_some, Option.getD_some]
    rw [hstart, Option.bind_some, hend, hstop, Option.bind_some, hfirst, Option.bind_some, hsecond,
      Option.bind_some, String.toList_ofList, String.toList_ofList]
    rfl
  case underline => exact hunderline
  case fits =>
    rw [hunderline, Excerpt.length_expandTabs]
    simp only [Excerpt.width, total_append]
    omega

/-- **Underlines point at the text of their labels and never fail.** For a label of a registered
file, whatever its range, each step of looking for its underline succeeds. The column is the width of
its line in front of the label, the length that of the rest of the label on this line or 1, and
the underline goes at most one column beyond the line as it is printed. A report without colors is a
list of rows, each ending its line, and all marks of the gutter stand in one column. -/
theorem underlines_exact (sources : Sources) :
    (∀ label source, sources.file? label.range.file = some source →
      ∃ lineStart lead marked rest, Underlines sources source label
        (sources.lineCol label.range.file label.range.start).1 lineStart lead marked rest) ∧
    ∀ diagnostic : Diagnostic,
      diagnostic.render sources false = ReportRow.joined (diagnostic.rows sources) ∧
      ∃ column, ∀ row ∈ diagnostic.rows sources,
        row.MarkedAt column ∧ row.text.toList.getLast? = some '\n' := by
  refine ⟨fun _ _ hfile => exists_underlines hfile, fun diagnostic =>
    ⟨diagnostic.render_eq_rows sources,
      Diagnostic.gutterDigits (diagnostic.shownLabels sources) + 2, fun row hrow => ?_⟩⟩
  have hmarked := diagnostic.markedAt_of_mem_rows sources row hrow
  exact ⟨hmarked, hmarked.ends⟩

/-- A range that starts behind a tab, in the second byte of a character, and ends in the next line. -/
theorem underlines_exact_of_tab :
    let sources := (Sources.inDirectory ⟨"/work"⟩).add ⟨"/work/a.bt"⟩ "\té;\r\nb"
    let source : SourceFile := ⟨⟨"/work/a.bt"⟩, ['\t', 'é', ';', '\r', '\n', 'b']⟩
    let label : Label := ⟨⟨.registered 0, 2, 9⟩, .primary, ""⟩
    sources.file? label.range.file = some source ∧
      Excerpt.underline sources 1 label = (4, 2) ∧
      ∃ lineStart lead marked rest,
        Underlines sources source label 1 lineStart lead marked rest := by
  intro sources source label
  have hfile : sources.file? label.range.file = some source := by decide
  exact ⟨hfile, by decide, (underlines_exact sources).1 label source hfile⟩

end BehaviorTree
