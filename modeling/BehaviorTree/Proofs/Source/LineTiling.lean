import BehaviorTree.Proofs.Lexical.Alone
import BehaviorTree.Proofs.Source.Positions

/-!
# Lines make up a text

A text is its lines, each with what ends it: a line feed, a carriage return with a line feed, or the
end of the text. The lines that a file shows are these, in their order and at their places, with one
exception: a carriage return at the end of the text ends no line, and the last line is shown without
it.
-/

namespace BehaviorTree

/-- What ends a line. -/
inductive LineEnd
  | feed
  | returnFeed
  | endOfText
  deriving DecidableEq

def LineEnd.chars : LineEnd → List Char
  | feed => ['\n']
  | returnFeed => ['\r', '\n']
  | endOfText => []

structure Line where
  content : List Char
  ending : LineEnd
  deriving DecidableEq

def Line.chars (line : Line) : List Char := line.content ++ line.ending.chars

/-- The carriage return at the end of a text, which no line feed follows. -/
def strayReturn (text : List Char) : List Char := if text.getLast? = some '\r' then ['\r'] else []

/-- The lines make up the text but for a remainder. Only the last one ends with the text, and a
carriage return in front of a line feed belongs to the end of the line. -/
structure LineTiling (text : List Char) (lines : List Line) (remainder : List Char) : Prop where
  joined : lines.flatMap Line.chars ++ remainder = text
  nonempty : lines ≠ []
  unbroken : ∀ line ∈ lines, '\n' ∉ line.content
  feeds : ∀ line ∈ lines, line.ending = .feed → line.content.getLast? ≠ some '\r'
  endings : ∀ k line, lines[k]? = some line → (line.ending = .endOfText ↔ k + 1 = lines.length)

/-- The file shows just these lines, each at its place. -/
structure Sources.ShowsLines (sources : Sources) (id : FileId) (lines : List Line) : Prop where
  count : sources.lineCount id = lines.length
  texts : ∀ k line, lines[k]? = some line → sources.lineText? id (k + 1) = some line.content
  starts : ∀ k < lines.length,
    sources.lineStart? id (k + 1) = some (byteLength ((lines.take k).flatMap Line.chars))

/-! ### Every text has its lines -/

/-- A text is one line, or a line with its line feed in front of a text. -/
@[elab_as_elim]
theorem lineInduction {motive : List Char → Prop} (text : List Char)
    (last : ∀ line, '\n' ∉ line → motive line)
    (next : ∀ line rest, '\n' ∉ line → motive rest → motive (line ++ '\n' :: rest)) :
    motive text := by
  induction hlength : text.length using Nat.strongRecOn generalizing text with
  | _ n ih =>
      by_cases hfeed : '\n' ∈ text
      · obtain ⟨line, rest, rfl, hline⟩ := List.eq_append_cons_of_mem hfeed
        refine next line rest hline (ih rest.length ?_ rest rfl)
        rw [← hlength, List.length_append, List.length_cons]
        omega
      · exact last text hfeed

variable {text content remainder body more : List Char} {lines : List Line} {line : Line} {k : Nat}

theorem dropCarriageReturn_append_strayReturn (text : List Char) :
    dropCarriageReturn text ++ strayReturn text = text := by
  unfold dropCarriageReturn strayReturn
  by_cases hreturn : text.getLast? = some '\r'
  · obtain ⟨body, rfl⟩ := List.getLast?_eq_some_iff.mp hreturn
    simp
  · simp [hreturn]

theorem strayReturn_append_newline (text more : List Char) :
    strayReturn (text ++ '\n' :: more) = strayReturn more := by
  unfold strayReturn
  cases more with
  | nil => simp
  | cons c more => simp

theorem not_mem_strayReturn (text : List Char) : '\n' ∉ strayReturn text := by
  unfold strayReturn
  split <;> simp

theorem dropCarriageReturn_concat (content : List Char) :
    dropCarriageReturn (content ++ ['\r']) = content := by
  simp [dropCarriageReturn]

theorem dropCarriageReturn_of_getLast? (hreturn : text.getLast? ≠ some '\r') :
    dropCarriageReturn text = text := by
  simp [dropCarriageReturn, hreturn]

/-- A line with its line feed, and what is shown of it. -/
def Line.ofFed (text : List Char) : Line where
  content := dropCarriageReturn text
  ending := if text.getLast? = some '\r' then .returnFeed else .feed

theorem Line.chars_ofFed (text : List Char) : (ofFed text).chars = text ++ ['\n'] := by
  calc
    (ofFed text).chars = dropCarriageReturn text ++ (strayReturn text ++ ['\n']) := by
      unfold chars ofFed strayReturn
      by_cases hreturn : text.getLast? = some '\r' <;> simp [hreturn, LineEnd.chars]
    _ = text ++ ['\n'] := by rw [← List.append_assoc, dropCarriageReturn_append_strayReturn]

theorem dropCarriageReturn_subset (text : List Char) : dropCarriageReturn text ⊆ text := by
  unfold dropCarriageReturn
  split
  · exact List.dropLast_subset text
  · exact List.Subset.refl text

namespace LineTiling

theorem single (htext : '\n' ∉ text) :
    LineTiling text [⟨dropCarriageReturn text, .endOfText⟩] (strayReturn text) where
  joined := by simp [Line.chars, LineEnd.chars, dropCarriageReturn_append_strayReturn]
  nonempty := List.cons_ne_nil _ _
  unbroken := List.forall_mem_singleton.mpr fun hmem => htext (dropCarriageReturn_subset text hmem)
  feeds := List.forall_mem_singleton.mpr nofun
  endings k line hline := by
    obtain ⟨rfl, rfl⟩ : k = 0 ∧ line = ⟨dropCarriageReturn text, .endOfText⟩ := by
      cases k with
      | zero => exact ⟨rfl, (Option.some.inj hline).symm⟩
      | succ k => cases hline
    exact ⟨fun _ => rfl, fun _ => rfl⟩

theorem cons (htiling : LineTiling more lines remainder) (htext : '\n' ∉ text) :
    LineTiling (text ++ '\n' :: more) (Line.ofFed text :: lines) remainder where
  joined := by
    rw [List.flatMap_cons, Line.chars_ofFed, List.append_assoc, htiling.joined, List.append_assoc]
    rfl
  nonempty := List.cons_ne_nil _ _
  unbroken := List.forall_mem_cons.mpr
    ⟨fun hmem => htext (dropCarriageReturn_subset text hmem), htiling.unbroken⟩
  feeds := by
    refine List.forall_mem_cons.mpr ⟨fun hfeed => ?_, htiling.feeds⟩
    unfold Line.ofFed at hfeed ⊢
    split at hfeed
    · cases hfeed
    · rename_i hreturn
      rwa [dropCarriageReturn_of_getLast? hreturn]
  endings k line hline := by
    cases k with
    | zero =>
        obtain rfl := Option.some.inj hline
        have hlength := List.length_pos_iff.mpr htiling.nonempty
        unfold Line.ofFed
        rw [List.length_cons]
        constructor
        · intro hending
          split at hending <;> cases hending
        · intro hlast
          omega
    | succ k =>
        rw [htiling.endings k line hline, List.length_cons]
        omega

end LineTiling

theorem exists_lineTiling (text : List Char) : ∃ lines, LineTiling text lines (strayReturn text) := by
  induction text using lineInduction with
  | last text htext => exact ⟨_, .single htext⟩
  | next line rest hline ih =>
      obtain ⟨lines, hlines⟩ := ih
      rw [strayReturn_append_newline]
      exact ⟨_, hlines.cons hline⟩

/-! ### A file shows these lines -/

/-- A line that a line feed ends is a text without line feeds in front of it. -/
theorem Line.exists_body (hunbroken : '\n' ∉ line.content)
    (hfeed : line.ending = .feed → line.content.getLast? ≠ some '\r')
    (hending : line.ending ≠ .endOfText) :
    ∃ body, line.chars = body ++ ['\n'] ∧ '\n' ∉ body ∧ dropCarriageReturn body = line.content := by
  obtain ⟨content, ending⟩ := line
  cases ending with
  | feed => exact ⟨content, rfl, hunbroken, dropCarriageReturn_of_getLast? (hfeed rfl)⟩
  | returnFeed =>
      refine ⟨content ++ ['\r'], by simp [chars, LineEnd.chars], ?_,
        dropCarriageReturn_concat content⟩
      simpa using hunbroken
  | endOfText => exact absurd rfl hending

/-- What stands in front of the first line feed of a text, or of its end. -/
theorem takeWhile_unbroken (hbody : '\n' ∉ body) (hmore : more.head?.any (· != '\n') = false) :
    (body ++ more).takeWhile (· != '\n') = body := by
  refine takeWhile_append_stop (fun c hc => ?_) hmore
  exact bne_iff_ne.mpr fun heq => hbody (heq ▸ hc)

namespace LineTiling

variable (htiling : LineTiling text lines remainder)
include htiling

theorem body_of_ne (hline : lines[k]? = some line) (hlast : k + 1 ≠ lines.length) :
    ∃ body, line.chars = body ++ ['\n'] ∧ '\n' ∉ body ∧ dropCarriageReturn body = line.content := by
  have hmem := List.mem_of_getElem? hline
  refine Line.exists_body (htiling.unbroken line hmem) (htiling.feeds line hmem) fun hending => ?_
  exact hlast ((htiling.endings k line hline).mp hending)

/-- In front of a line stand as many lines that are over. -/
theorem front (hk : k < lines.length) :
    ((lines.take k).flatMap Line.chars).count '\n' = k ∧ IsOver ((lines.take k).flatMap Line.chars) := by
  induction k with
  | zero => exact ⟨rfl, .inl rfl⟩
  | succ k ih =>
      have hline : lines[k]? = some lines[k] := List.getElem?_eq_getElem (by omega)
      obtain ⟨hcount, -⟩ := ih (by omega)
      obtain ⟨body, hchars, hbody, -⟩ := htiling.body_of_ne hline (by omega)
      have hfront : (lines.take (k + 1)).flatMap Line.chars =
          (lines.take k).flatMap Line.chars ++ (body ++ ['\n']) := by
        rw [List.take_add_one, hline, List.flatMap_append, ← hchars]
        simp
      rw [hfront]
      constructor
      · rw [List.count_append, hcount, List.count_append, List.count_eq_zero.mpr hbody]
        rfl
      · exact .inr (by simp)

theorem fromLine?_eq (hline : lines[k]? = some line) : fromLine? k text =
    some (line.chars ++ ((lines.drop (k + 1)).flatMap Line.chars ++ remainder)) := by
  obtain ⟨hk, rfl⟩ := List.getElem?_eq_some_iff.mp hline
  obtain ⟨hcount, hover⟩ := htiling.front hk
  refine fromLine?_eq_some_iff.mpr ⟨(lines.take k).flatMap Line.chars, ?_, hcount, hover⟩
  calc
    text = (lines.take k ++ lines.drop k).flatMap Line.chars ++ remainder := by
      rw [List.take_append_drop, htiling.joined]
    _ = _ := by
      rw [List.drop_eq_getElem_cons hk, List.flatMap_append, List.flatMap_cons, List.append_assoc,
        List.append_assoc]

/-- Behind the last line stands nothing but the remainder. -/
theorem fromLine?_last (hline : lines[k]? = some line) (hlast : k + 1 = lines.length) :
    fromLine? k text = some (line.content ++ remainder) := by
  have hending := (htiling.endings k line hline).mpr hlast
  rw [htiling.fromLine?_eq hline, hlast, List.drop_length, Line.chars, hending]
  simp [LineEnd.chars]

theorem length_eq (hremainder : '\n' ∉ remainder) : lines.length = text.count '\n' + 1 := by
  have hpos := List.length_pos_iff.mpr htiling.nonempty
  obtain ⟨k, hk⟩ : ∃ k, k + 1 = lines.length := ⟨lines.length - 1, by omega⟩
  have hline : lines[k]? = some lines[k] := List.getElem?_eq_getElem (by omega)
  obtain ⟨front, hfront, hcount, -⟩ :=
    fromLine?_eq_some_iff.mp (htiling.fromLine?_last hline hk)
  have hcontent := htiling.unbroken lines[k] (List.getElem_mem _)
  rw [hfront, List.count_append, hcount, List.count_append, List.count_eq_zero.mpr hcontent,
    List.count_eq_zero.mpr hremainder]
  omega

end LineTiling

/-- The text of a line is shown as far as the end of the line. -/
theorem LineTiling.shown (htiling : LineTiling text lines (strayReturn text))
    (hline : lines[k]? = some line) :
    (fromLine? k text).map (fun chars => dropCarriageReturn (chars.takeWhile (· != '\n'))) =
      some line.content := by
  by_cases hlast : k + 1 = lines.length
  · have hcontent := htiling.unbroken line (List.mem_of_getElem? hline)
    have htail : '\n' ∉ line.content ++ strayReturn text := by
      simp [hcontent, not_mem_strayReturn]
    have htext := htiling.fromLine?_last hline hlast
    obtain ⟨front, hfront, -, -⟩ := fromLine?_eq_some_iff.mp htext
    have htaken : (line.content ++ strayReturn text ++ []).takeWhile (· != '\n') =
        line.content ++ strayReturn text := takeWhile_unbroken htail rfl
    rw [List.append_nil] at htaken
    rw [htext, Option.map_some, htaken]
    refine congrArg some ?_
    by_cases hreturn : text.getLast? = some '\r'
    · rw [strayReturn, if_pos hreturn, dropCarriageReturn_concat]
    · rw [strayReturn, if_neg hreturn, List.append_nil] at hfront ⊢
      refine dropCarriageReturn_of_getLast? fun hend => hreturn ?_
      rw [hfront, List.getLast?_append, hend, Option.some_or]
  · obtain ⟨body, hchars, hbody, hshown⟩ := htiling.body_of_ne hline hlast
    rw [htiling.fromLine?_eq hline, hchars, Option.map_some, List.append_assoc,
      List.singleton_append, takeWhile_unbroken hbody rfl, hshown]

namespace Sources

variable {sources : Sources} {id : FileId} {source : SourceFile}

theorem showsLines (hfile : sources.file? id = some source)
    (htiling : LineTiling source.chars lines (strayReturn source.chars)) :
    sources.ShowsLines id lines where
  count := by
    rw [(countsLines hfile).lineCount, htiling.length_eq (not_mem_strayReturn _), Nat.add_comm]
  texts k line hline := by
    rw [← htiling.shown hline]
    simp [Sources.lineText?, hfile, SourceFile.lineText?]
  starts k hk := by
    have hline : lines[k]? = some lines[k] := List.getElem?_eq_getElem hk
    obtain ⟨hcount, hover⟩ := htiling.front hk
    refine ((countsLines hfile).lineStart _ _).mpr
      ⟨_, (lines.drop k).flatMap Line.chars ++ strayReturn source.chars, ?_, hover, ?_, rfl⟩
    · rw [← List.append_assoc, ← List.flatMap_append, List.take_append_drop, htiling.joined]
    · rw [hcount]

/-- **Lines make up the text.** The lines of a registered text are shown in their order, each where
it starts, and together with what ends them they are the text up to its last character. Only a
carriage return there is lost: it ends no line, but the last line is shown without it. -/
theorem lines_tile (hfile : sources.file? id = some source) :
    ∃ lines, LineTiling source.chars lines (strayReturn source.chars) ∧
      sources.ShowsLines id lines := by
  obtain ⟨lines, htiling⟩ := exists_lineTiling source.chars
  exact ⟨lines, htiling, showsLines hfile htiling⟩

/-- A line of its own for each kind of end. -/
theorem lines_tile_of_threeEnds :
    let sources := (Sources.inDirectory ⟨"/work"⟩).add ⟨"/work/a.bt"⟩ "a\r\nb\nc"
    let source : SourceFile := ⟨⟨"/work/a.bt"⟩, ['a', '\r', '\n', 'b', '\n', 'c']⟩
    sources.file? (.registered 0) = some source ∧ strayReturn source.chars = [] ∧
      ∃ lines, LineTiling source.chars lines (strayReturn source.chars) ∧
        sources.ShowsLines (.registered 0) lines := by
  intro sources source
  have hfile : sources.file? (.registered 0) = some source := by decide
  exact ⟨hfile, rfl, lines_tile hfile⟩

/-- A carriage return at the end of a text is in no line and ends none. -/
theorem lines_lose_return :
    let sources := (Sources.inDirectory ⟨"/work"⟩).add ⟨"/work/a.bt"⟩ "a\r"
    let source : SourceFile := ⟨⟨"/work/a.bt"⟩, ['a', '\r']⟩
    sources.file? (.registered 0) = some source ∧
      ¬ ∃ lines, LineTiling source.chars lines [] ∧ sources.ShowsLines (.registered 0) lines := by
  intro sources source
  refine ⟨by decide, ?_⟩
  rintro ⟨lines, htiling, hcount, htexts, -⟩
  have hlength : lines.length = 1 := hcount.symm
  obtain ⟨line, rfl⟩ := List.length_eq_one_iff.mp hlength
  have hcontent : line.content = ['a'] := (Option.some.inj (htexts 0 line rfl)).symm
  have hending : line.ending = .endOfText := (htiling.endings 0 line rfl).mpr rfl
  have hjoined := htiling.joined
  simp [Line.chars, hcontent, hending, LineEnd.chars, source] at hjoined

end Sources

end BehaviorTree
