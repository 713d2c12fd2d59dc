import BehaviorTree.Proofs.FileSystem.Components
import BehaviorTree.Proofs.Source.LineTiling
import BehaviorTree.Proofs.Diagnostic.Drawing

/-!
# Colors

A text for a terminal is read as characters that are shown and sequences that select styles. Main
result: if nothing that a report is made from has an escape character, then the report with colors
shows the same characters as the one without, and a style that is on at the end of a line is that
of a text which goes on behind the line break.
-/

namespace BehaviorTree

/-! ## Styles in a text -/

/-- A character that is shown, or a sequence that selects a style by its parameter. -/
inductive Glyph
  | shown (c : Char)
  | control (parameter : List Char)
  deriving DecidableEq

namespace Glyph

def char? : Glyph → Option Char
  | shown c => some c
  | control _ => none

/-- Whether a style is on behind a glyph. -/
def leavesOn (on : Bool) : Glyph → Bool
  | shown _ => on
  | control parameter => parameter != ['0']

/-- The parameter of the sequence that a text begins with: an escape, a bracket, digits and `m`. -/
def parameter? : List Char → Option (List Char)
  | '\x1b' :: '[' :: rest =>
    if (rest.dropWhile Char.isDigit).head? = some 'm' then some (rest.takeWhile Char.isDigit)
    else none
  | _ => none

/-- The glyphs of a text whose first characters belong to a sequence in front of them. -/
def readBehind : Nat → List Char → List Glyph
  | _, [] => []
  | inside + 1, _ :: rest => readBehind inside rest
  | 0, c :: rest =>
    match parameter? (c :: rest) with
    | some parameter => .control parameter :: readBehind (parameter.length + 2) rest
    | none => .shown c :: readBehind 0 rest

/-- The glyphs of a text. -/
def read (text : String) : List Glyph := readBehind 0 text.toList

/-- Whether a style is on behind some glyphs. -/
def isStyled (glyphs : List Glyph) : Bool := glyphs.foldl leavesOn false

end Glyph

/-- A text without the sequences that select styles. -/
def withoutStyles (text : String) : String :=
  String.ofList ((Glyph.read text).filterMap Glyph.char?)

namespace Glyph

variable {chars rest : List Char}

theorem readBehind_eq (inside : Nat) (chars : List Char) :
    readBehind inside chars = readBehind 0 (chars.drop inside) := by
  induction chars generalizing inside with
  | nil => cases inside <;> rfl
  | cons c rest ih =>
      cases inside with
      | zero => rfl
      | succ inside => exact ih inside

/-- Characters without escapes are shown. -/
theorem readBehind_plain (hplain : '\x1b' ∉ chars) (rest : List Char) :
    readBehind 0 (chars ++ rest) = chars.map shown ++ readBehind 0 rest := by
  induction chars with
  | nil => rfl
  | cons c chars ih =>
      have hnone : parameter? (c :: (chars ++ rest)) = none := by
        unfold parameter?
        split
        · rename_i heq
          exact absurd (List.cons.inj heq).1.symm (List.ne_of_not_mem_cons hplain)
        · rfl
      rw [List.cons_append, readBehind, hnone]
      exact congrArg (.shown c :: ·) (ih (List.not_mem_of_not_mem_cons hplain))

theorem readBehind_escapeSequence {parameter : String}
    (hdigits : ∀ c ∈ parameter.toList, c.isDigit = true) (rest : List Char) :
    readBehind 0 ((escapeSequence parameter).toList ++ rest) =
      .control parameter.toList :: readBehind 0 rest := by
  have hchars : (escapeSequence parameter).toList ++ rest =
      '\x1b' :: '[' :: (parameter.toList ++ 'm' :: rest) := by
    simp [escapeSequence]
  have hparameter : parameter? ('\x1b' :: '[' :: (parameter.toList ++ 'm' :: rest)) =
      some parameter.toList := by
    rw [parameter?, List.dropWhile_append_of_pos hdigits, List.takeWhile_append_of_pos hdigits]
    simp
  rw [hchars, readBehind, hparameter]
  dsimp only
  rw [readBehind_eq]
  simp

theorem isStyled_append (glyphs more : List Glyph) :
    isStyled (glyphs ++ more) = more.foldl leavesOn (isStyled glyphs) :=
  List.foldl_append

theorem foldl_leavesOn_shown (on : Bool) (chars : List Char) :
    (chars.map shown).foldl leavesOn on = on := by
  induction chars with
  | nil => rfl
  | cons c rest ih => exact ih

end Glyph

/-! ## Glyphs of fragments -/

namespace Fragment

def text : Fragment → String
  | plain text => text
  | painted _ text => text

/-- The glyphs of a fragment that is written with colors. -/
def glyphs : Fragment → List Glyph
  | plain text => text.toList.map Glyph.shown
  | painted styles text =>
    styles.map (fun style => .control style.parameter.toList) ++ text.toList.map Glyph.shown ++
      [.control ['0']]

theorem readBehind_styles (styles : List Style) (rest : List Char) :
    Glyph.readBehind 0
        ((String.join (styles.map fun style => escapeSequence style.parameter)).toList ++ rest) =
      styles.map (fun style => .control style.parameter.toList) ++ Glyph.readBehind 0 rest := by
  induction styles with
  | nil => rfl
  | cons style styles ih =>
      have hdigits : ∀ c ∈ style.parameter.toList, c.isDigit = true :=
        List.all_eq_true.mp (by cases style <;> decide)
      rw [List.map_cons, String.join_cons, String.toList_append, List.append_assoc,
        Glyph.readBehind_escapeSequence hdigits, ih]
      rfl

/-- A fragment without escapes is read as it was written. -/
theorem readBehind_shown {fragment : Fragment} (hplain : '\x1b' ∉ fragment.text.toList)
    (rest : List Char) : Glyph.readBehind 0 ((fragment.shown true).toList ++ rest) =
      fragment.glyphs ++ Glyph.readBehind 0 rest := by
  cases fragment with
  | plain text => exact Glyph.readBehind_plain hplain rest
  | painted styles text =>
      have hplain : '\x1b' ∉ text.toList := hplain
      have hreset : ∀ c ∈ "0".toList, c.isDigit = true := List.all_eq_true.mp (by decide)
      rw [Fragment.shown, paint, if_pos rfl, String.toList_append, String.toList_append,
        List.append_assoc, List.append_assoc, readBehind_styles, Glyph.readBehind_plain hplain,
        Glyph.readBehind_escapeSequence hreset, glyphs, List.append_assoc, List.append_assoc]
      rfl

variable {fragments : List Fragment}

theorem read_joined (hplain : ∀ fragment ∈ fragments, '\x1b' ∉ fragment.text.toList) :
    Glyph.read (joined true fragments) = fragments.flatMap glyphs := by
  have hread : ∀ rest, Glyph.readBehind 0 ((joined true fragments).toList ++ rest) =
      fragments.flatMap glyphs ++ Glyph.readBehind 0 rest := by
    intro rest
    induction fragments with
    | nil => rfl
    | cons fragment fragments ih =>
        rw [joined_cons, String.toList_append, List.append_assoc,
          readBehind_shown (hplain fragment List.mem_cons_self),
          ih fun other hother => hplain other (List.mem_cons_of_mem fragment hother),
          List.flatMap_cons, List.append_assoc]
  simpa [Glyph.read, Glyph.readBehind] using hread []

theorem filterMap_glyphs (fragment : Fragment) :
    fragment.glyphs.filterMap Glyph.char? = (fragment.shown false).toList := by
  have hshown : ∀ chars : List Char, (chars.map Glyph.shown).filterMap Glyph.char? = chars := by
    intro chars
    rw [List.filterMap_map]
    exact List.filterMap_some
  cases fragment with
  | plain text => exact hshown _
  | painted styles text =>
      have hstyles : (styles.map fun style => Glyph.control style.parameter.toList).filterMap
          Glyph.char? = [] := by
        rw [List.filterMap_map]
        exact List.filterMap_eq_nil_iff.mpr fun _ _ => rfl
      rw [glyphs, List.filterMap_append, List.filterMap_append, hstyles, hshown, Fragment.shown,
        paint, if_neg Bool.false_ne_true]
      simp [Glyph.char?]

/-- Without its styles, a text with colors is the one without colors. -/
theorem withoutStyles_joined (hplain : ∀ fragment ∈ fragments, '\x1b' ∉ fragment.text.toList) :
    withoutStyles (joined true fragments) = joined false fragments := by
  have hchars : (joined false fragments).toList =
      fragments.flatMap fun fragment => (fragment.shown false).toList := by
    rw [joined, String.toList_join, List.flatMap_map]
  calc withoutStyles (joined true fragments)
      = String.ofList ((fragments.flatMap glyphs).filterMap Glyph.char?) := by
        rw [withoutStyles, read_joined hplain]
    _ = String.ofList (fragments.flatMap fun fragment => (fragment.shown false).toList) := by
        simp only [List.filterMap_flatMap, filterMap_glyphs]
    _ = joined false fragments := by rw [← hchars, String.ofList_toList]

/-- No style is on behind a fragment. -/
theorem isStyled_glyphs (fragments : List Fragment) :
    Glyph.isStyled (fragments.flatMap glyphs) = false := by
  induction fragments with
  | nil => rfl
  | cons fragment fragments ih =>
      have hfragment : Glyph.isStyled fragment.glyphs = false := by
        cases fragment with
        | plain text => exact Glyph.foldl_leavesOn_shown false _
        | painted styles text =>
            rw [glyphs, Glyph.isStyled_append]
            rfl
      rw [List.flatMap_cons, Glyph.isStyled_append, hfragment]
      exact ih

/-- An element of lists that are put together stands in one of them. -/
theorem exists_split_of_flatMap {α β : Type} {f : α → List β} {list : List α} {x : β}
    {before after : List β} (hsplit : list.flatMap f = before ++ x :: after) :
    ∃ front y back left right, list = front ++ y :: back ∧ f y = left ++ x :: right ∧
      before = front.flatMap f ++ left := by
  induction list generalizing before with
  | nil => simp at hsplit
  | cons y list ih =>
      rw [List.flatMap_cons] at hsplit
      obtain ⟨others, rfl, hothers⟩ | ⟨others, hy, hothers⟩ :=
        List.append_eq_append_iff.mp hsplit
      · obtain ⟨front, z, back, left, right, rfl, hz, rfl⟩ := ih hothers
        exact ⟨y :: front, z, back, left, right, rfl, hz, (List.append_assoc _ _ _).symm⟩
      · cases others with
        | nil =>
            have hrest : list.flatMap f = [] ++ x :: after := hothers.symm
            obtain ⟨front, z, back, left, right, rfl, hz, hnil⟩ := ih hrest
            refine ⟨y :: front, z, back, left, right, rfl, hz, ?_⟩
            rw [List.flatMap_cons, List.append_assoc, ← hnil, hy, List.append_nil, List.append_nil]
        | cons first rest =>
            obtain ⟨rfl, rfl⟩ := List.cons.inj hothers
            exact ⟨[], y, list, before, rest, rfl, hy, rfl⟩

section NotMem

variable {α : Type} {x : α} {front back left right : List α}

/-- An element that is not in the front of a list stands behind it. -/
theorem exists_split_behind (hfront : x ∉ front) (hsplit : front ++ back = left ++ x :: right) :
    ∃ more, left = front ++ more ∧ back = more ++ x :: right := by
  obtain ⟨others, hleft, hback⟩ | ⟨others, rfl, hback⟩ := List.append_eq_append_iff.mp hsplit
  · exact ⟨others, hleft, hback⟩
  · cases others with
    | nil => exact ⟨[], by simp, hback.symm⟩
    | cons first rest =>
        obtain ⟨rfl, -⟩ := List.cons.inj hback
        simp at hfront

/-- An element that is not in the back of a list stands in front of it. -/
theorem exists_split_before (hback : x ∉ back) (hsplit : front ++ back = left ++ x :: right) :
    ∃ more, front = left ++ x :: more := by
  obtain ⟨others, rfl, hothers⟩ | ⟨others, rfl, hothers⟩ := List.append_eq_append_iff.mp hsplit
  · rw [hothers] at hback
    simp at hback
  · cases others with
    | nil =>
        rw [← List.nil_append back, ← hothers] at hback
        simp at hback
    | cons first rest =>
        obtain ⟨rfl, -⟩ := List.cons.inj hothers
        exact ⟨rest, rfl⟩

end NotMem

/-- Between the sequences of a painted text, the text is shown. -/
theorem exists_split_of_painted {styles : List Style} {text : String} {c : Char}
    {left right : List Glyph}
    (hsplit : (painted styles text).glyphs = left ++ .shown c :: right) :
    ∃ front back, text.toList = front ++ c :: back ∧
      left = styles.map (fun style => Glyph.control style.parameter.toList) ++
        front.map Glyph.shown := by
  obtain ⟨middle, hmiddle⟩ := exists_split_before (by simp) hsplit
  obtain ⟨more, rfl, hshown⟩ := exists_split_behind (by simp) hmiddle
  obtain ⟨front, rest, htext, rfl, hrest⟩ := List.map_eq_append_iff.mp hshown
  obtain ⟨first, back, rfl, hfirst, -⟩ := List.map_eq_cons_iff.mp hrest
  cases hfirst
  exact ⟨front, back, htext, rfl⟩

/-- A line break behind which a style stays on is in a painted text. -/
theorem exists_painted_of_isStyled {before after : List Glyph}
    (hsplit : fragments.flatMap glyphs = before ++ .shown '\n' :: after)
    (hon : Glyph.isStyled before = true) : ∃ front styles text back left right,
      fragments = front ++ .painted styles text :: back ∧
      text.toList = left ++ '\n' :: right ∧
      before = front.flatMap glyphs ++
        styles.map (fun style => Glyph.control style.parameter.toList) ++ left.map Glyph.shown := by
  obtain ⟨front, fragment, back, left, right, rfl, hfragment, rfl⟩ :=
    exists_split_of_flatMap hsplit
  cases fragment with
  | plain text =>
      obtain ⟨chars, more, htext, rfl, hmore⟩ := List.map_eq_append_iff.mp hfragment
      rw [Glyph.isStyled_append, Glyph.foldl_leavesOn_shown, isStyled_glyphs] at hon
      cases hon
  | painted styles text =>
      obtain ⟨chars, more, htext, rfl⟩ := exists_split_of_painted hfragment
      exact ⟨front, styles, text, back, chars, more, rfl, htext, (List.append_assoc _ _ _).symm⟩

end Fragment

/-! ## Texts without escapes -/

/-- No path and no text has an escape. The working directory is only shown if it is not absolute. -/
structure Sources.NoEscapes (sources : Sources) : Prop where
  paths : ∀ file ∈ sources.files, '\x1b' ∉ file.path.text.toList
  texts : ∀ file ∈ sources.files, '\x1b' ∉ file.chars
  directory : sources.directory.isAbsolute = false → '\x1b' ∉ sources.directory.text.toList

/-- Nothing that is written of a diagnostic has an escape. -/
structure Diagnostic.NoEscapes (diagnostic : Diagnostic) : Prop where
  message : '\x1b' ∉ diagnostic.message.toList
  code : ∀ code ∈ diagnostic.code, '\x1b' ∉ code.toList
  labels : ∀ label ∈ diagnostic.labels, '\x1b' ∉ label.message.toList
  help : ∀ help ∈ diagnostic.help, '\x1b' ∉ help.toList
  note : ∀ note ∈ diagnostic.note, '\x1b' ∉ note.toList

/-- The texts that a part has of its own have no escape. -/
def ReportPart.NoEscapes : ReportPart → Prop
  | headline code message => '\x1b' ∉ message.toList ∧ ∀ text ∈ code, '\x1b' ∉ text.toList
  | header arrow _ _ => '\x1b' ∉ arrow.toList
  | underline _ label => '\x1b' ∉ label.message.toList
  | remark title text => '\x1b' ∉ title.toList ∧ '\x1b' ∉ text.toList
  | gap | sourceLine _ _ | ending => True

theorem SourceFile.lineText?_subset {source : SourceFile} {line : Nat} {text : List Char}
    (htext : source.lineText? line = some text) : text ⊆ source.chars := by
  cases line with
  | zero => cases htext
  | succ line =>
      obtain ⟨tail, htail, rfl⟩ := Option.map_eq_some_iff.mp htext
      obtain ⟨front, hchars, -, -⟩ := fromLine?_eq_some_iff.mp htail
      intro c hc
      rw [hchars]
      exact List.mem_append_right front
        ((List.takeWhile_sublist _).subset (dropCarriageReturn_subset _ hc))

namespace Sources

variable {sources : Sources}

theorem mem_files_of_file? {file : FileId} {source : SourceFile}
    (hsource : sources.file? file = some source) : source ∈ sources.files := by
  cases file with
  | registered index => exact List.mem_of_getElem? hsource
  | detached => cases hsource

theorem NoEscapes.displayPath (h : sources.NoEscapes) (file : FileId) :
    '\x1b' ∉ (sources.displayPath file).toList := by
  cases hfile : sources.file? file with
  | none =>
      rw [Sources.displayPath, path?, hfile, Option.map_none, Option.map_none, Option.getD_none]
      decide
  | some source =>
      rw [Sources.displayPath, path?, hfile]
      intro hescape
      rcases Path.mem_shownFrom hescape with hpath | hslash | hdot | ⟨hrelative, hin⟩
      · exact h.paths source (mem_files_of_file? hfile) hpath
      · cases hslash
      · cases hdot
      · exact h.directory hrelative hin

theorem NoEscapes.lineText (h : sources.NoEscapes) (file : FileId) (line : Nat) :
    '\x1b' ∉ (sources.lineText? file line).getD [] := by
  cases htext : sources.lineText? file line with
  | none => exact List.not_mem_nil
  | some text =>
      obtain ⟨source, hsource, hline⟩ := Option.bind_eq_some_iff.mp htext
      exact fun hescape => h.texts source (mem_files_of_file? hsource)
        (SourceFile.lineText?_subset hline hescape)

end Sources

theorem Excerpt.mem_expandTabs {c : Char} {chars : List Char} (hc : c ∈ expandTabs chars) :
    c = ' ' ∨ c ∈ chars := by
  obtain ⟨original, horiginal, hin⟩ := List.mem_flatMap.mp hc
  split at hin
  · exact .inl (List.eq_of_mem_replicate hin)
  · exact .inr (List.mem_singleton.mp hin ▸ horiginal)

/-- Numbers are written in digits. -/
theorem escape_not_mem_toDigits (n : Nat) : '\x1b' ∉ Nat.toDigits 10 n := fun hescape =>
  absurd (Nat.isDigit_of_mem_toDigits (by decide) (by decide) hescape) (by decide)

theorem escape_not_mem_name (severity : Severity) : '\x1b' ∉ severity.name.toList := by
  cases severity <;> decide

namespace ReportPart

variable {printer : Printer}

/-- A part is written without escapes if the texts it is made from have none. -/
theorem NoEscapes.fragments {part : ReportPart} (h : part.NoEscapes)
    (hsources : printer.sources.NoEscapes) :
    ∀ fragment ∈ part.fragments printer, '\x1b' ∉ fragment.text.toList := by
  have hpadding : '\x1b' ∉ printer.padding.toList := by
    simp [Printer.padding]
  cases part with
  | headline code message =>
      rw [NoEscapes] at h
      obtain ⟨hmessage, hcode⟩ := h
      have hname := escape_not_mem_name printer.severity
      cases code with
      | none => simp [ReportPart.fragments, Fragment.text, hmessage, hname]
      | some code =>
          have hcode := hcode code rfl
          simp [ReportPart.fragments, Fragment.text, hmessage, hname, hcode]
  | header arrow file place =>
      rw [NoEscapes] at h
      have hpath := hsources.displayPath file
      simp [ReportPart.fragments, Fragment.text, hpadding, hpath, h, escape_not_mem_toDigits]
  | gap => simp [ReportPart.fragments, Fragment.text, hpadding, bar]
  | sourceLine file line =>
      have hline : '\x1b' ∉ Excerpt.expandTabs ((printer.sources.lineText? file line).getD []) := by
        intro hescape
        rcases Excerpt.mem_expandTabs hescape with hblank | hin
        · cases hblank
        · exact hsources.lineText file line hin
      have hnumber : '\x1b' ∉ (printer.lineNumber line).toList := by
        simp [Printer.lineNumber, escape_not_mem_toDigits]
      simp only [ReportPart.fragments, List.mem_cons, List.not_mem_nil, or_false, forall_eq_or_imp,
        forall_eq]
      refine ⟨by decide, hnumber, by decide, by decide, ?_⟩
      split <;> simp [Fragment.text, hline]
  | underline line label =>
      rw [NoEscapes] at h
      simp only [ReportPart.fragments, List.mem_cons, List.not_mem_nil, or_false, forall_eq_or_imp,
        forall_eq]
      refine ⟨?_, by decide, by decide, ?_, by decide⟩
      · simp [Fragment.text, hpadding]
      · cases label.isPrimary <;> by_cases hempty : label.message = "" <;>
          simp [Fragment.text, h, hempty]
  | remark title text =>
      rw [NoEscapes] at h
      simp [ReportPart.fragments, Fragment.text, hpadding, h]
  | ending => simp [ReportPart.fragments, Fragment.text]

end ReportPart

/-! ## Parts without escapes -/

namespace Excerpt

variable {sources : Sources} {labels : List Label} {groups : List FileGroup}

theorem noEscapes_fileParts {arrow : String} (harrow : '\x1b' ∉ arrow.toList)
    (anchor : Option Label) {group : FileGroup}
    (hlabels : ∀ line ∈ group.2, ∀ label ∈ line.2, '\x1b' ∉ label.message.toList) :
    ∀ part ∈ fileParts sources arrow anchor group, part.NoEscapes := by
  cases anchor with
  | none => exact fun _ hpart => nomatch hpart
  | some anchor =>
      intro part hpart
      simp only [fileParts, List.mem_cons, List.mem_flatMap, lineParts, List.mem_map] at hpart
      obtain rfl | rfl | ⟨line, hline, rfl | ⟨label, hlabel, rfl⟩⟩ := hpart
      · exact harrow
      · exact trivial
      · exact trivial
      · exact hlabels line hline label hlabel

theorem noEscapes_groupParts (primary : Option Label)
    (hlabels : ∀ group ∈ groups, ∀ line ∈ group.2, ∀ label ∈ line.2,
      '\x1b' ∉ label.message.toList) :
    ∀ part ∈ groupParts sources primary groups, part.NoEscapes := by
  cases groups with
  | nil => exact fun _ hpart => nomatch hpart
  | cons first others =>
      intro part hpart
      rcases List.mem_append.mp hpart with hfirst | hother
      · exact noEscapes_fileParts (by decide) _ (hlabels first List.mem_cons_self) part hfirst
      · obtain ⟨group, hgroup, hin⟩ := List.mem_flatMap.mp hother
        exact noEscapes_fileParts (by decide) _
          (hlabels group (List.mem_cons_of_mem first hgroup)) part hin

end Excerpt

namespace Diagnostic

variable {diagnostic : Diagnostic}

theorem noEscapes_remarkParts {title : String} {remark : Option String}
    (htitle : '\x1b' ∉ title.toList) (hremark : ∀ text ∈ remark, '\x1b' ∉ text.toList) :
    ∀ part ∈ remarkParts title remark, part.NoEscapes := by
  intro part hpart
  obtain ⟨text, htext, rfl⟩ := List.mem_map.mp hpart
  exact ⟨htitle, hremark text (Option.mem_toList.mp htext)⟩

theorem NoEscapes.parts (h : diagnostic.NoEscapes) (sources : Sources) :
    ∀ part ∈ diagnostic.parts sources, part.NoEscapes := by
  intro part hpart
  simp only [Diagnostic.parts, List.cons_append, List.append_assoc, List.mem_cons,
    List.mem_append, List.not_mem_nil, or_false] at hpart
  obtain rfl | hfile | hgap | hhelp | hnote | rfl := hpart
  · exact ⟨h.message, h.code⟩
  · refine Excerpt.noEscapes_groupParts _ ?_ part hfile
    intro group hgroup line hline label hlabel
    have hdrawn := (Excerpt.mem_groupLabels hgroup hline hlabel).1
    exact h.labels label (Excerpt.mem_located.mp hdrawn).1
  · split at hgap
    · rw [List.mem_singleton.mp hgap]
      exact trivial
    · cases hgap
  · exact noEscapes_remarkParts (by decide) h.help part hhelp
  · exact noEscapes_remarkParts (by decide) h.note part hnote
  · exact trivial

/-- How a part is written does not depend on colors. -/
theorem written_printer (sources : Sources) (color : Bool) (parts : List ReportPart) :
    ReportPart.written (diagnostic.printer sources color) parts =
      Fragment.joined color
        (parts.flatMap (ReportPart.fragments (diagnostic.printer sources false))) := by
  have hpart : ReportPart.fragments (diagnostic.printer sources color) =
      ReportPart.fragments (diagnostic.printer sources false) := by
    funext part
    cases part <;> rfl
  rw [ReportPart.written, hpart]
  rfl

theorem render_eq_joined (diagnostic : Diagnostic) (sources : Sources) (color : Bool) :
    diagnostic.render sources color = Fragment.joined color (diagnostic.fragments sources) := by
  rw [render_eq_written, written_printer]
  rfl

theorem NoEscapes.fragments (h : diagnostic.NoEscapes) {sources : Sources}
    (hsources : sources.NoEscapes) :
    ∀ fragment ∈ diagnostic.fragments sources, '\x1b' ∉ fragment.text.toList := by
  intro fragment hfragment
  obtain ⟨part, hpart, hin⟩ := List.mem_flatMap.mp hfragment
  exact (h.parts sources part hpart).fragments hsources fragment hin

end Diagnostic

/-! ## All reports -/

namespace Diagnostics

/-- How all reports are written, one behind the other in display order. -/
def fragments (diagnostics : List Diagnostic) (sources : Sources) : List Fragment :=
  (inDisplayOrder diagnostics).flatMap fun diagnostic => diagnostic.fragments sources

theorem render_eq_joined (diagnostics : List Diagnostic) (sources : Sources) (color : Bool) :
    render diagnostics sources color = Fragment.joined color (fragments diagnostics sources) := by
  rw [render, fragments]
  induction inDisplayOrder diagnostics with
  | nil => rfl
  | cons diagnostic rest ih =>
      rw [List.map_cons, String.join_cons, ih, Diagnostic.render_eq_joined, List.flatMap_cons,
        Fragment.joined_append]

variable {diagnostics : List Diagnostic} {sources : Sources}

theorem escape_not_mem_fragments (hdiagnostics : ∀ diagnostic ∈ diagnostics, diagnostic.NoEscapes)
    (hsources : sources.NoEscapes) :
    ∀ fragment ∈ fragments diagnostics sources, '\x1b' ∉ fragment.text.toList := by
  intro fragment hfragment
  obtain ⟨diagnostic, hdiagnostic, hin⟩ := List.mem_flatMap.mp hfragment
  have hmem := (inDisplayOrder_perm diagnostics).mem_iff.mp hdiagnostic
  exact (hdiagnostics diagnostic hmem).fragments hsources fragment hin

/-- **Colors are presentation only.** Without the sequences that select styles, the reports with
colors are those without. No style is on at their end, and where one is on at a line break, this
line break is in the text that is painted with the style. -/
theorem colors_only_paint (hdiagnostics : ∀ diagnostic ∈ diagnostics, diagnostic.NoEscapes)
    (hsources : sources.NoEscapes) :
    (∀ color, render diagnostics sources color =
      Fragment.joined color (fragments diagnostics sources)) ∧
    withoutStyles (render diagnostics sources true) = render diagnostics sources false ∧
    Glyph.isStyled (Glyph.read (render diagnostics sources true)) = false ∧
    ∀ before after, Glyph.read (render diagnostics sources true) = before ++ .shown '\n' :: after →
      Glyph.isStyled before = true → ∃ front styles text back left right,
        fragments diagnostics sources = front ++ .painted styles text :: back ∧
        text.toList = left ++ '\n' :: right ∧
        before = front.flatMap Fragment.glyphs ++
          styles.map (fun style => Glyph.control style.parameter.toList) ++
          left.map Glyph.shown := by
  have hplain := escape_not_mem_fragments hdiagnostics hsources
  refine ⟨render_eq_joined diagnostics sources, ?_⟩
  rw [render_eq_joined, render_eq_joined, Fragment.withoutStyles_joined hplain,
    Fragment.read_joined hplain]
  exact ⟨rfl, Fragment.isStyled_glyphs _, fun before after hsplit hon =>
    Fragment.exists_painted_of_isStyled hsplit hon⟩

/-- A message of two lines, which stays bold through its line break. -/
theorem colors_only_paint_of_twoLines :
    let sources := (Sources.inDirectory ⟨"/work"⟩).add ⟨"/work/a.bt"⟩ "\tx\n"
    let diagnostics := [(Diagnostic.error ⟨.registered 0, 1, 2⟩ "a\nb").withLabel "here"]
    (∀ diagnostic ∈ diagnostics, diagnostic.NoEscapes) ∧ sources.NoEscapes ∧
      render diagnostics sources true =
        "\x1b[1m\x1b[31merror\x1b[0m\x1b[1m: a\nb\x1b[0m\n" ++
        "  \x1b[1m\x1b[34m-->\x1b[0m a.bt:1:2\n" ++
        "   \x1b[1m\x1b[34m|\x1b[0m\n" ++
        " \x1b[1m\x1b[34m1\x1b[0m \x1b[1m\x1b[34m|\x1b[0m     x\n" ++
        "   \x1b[1m\x1b[34m|\x1b[0m \x1b[1m\x1b[31m    ^ here\x1b[0m\n\n" ∧
      withoutStyles (render diagnostics sources true) = render diagnostics sources false := by
  intro sources diagnostics
  have hdiagnostics : ∀ diagnostic ∈ diagnostics, diagnostic.NoEscapes := by
    intro diagnostic hdiagnostic
    rw [List.mem_singleton.mp hdiagnostic]
    exact ⟨by decide, by decide, by decide, by decide, by decide⟩
  have hsources : sources.NoEscapes := ⟨by decide, by decide, by decide⟩
  exact ⟨hdiagnostics, hsources, by decide +kernel,
    (colors_only_paint hdiagnostics hsources).2.1⟩

end Diagnostics

end BehaviorTree
