import BehaviorTree.Lexical.Gap

/-!
# Gaps between tokens

A grammar for what may separate tokens, told without a scanner, and the proof that the scanner reads
exactly the texts of this grammar. A gap that ends inside a comment ends with the file.
-/

namespace BehaviorTree

namespace Gap

/-- How a gap ends: between comments, in a line comment or in a block comment. -/
inductive Ending
  | closed
  | line
  | block
  deriving DecidableEq

def Mode.ending : Mode → Ending
  | between => .closed
  | line => .line
  | block .. => .block

/-- Whether a text starts with a mark that opens or closes a block comment. -/
def StartsMark (text : List Char) : Prop :=
  text.take 2 = ['/', '*'] ∨ text.take 2 = ['*', '/']

/-- In front of the text so many block comments are open, and behind it so many. Marks are taken
where they come first, and nothing follows the mark that closes the outermost comment. -/
inductive Nested : Nat → List Char → Nat → Prop
  | done {depth : Nat} : Nested depth [] depth
  | opening {depth final : Nat} {rest : List Char} : Nested (depth + 2) rest final →
    Nested (depth + 1) ('/' :: '*' :: rest) final
  | closing {depth final : Nat} {rest : List Char} : Nested depth rest final →
    Nested (depth + 1) ('*' :: '/' :: rest) final
  | other {depth final : Nat} {c : Char} {rest : List Char} : ¬ StartsMark (c :: rest) →
    Nested (depth + 1) rest final → Nested (depth + 1) (c :: rest) final

/-- The text of a line comment, behind its two slashes. -/
structure IsLine (body : List Char) : Prop where
  inLine : '\n' ∉ body
  noDoc : docMark? body = none

/-- A sequence of blanks, line comments that are no documentation, each through the end of its
line, and block comments, each through the mark that closes it. The last comment may lack its end. -/
inductive Text : Ending → List Char → Prop
  | nil : Text .closed []
  | blank {ending : Ending} {c : Char} {rest : List Char} : isBlank c = true → Text ending rest →
    Text ending (c :: rest)
  | line {ending : Ending} {body rest : List Char} : IsLine body → Text ending rest →
    Text ending ('/' :: '/' :: (body ++ '\n' :: rest))
  | block {ending : Ending} {body rest : List Char} : Nested 1 body 0 → Text ending rest →
    Text ending ('/' :: '*' :: (body ++ rest))
  | openLine {body : List Char} : IsLine body → Text .line ('/' :: '/' :: body)
  | openBlock {body : List Char} {depth : Nat} : Nested 1 body (depth + 1) →
    Text .block ('/' :: '*' :: body)

/-- What remains of a gap behind a place in it. -/
inductive Remainder : Mode → Ending → List Char → Prop
  | between {ending : Ending} {text : List Char} : Text ending text →
    Remainder .between ending text
  | line {ending : Ending} {body rest : List Char} : '\n' ∉ body → Text ending rest →
    Remainder .line ending (body ++ '\n' :: rest)
  | openLine {body : List Char} : '\n' ∉ body → Remainder .line .line body
  | block {start inner : Nat} {ending : Ending} {body rest : List Char} :
    Nested (inner + 1) body 0 → Text ending rest →
    Remainder (.block start inner) ending (body ++ rest)
  | openBlock {start inner depth : Nat} {body : List Char} :
    Nested (inner + 1) body (depth + 1) → Remainder (.block start inner) .block body

variable {offset start inner depth final : Nat} {mode : Mode} {ending : Ending}
  {c : Char} {chars body rest text : List Char}

@[simp] theorem text_push (front : List Char) (gap : Gap) :
    (gap.push front).text = front ++ gap.text := rfl

@[simp] theorem rest_push (front : List Char) (gap : Gap) : (gap.push front).rest = gap.rest := rfl

@[simp] theorem mode_push (front : List Char) (gap : Gap) : (gap.push front).mode = gap.mode := rfl

theorem startsMark_append (hmark : StartsMark text) : StartsMark (text ++ rest) := by
  have hlength : 2 ≤ text.length := by
    rcases hmark with h | h <;> have := congrArg List.length h <;> simp at this <;> omega
  unfold StartsMark at hmark ⊢
  rw [List.take_append_of_le_length hlength]
  exact hmark

theorem startsMark_of_append (hbody : body ≠ []) (hmark : StartsMark (c :: (body ++ rest))) :
    StartsMark (c :: body) := by
  cases body with
  | nil => exact absurd rfl hbody
  | cons d more => simpa [StartsMark] using hmark

theorem not_startsMark_cons (hopening : ∀ rest, c = '/' → text = '*' :: rest → False)
    (hclosing : ∀ rest, c = '*' → text = '/' :: rest → False) : ¬ StartsMark (c :: text) := by
  cases text with
  | nil => simp [StartsMark]
  | cons d more =>
      rintro (h | h)
      · have hmark : c = '/' ∧ d = '*' := by simpa using h
        exact hopening more hmark.1 (hmark.2 ▸ rfl)
      · have hmark : c = '*' ∧ d = '/' := by simpa using h
        exact hclosing more hmark.1 (hmark.2 ▸ rfl)

/-- Only what stands in its own line decides whether a comment is documentation. -/
theorem docMark?_line (rest : List Char) (hbody : '\n' ∉ body) :
    docMark? (body ++ '\n' :: rest) = none ↔ docMark? body = none := by
  match body with
  | [] => simp [docMark?]
  | [c] =>
      by_cases hbang : c = '!'
      · simp [docMark?, hbang]
      · by_cases hslash : c = '/' <;> simp [docMark?, hbang, hslash]
  | c :: d :: more =>
      by_cases hbang : c = '!'
      · simp [docMark?, hbang]
      · by_cases hslash : c = '/' <;> simp [docMark?, hbang, hslash]

theorem Nested.ne_nil (hnested : Nested (depth + 1) body 0) : body ≠ [] := by
  rintro rfl
  cases hnested

/-! ### What the scanner reads is a gap -/

theorem Remainder.blockStep (hstep : Remainder (.block start inner) ending rest)
    (hc : ¬ StartsMark (c :: rest)) : Remainder (.block start inner) ending (c :: rest) := by
  cases hstep with
  | block hnested htext => exact .block (.other (mt startsMark_append hc) hnested) htext
  | openBlock hnested => exact .openBlock (.other hc hnested)

theorem Remainder.opening (hstep : Remainder (.block start (inner + 1)) ending rest) :
    Remainder (.block start inner) ending ('/' :: '*' :: rest) := by
  cases hstep with
  | block hnested htext => exact .block (.opening hnested) htext
  | openBlock hnested => exact .openBlock (.opening hnested)

theorem Remainder.closing (hstep : Remainder (Mode.block start inner).close ending rest) :
    Remainder (.block start inner) ending ('*' :: '/' :: rest) := by
  cases inner with
  | zero =>
      cases hstep with
      | between htext => exact .block (.closing .done) htext
  | succ inner =>
      cases hstep with
      | block hnested htext => exact .block (.closing hnested) htext
      | openBlock hnested => exact .openBlock (.closing hnested)

theorem Remainder.isText (hstep : Remainder .between ending text) : Text ending text := by
  cases hstep with
  | between htext => exact htext

theorem Remainder.opened (hstep : Remainder (.block start 0) ending text) :
    Text ending ('/' :: '*' :: text) := by
  cases hstep with
  | block hnested htext => exact .block hnested htext
  | openBlock hnested => exact .openBlock hnested

theorem Remainder.lineStep
    (hstep : Remainder (if c = '\n' then .between else .line) ending rest) :
    Remainder .line ending (c :: rest) := by
  split at hstep
  case isTrue hc =>
    subst hc
    cases hstep with
    | between htext => exact .line (List.not_mem_nil) htext
  case isFalse hc =>
    cases hstep with
    | line hbody htext => exact .line (List.not_mem_cons_of_ne_of_not_mem (Ne.symm hc) hbody) htext
    | openLine hbody => exact .openLine (List.not_mem_cons_of_ne_of_not_mem (Ne.symm hc) hbody)

theorem Remainder.comment (hstep : Remainder .line ending text)
    (hdoc : docMark? (text ++ rest) = none) (hrest : ending ≠ .closed → rest = []) :
    Text ending ('/' :: '/' :: text) := by
  cases hstep with
  | @line _ body after hbody htext =>
      rw [List.append_assoc, List.cons_append, docMark?_line _ hbody] at hdoc
      exact .line ⟨hbody, hdoc⟩ htext
  | openLine hbody =>
      rw [hrest (by simp), List.append_nil] at hdoc
      exact .openLine ⟨hbody, hdoc⟩

theorem Mode.ending_eq_closed : mode.ending = .closed ↔ mode = .between := by
  cases mode <;> simp [Mode.ending]

/-- **The scanner.** What it reads is a gap, and where it stops inside a comment the text ends. -/
theorem remainder_scanFrom (offset : Nat) (mode : Mode) (chars : List Char) :
    Remainder mode (scanFrom offset mode chars).mode.ending (scanFrom offset mode chars).text ∧
      ((scanFrom offset mode chars).mode ≠ .between → (scanFrom offset mode chars).rest = []) := by
  fun_induction scanFrom offset mode chars with
  | case1 offset mode =>
      refine ⟨?_, fun _ => rfl⟩
      cases mode with
      | between => exact .between .nil
      | line => exact .openLine (by simp)
      | block => exact .openBlock .done
  | case2 offset start inner rest ih => exact ⟨ih.1.opening, ih.2⟩
  | case3 offset start inner rest ih => exact ⟨ih.1.closing, ih.2⟩
  | case4 offset start inner c rest hopening hclosing ih =>
      have hmark := not_startsMark_cons hopening hclosing
      rw [← scanFrom_append (offset + c.utf8Size) (.block start inner) rest] at hmark
      exact ⟨ih.1.blockStep (mt startsMark_append hmark), ih.2⟩
  | case5 offset c rest ih => exact ⟨ih.1.lineStep, ih.2⟩
  | case6 offset rest ih => exact ⟨.between ih.1.opened, ih.2⟩
  | case7 => exact ⟨.between .nil, fun h => absurd rfl h⟩
  | case8 offset rest hdoc ih =>
      refine ⟨.between ?_, ih.2⟩
      rw [Option.not_isSome_iff_eq_none, ← scanFrom_append (offset + 2) .line rest] at hdoc
      exact ih.1.comment hdoc fun hending => ih.2 (mt Mode.ending_eq_closed.mpr hending)
  | case9 offset c rest _ _ hblank ih => exact ⟨.between (.blank hblank ih.1.isText), ih.2⟩
  | case10 => exact ⟨.between .nil, fun h => absurd rfl h⟩

/-! ### The scanner reads a gap to its end -/

theorem push_push (front more : List Char) (gap : Gap) :
    (gap.push more).push front = gap.push (front ++ more) := by
  simp [push]

/-- One character inside a block comment that starts no mark. -/
theorem scanFrom_other (hc : ¬ StartsMark (c :: rest)) :
    scanFrom offset (.block start inner) (c :: rest) =
      (scanFrom (offset + c.utf8Size) (.block start inner) rest).push [c] := by
  rw [scanFrom]
  · rintro more rfl rfl
    exact hc (.inl rfl)
  · rintro more rfl rfl
    exact hc (.inr rfl)

theorem scanFrom_nested (offset start inner : Nat) (rest : List Char)
    (hnested : Nested depth body final) (hdepth : depth = inner + 1)
    (hfinal : final = 0) : ∃ next, scanFrom offset (.block start inner) (body ++ rest) =
      (scanFrom next .between rest).push body := by
  induction hnested generalizing offset inner with
  | done => omega
  | @opening depth final more _ ih =>
      obtain ⟨next, hnext⟩ := ih (offset + 2) (inner + 1) (by omega) hfinal
      refine ⟨next, ?_⟩
      rw [List.cons_append, List.cons_append, scanFrom, hnext, push_push]
      rfl
  | @closing depth final more hmore ih =>
      subst hfinal
      cases inner with
      | zero =>
          have hempty : more = [] := by
            have : depth = 0 := by omega
            subst this
            cases hmore
            rfl
          subst hempty
          refine ⟨offset + 2, ?_⟩
          rw [List.cons_append, List.cons_append, List.nil_append, scanFrom]
          rfl
      | succ inner =>
          obtain ⟨next, hnext⟩ := ih (offset + 2) inner (by omega) rfl
          refine ⟨next, ?_⟩
          rw [List.cons_append, List.cons_append, scanFrom]
          show (scanFrom (offset + 2) (.block start inner) _).push _ = _
          rw [hnext, push_push]
          rfl
  | @other depth final c more hc hmore ih =>
      subst hfinal
      obtain ⟨next, hnext⟩ := ih (offset + c.utf8Size) inner (by omega) rfl
      refine ⟨next, ?_⟩
      rw [List.cons_append, scanFrom_other (mt (startsMark_of_append hmore.ne_nil) hc), hnext,
        push_push]
      rfl

theorem scanFrom_openBlock (offset start inner : Nat) (hnested : Nested depth body final)
    (hdepth : depth = inner + 1) (hfinal : 0 < final) :
    ∃ left, scanFrom offset (.block start inner) body = ⟨body, [], .block start left⟩ := by
  induction hnested generalizing offset inner with
  | done => exact ⟨inner, by rw [scanFrom]⟩
  | @opening depth final more _ ih =>
      obtain ⟨left, hleft⟩ := ih (offset + 2) (inner + 1) (by omega) hfinal
      refine ⟨left, ?_⟩
      rw [scanFrom, hleft]
      rfl
  | @closing depth final more hmore ih =>
      cases inner with
      | zero =>
          have hzero : depth = 0 := by omega
          subst hzero
          cases hmore
          omega
      | succ inner =>
          obtain ⟨left, hleft⟩ := ih (offset + 2) inner (by omega) hfinal
          refine ⟨left, ?_⟩
          rw [scanFrom]
          show (scanFrom (offset + 2) (.block start inner) more).push _ = _
          rw [hleft]
          rfl
  | @other depth final c more hc hmore ih =>
      obtain ⟨left, hleft⟩ := ih (offset + c.utf8Size) inner (by omega) hfinal
      refine ⟨left, ?_⟩
      rw [scanFrom_other hc, hleft]
      rfl

theorem scanFrom_line (offset : Nat) (rest : List Char) (hbody : '\n' ∉ body) :
    ∃ next, scanFrom offset .line (body ++ '\n' :: rest) =
      (scanFrom next .between rest).push (body ++ ['\n']) := by
  induction body generalizing offset with
  | nil => exact ⟨_, by rw [List.nil_append, scanFrom, if_pos rfl]; rfl⟩
  | cons c body ih =>
      simp only [List.mem_cons, not_or] at hbody
      obtain ⟨next, hnext⟩ := ih (offset + c.utf8Size) hbody.2
      exact ⟨next, by rw [List.cons_append, scanFrom, if_neg (Ne.symm hbody.1), hnext, push_push]; rfl⟩

theorem scanFrom_openLine (offset : Nat) (hbody : '\n' ∉ body) :
    scanFrom offset .line body = ⟨body, [], .line⟩ := by
  induction body generalizing offset with
  | nil => rw [scanFrom]
  | cons c body ih =>
      simp only [List.mem_cons, not_or] at hbody
      rw [scanFrom, if_neg (Ne.symm hbody.1), ih (offset + c.utf8Size) hbody.2]
      rfl

theorem Text.scanFrom (htext : Text ending text) (offset : Nat) :
    ∃ mode, Gap.scanFrom offset .between text = ⟨text, [], mode⟩ ∧ mode.ending = ending := by
  induction htext generalizing offset with
  | nil => exact ⟨.between, by rw [Gap.scanFrom], rfl⟩
  | @blank ending c rest hblank _ ih =>
      obtain ⟨mode, hmode, hending⟩ := ih (offset + c.utf8Size)
      refine ⟨mode, ?_, hending⟩
      have hslash : c ≠ '/' := by
        rintro rfl
        exact absurd hblank (by decide)
      rw [Gap.scanFrom, if_pos hblank, hmode]
      · rfl
      · exact fun _ hc => absurd hc hslash
      · exact fun _ hc => absurd hc hslash
  | @line ending body rest hline _ ih =>
      obtain ⟨next, hnext⟩ := scanFrom_line (offset + 2) rest hline.inLine
      obtain ⟨mode, hmode, hending⟩ := ih next
      refine ⟨mode, ?_, hending⟩
      rw [Gap.scanFrom, if_neg, hnext, hmode]
      · simp [push]
      · rw [(docMark?_line rest hline.inLine).mpr hline.noDoc]
        simp
  | @block ending body rest hnested _ ih =>
      obtain ⟨next, hnext⟩ := scanFrom_nested (offset + 2) offset 0 rest hnested rfl rfl
      obtain ⟨mode, hmode, hending⟩ := ih next
      refine ⟨mode, ?_, hending⟩
      rw [Gap.scanFrom, hnext, hmode]
      simp [push]
  | @openLine body hline =>
      refine ⟨.line, ?_, rfl⟩
      rw [Gap.scanFrom, if_neg, scanFrom_openLine _ hline.inLine]
      · rfl
      · rw [hline.noDoc]
        simp
  | @openBlock body depth hnested =>
      obtain ⟨left, hleft⟩ := scanFrom_openBlock (offset + 2) offset 0 hnested rfl
        (Nat.succ_pos _)
      refine ⟨.block offset left, ?_, rfl⟩
      rw [Gap.scanFrom, hleft]
      rfl

/-- **The gaps are what the scanner reads**, and a text is a gap in at most one way. -/
theorem text_iff :
    Text ending text ↔ (scan text).rest = [] ∧ (scan text).mode.ending = ending := by
  constructor
  · intro htext
    obtain ⟨mode, hscan, hending⟩ := htext.scanFrom 0
    unfold scan
    rw [hscan]
    exact ⟨rfl, hending⟩
  · rintro ⟨hrest, rfl⟩
    have htext : Text (scan text).mode.ending (scan text).text :=
      (remainder_scanFrom 0 .between text).1.isText
    have happend := scan_append text
    rw [hrest, List.append_nil] at happend
    rwa [happend] at htext

end Gap

end BehaviorTree
