import BehaviorTree.Proofs.Lexical.Escapes

/-!
# Where string literals and their escapes end

The scan for the end of a literal takes a backslash together with one character behind it. Decoding
takes more than that for an escape with braces, and so passes over backslashes that the scan paired.
The two get into step again behind the closing brace: whatever decoding takes for an escape starts
with a backslash that the scan has paired. So no escape is without a character behind its backslash.
-/

namespace BehaviorTree

namespace StringLiteral

/-! ### The pieces of a body -/

/-- What the scan takes in one step: a character, or a backslash with the one that it covers. -/
inductive Piece
  | plain (c : Char)
  | covered (c : Char)
  deriving DecidableEq

def Piece.text : Piece → List Char
  | plain c => [c]
  | covered c => ['\\', c]

/-- The scan of a body, and the pieces that it takes. -/
def scanPieces : List Char → Body × List Piece
  | [] => (⟨[], .cut, []⟩, [])
  | '\\' :: [] => (⟨['\\'], .cutInEscape, []⟩, [])
  | '\\' :: c :: rest =>
    if c = '\n' then (⟨['\\'], .cutInEscape, c :: rest⟩, [])
    else ((scanPieces rest).1.push ['\\', c], .covered c :: (scanPieces rest).2)
  | c :: rest =>
    if c = '\n' then (⟨[], .cut, c :: rest⟩, [])
    else if c = '"' then (⟨[], .closed, c :: rest⟩, [])
    else ((scanPieces rest).1.push [c], .plain c :: (scanPieces rest).2)

theorem scanPieces_fst (chars : List Char) : (scanPieces chars).1 = scanBody chars := by
  fun_induction scanBody chars <;> simp_all [scanPieces]

/-- The pieces that a body consists of. -/
def pieces (chars : List Char) : List Piece := (scanPieces chars).2

/-- What stands behind the pieces and belongs to the literal. -/
def Ending.mark : Ending → List Char
  | closed => ['"']
  | cut => []
  | cutInEscape => ['\\']

/-- A text behind an opening quote: the pieces of the body, what ends the literal, and the rest. -/
structure Reads (chars : List Char) (pieces : List Piece) (ending : Ending) (rest : List Char) :
    Prop where
  parts : chars = pieces.flatMap Piece.text ++ (ending.mark ++ rest)
  plain : ∀ c, .plain c ∈ pieces → c ≠ '\\' ∧ c ≠ '"' ∧ c ≠ '\n'
  covered : ∀ c, .covered c ∈ pieces → c ≠ '\n'
  cut : ending ≠ .closed → rest = [] ∨ ∃ more, rest = '\n' :: more

namespace Reads

variable {chars rest : List Char} {found : List Piece} {ending : Ending}

theorem nil (ending : Ending) (hcut : ending ≠ .closed → rest = [] ∨ ∃ more, rest = '\n' :: more) :
    Reads (ending.mark ++ rest) [] ending rest :=
  ⟨rfl, by simp, by simp, hcut⟩

theorem cons_plain (h : Reads chars found ending rest) {c : Char} (hslash : c ≠ '\\')
    (hquote : c ≠ '"') (hline : c ≠ '\n') : Reads (c :: chars) (.plain c :: found) ending rest := by
  refine ⟨congrArg (c :: ·) h.parts, ?_, ?_, h.cut⟩
  · rintro d (_ | ⟨_, hmem⟩)
    · exact ⟨hslash, hquote, hline⟩
    · exact h.plain d hmem
  · rintro d (_ | ⟨_, hmem⟩)
    exact h.covered d hmem

theorem cons_covered (h : Reads chars found ending rest) {c : Char} (hline : c ≠ '\n') :
    Reads ('\\' :: c :: chars) (.covered c :: found) ending rest := by
  refine ⟨congrArg ('\\' :: c :: ·) h.parts, ?_, ?_, h.cut⟩
  · rintro d (_ | ⟨_, hmem⟩)
    exact h.plain d hmem
  · rintro d (_ | ⟨_, hmem⟩)
    · exact hline
    · exact h.covered d hmem

end Reads

/-- What the scan leaves behind a body starts with the closing quote, if there is one. -/
theorem reads_pieces (chars : List Char) :
    Reads chars (pieces chars) (scanBody chars).ending
      ((scanBody chars).rest.drop (scanBody chars).closer.length) := by
  unfold pieces
  fun_induction scanBody chars with
  | case1 => exact .nil .cut fun _ => .inl rfl
  | case2 => exact .nil .cutInEscape fun _ => .inl rfl
  | case3 rest => exact .nil .cutInEscape fun _ => .inr ⟨rest, rfl⟩
  | case4 c rest hline ih =>
      rw [scanPieces, if_neg hline]
      exact ih.cons_covered hline
  | case5 rest => exact .nil .cut fun _ => .inr ⟨rest, rfl⟩
  | case6 rest => exact .nil .closed fun h => absurd rfl h
  | case7 c rest hnone hsome hline hquote ih =>
      have hslash : c ≠ '\\' := by
        rintro rfl
        cases rest with
        | nil => exact hnone rfl rfl
        | cons d rest => exact hsome d rest rfl rfl
      rw [scanPieces, if_neg hline, if_neg hquote]
      · exact ih.cons_plain hslash hquote hline
      · exact fun h => absurd h hslash
      · exact fun _ _ h => absurd h hslash

/-- The pieces are what is decoded. -/
theorem decoded_eq (chars : List Char) :
    (scanBody chars).decoded = (pieces chars).flatMap Piece.text ∧
      (scanBody chars).text ++ (scanBody chars).closer =
        (pieces chars).flatMap Piece.text ++ (scanBody chars).ending.mark := by
  have hreads := (reads_pieces chars).parts
  have hparts : (scanBody chars).text ++ (scanBody chars).closer =
      (pieces chars).flatMap Piece.text ++ (scanBody chars).ending.mark := by
    have hwhole :=
      calc ((scanBody chars).text ++ (scanBody chars).closer) ++
            (scanBody chars).rest.drop (scanBody chars).closer.length
          = chars := by rw [List.append_assoc, scanBody_closer, scanBody_append]
        _ = ((pieces chars).flatMap Piece.text ++ (scanBody chars).ending.mark) ++
            (scanBody chars).rest.drop (scanBody chars).closer.length :=
          hreads.trans (List.append_assoc ..).symm
    exact List.append_cancel_right hwhole
  refine ⟨?_, hparts⟩
  unfold Body.decoded
  unfold Body.closer at hparts
  cases hending : (scanBody chars).ending with
  | closed =>
      rw [hending, if_pos rfl] at hparts
      rw [if_neg (by decide)]
      exact List.append_cancel_right hparts
  | cut =>
      rw [hending, if_neg (by decide)] at hparts
      rw [if_neg (by decide)]
      exact List.append_cancel_right hparts
  | cutInEscape =>
      rw [hending, if_neg (by decide), List.append_nil] at hparts
      rw [if_pos rfl, hparts]
      exact List.dropLast_concat

/-! ### Openers -/

/-- At a place of the body the scan takes a backslash with the character behind it. -/
def OpensAt (pieces : List Piece) (place : Nat) : Prop :=
  ∃ front c back, pieces = front ++ .covered c :: back ∧
    (front.flatMap Piece.text).length = place

theorem OpensAt.behind {later : List Piece} {place : Nat} (h : OpensAt later place)
    (done : List Piece) : OpensAt (done ++ later) ((done.flatMap Piece.text).length + place) := by
  obtain ⟨front, c, back, rfl, rfl⟩ := h
  refine ⟨done ++ front, c, back, by simp, ?_⟩
  rw [List.flatMap_append, List.length_append]

section Cons

variable {later : List Piece} {c : Char} {place : Nat}

theorem opensAt_cons {piece : Piece} :
    OpensAt (piece :: later) place ↔
      (place = 0 ∧ ∃ c, piece = .covered c) ∨
        ∃ inner, place = piece.text.length + inner ∧ OpensAt later inner := by
  constructor
  · rintro ⟨front, c, back, hpieces, rfl⟩
    cases front with
    | nil => exact .inl ⟨rfl, c, (List.cons.inj hpieces).1⟩
    | cons first front =>
        obtain ⟨rfl, rfl⟩ := List.cons.inj hpieces
        exact .inr ⟨_, by rw [List.flatMap_cons, List.length_append], front, c, back, rfl, rfl⟩
  · rintro (⟨rfl, c, rfl⟩ | ⟨inner, rfl, hinner⟩)
    · exact ⟨[], c, later, rfl, rfl⟩
    · simpa using hinner.behind [piece]

@[simp]
theorem not_opensAt_nil : ¬ OpensAt [] place := by
  rintro ⟨front, c, back, hnil, -⟩
  simp at hnil

@[simp]
theorem not_opensAt_plain_zero : ¬ OpensAt (.plain c :: later) 0 := by
  rw [opensAt_cons]
  rintro (⟨-, d, hd⟩ | ⟨inner, hzero, -⟩)
  · cases hd
  · simp only [Piece.text, List.length_singleton] at hzero
    omega

@[simp]
theorem opensAt_plain_succ : OpensAt (.plain c :: later) (place + 1) ↔ OpensAt later place := by
  simp [opensAt_cons, Piece.text, Nat.add_comm 1]

@[simp]
theorem opensAt_covered_zero : OpensAt (.covered c :: later) 0 := by
  simp [opensAt_cons]

@[simp]
theorem not_opensAt_covered_one : ¬ OpensAt (.covered c :: later) 1 := by
  rw [opensAt_cons]
  rintro (⟨hzero, -⟩ | ⟨inner, hone, -⟩)
  · cases hzero
  · simp only [Piece.text, List.length_cons, List.length_nil] at hone
    omega

@[simp]
theorem opensAt_covered_succ : OpensAt (.covered c :: later) (place + 2) ↔ OpensAt later place := by
  simp [opensAt_cons, Piece.text, Nat.add_comm 2]

end Cons

variable {found : List Piece} {place : Nat}

theorem OpensAt.lt_length (h : OpensAt found place) :
    place + 1 < (found.flatMap Piece.text).length := by
  obtain ⟨front, c, back, rfl, rfl⟩ := h
  simp only [List.flatMap_append, List.flatMap_cons, Piece.text, List.length_append,
    List.length_cons, List.length_nil]
  omega

/-- The openers are the backslashes that are not directly behind an opener. -/
theorem opensAt_iff (hplain : ∀ c, .plain c ∈ found → c ≠ '\\') :
    OpensAt found place ↔ (found.flatMap Piece.text)[place]? = some '\\' ∧
      (place = 0 ∨ ¬ OpensAt found (place - 1)) := by
  induction found generalizing place with
  | nil => simp
  | cons piece later ih =>
      have hlater := fun place => @ih place fun c hmem => hplain c (List.mem_cons_of_mem _ hmem)
      cases piece with
      | plain c =>
          have hc : c ≠ '\\' := hplain c List.mem_cons_self
          match place with
          | 0 => simp [Piece.text, hc]
          | 1 => simpa [Piece.text] using hlater 0
          | place + 2 => simpa [Piece.text] using hlater (place + 1)
      | covered c =>
          match place with
          | 0 => simp [Piece.text]
          | 1 => simp
          | 2 => simpa [Piece.text] using hlater 0
          | place + 3 => simpa [Piece.text] using hlater (place + 1)

/-- Every quote of the body is covered. -/
theorem opensAt_of_quote (hplain : ∀ c, .plain c ∈ found → c ≠ '"')
    (hquote : (found.flatMap Piece.text)[place]? = some '"') :
    0 < place ∧ OpensAt found (place - 1) := by
  induction found generalizing place with
  | nil => simp at hquote
  | cons piece later ih =>
      have hlater := fun place => @ih place fun c hmem => hplain c (List.mem_cons_of_mem _ hmem)
      cases piece with
      | plain c =>
          have hc : c ≠ '"' := hplain c List.mem_cons_self
          match place with
          | 0 => simp [Piece.text, hc] at hquote
          | 1 =>
              have hfirst := hlater 0 (by simpa [Piece.text] using hquote)
              exact absurd hfirst.1 (by decide)
          | place + 2 =>
              have hinner := hlater (place + 1) (by simpa [Piece.text] using hquote)
              exact ⟨by omega, by simpa using hinner.2⟩
      | covered c =>
          match place with
          | 0 => simp [Piece.text] at hquote
          | 1 => simp
          | 2 =>
              have hfirst := hlater 0 (by simpa [Piece.text] using hquote)
              exact absurd hfirst.1 (by decide)
          | place + 3 =>
              have hinner := hlater (place + 1) (by simpa [Piece.text] using hquote)
              exact ⟨by omega, by simpa using hinner.2⟩

/-! ### Escapes -/

/-- Behind a closing brace decoding goes on with a piece of the scan, also if the brace is one that
a backslash covers. -/
theorem pieces_behind_brace (found : List Piece) : ∃ done later, found = done ++ later ∧
    ((found.flatMap Piece.text).dropWhile (· != '\x7d')).tail = later.flatMap Piece.text := by
  induction found with
  | nil => exact ⟨[], [], rfl, rfl⟩
  | cons piece found ih =>
      obtain ⟨done, later, hfound, hlater⟩ := ih
      have hskip : ∀ c, (c == '\x7d') = false → ∀ rest : List Char,
          (c :: rest).dropWhile (· != '\x7d') = rest.dropWhile (· != '\x7d') :=
        fun c hc rest => List.dropWhile_cons_of_pos (by simp [bne, hc])
      have hstop : ∀ rest : List Char,
          ('\x7d' :: rest).dropWhile (· != '\x7d') = '\x7d' :: rest :=
        fun rest => List.dropWhile_cons_of_neg (by simp)
      cases piece with
      | plain c =>
          cases hc : c == '\x7d' with
          | true =>
              obtain rfl : c = '\x7d' := by simpa using hc
              exact ⟨[.plain '\x7d'], found, rfl, congrArg List.tail (hstop _)⟩
          | false =>
              refine ⟨.plain c :: done, later, congrArg (_ :: ·) hfound, ?_⟩
              rw [← hlater]
              exact congrArg List.tail (hskip c hc _)
      | covered c =>
          have hslash := hskip '\\' (by decide)
          cases hc : c == '\x7d' with
          | true =>
              obtain rfl : c = '\x7d' := by simpa using hc
              exact ⟨[.covered '\x7d'], found, rfl,
                congrArg List.tail ((hslash _).trans (hstop _))⟩
          | false =>
              refine ⟨.covered c :: done, later, congrArg (_ :: ·) hfound, ?_⟩
              rw [← hlater]
              exact congrArg List.tail ((hslash _).trans (hskip c hc _))

theorem unicode_snd (inner : List Char) :
    (EscapeItem.unicode ('\x7b' :: inner)).2 = (inner.dropWhile (· != '\x7d')).tail := by
  simp only [EscapeItem.unicode]
  cases inner.dropWhile (· != '\x7d') with
  | nil => rfl
  | cons close rest =>
      dsimp only
      split <;> rfl

/-- Behind a `u` that is covered, decoding goes on with a piece of the scan. -/
theorem pieces_behind_unicode (hplain : ∀ c, .plain c ∈ found → c ≠ '\\') :
    ∃ done later, found = done ++ later ∧
      (EscapeItem.unicode (found.flatMap Piece.text)).2 = later.flatMap Piece.text := by
  by_cases hbrace : (found.flatMap Piece.text).head? = some '\x7b'
  · cases found with
    | nil => cases hbrace
    | cons piece found =>
        cases piece with
        | covered c => cases hbrace
        | plain c =>
            obtain rfl : c = '\x7b' := by simpa [Piece.text] using hbrace
            obtain ⟨done, later, hfound, hlater⟩ := pieces_behind_brace found
            exact ⟨.plain '\x7b' :: done, later, congrArg (_ :: ·) hfound,
              (unicode_snd _).trans hlater⟩
  · exact ⟨[], found, rfl, by rw [EscapeItem.unicode_noBrace hbrace]⟩

end StringLiteral

/-- The item stands for itself. -/
def EscapeItem.isPlain : EscapeItem → Bool
  | plain _ => true
  | _ => false

namespace StringLiteral

variable {found : List Piece} {place : Nat}

/-- Decoding an item takes whole pieces, and what it takes for an escape starts with a covered
character. -/
theorem pieces_behind_next (hplain : ∀ c, .plain c ∈ found → c ≠ '\\') {c : Char} {rest : List Char}
    (hbody : found.flatMap Piece.text = c :: rest) :
    (∃ done later, found = done ++ later ∧
        (EscapeItem.next c rest).2 = later.flatMap Piece.text) ∧
      ((EscapeItem.next c rest).1.isPlain = false → OpensAt found 0) := by
  cases found with
  | nil => cases hbody
  | cons piece found =>
      cases piece with
      | plain d =>
          obtain ⟨rfl, hrest⟩ := List.cons.inj hbody
          have hnext : EscapeItem.next d rest = (.plain d, rest) :=
            if_neg (hplain d List.mem_cons_self)
          rw [hnext]
          exact ⟨⟨[.plain d], found, rfl, hrest.symm⟩, fun h => by cases h⟩
      | covered d =>
          obtain ⟨rfl, rfl⟩ := List.cons.inj hbody
          refine ⟨?_, fun _ => opensAt_covered_zero⟩
          show ∃ done later, _ ∧ (EscapeItem.next '\\' (d :: found.flatMap Piece.text)).2 = _
          by_cases hletter : d = 'u'
          · subst hletter
            obtain ⟨done, later, hfound, hlater⟩ := pieces_behind_unicode
              (fun c hmem => hplain c (List.mem_cons_of_mem _ hmem))
            exact ⟨.covered 'u' :: done, later, congrArg (_ :: ·) hfound, hlater⟩
          · refine ⟨[.covered d], found, rfl, ?_⟩
            rw [EscapeItem.next_letter _ hletter]
            split <;> rfl

/-- **The scan and decoding agree.** Where decoding finds an escape, the scan has paired the
backslash with the character behind it. -/
theorem opensAt_of_splits (hplain : ∀ c, .plain c ∈ found → c ≠ '\\') {front back : List EscapeItem}
    {item : EscapeItem}
    (hsplits : EscapeItem.Splits (found.flatMap Piece.text) (front ++ item :: back))
    (hitem : item.isPlain = false) : OpensAt found (front.flatMap EscapeItem.text).length := by
  rw [EscapeItem.splits_iff] at hsplits
  induction front generalizing found with
  | nil =>
      cases hbody : found.flatMap Piece.text with
      | nil =>
          rw [hbody, EscapeItem.split] at hsplits
          cases hsplits
      | cons c rest =>
          rw [hbody, EscapeItem.split] at hsplits
          obtain ⟨rfl, -⟩ := List.cons.inj hsplits
          exact (pieces_behind_next hplain hbody).2 hitem
  | cons first front ih =>
      cases hbody : found.flatMap Piece.text with
      | nil =>
          rw [hbody, EscapeItem.split] at hsplits
          cases hsplits
      | cons c rest =>
          rw [hbody, EscapeItem.split] at hsplits
          obtain ⟨rfl, hfront⟩ := List.cons.inj hsplits
          obtain ⟨⟨done, later, rfl, hlater⟩, -⟩ := pieces_behind_next hplain hbody
          have htaken : (EscapeItem.next c rest).1.text = done.flatMap Piece.text := by
            have hwhole := EscapeItem.next_text_append c rest
            rw [hlater, ← hbody, List.flatMap_append] at hwhole
            exact List.append_cancel_right hwhole
          have hinner : OpensAt later (front.flatMap EscapeItem.text).length :=
            ih (fun d hmem => hplain d (List.mem_append_right _ hmem)) (hlater ▸ hfront)
          rw [List.flatMap_cons, List.length_append, htaken]
          exact hinner.behind done

/-- The escape ends at a brace that the scan takes for a covered one; both go on with the `n`. -/
example : pieces "\\u\x7b\\\x7dn\"".toList =
      [.covered 'u', .plain '\x7b', .covered '\x7d', .plain 'n'] ∧
    (EscapeItem.split "\\u\x7b\\\x7dn".toList).map EscapeItem.text =
      ["\\u\x7b\\\x7d".toList, ['n']] := by
  decide +kernel

/-- No escape of a body is cut off behind its backslash. -/
theorem endsEarly_not_mem (hplain : ∀ c, .plain c ∈ found → c ≠ '\\') (text : List Char) :
    .malformed text .endsEarly ∉ EscapeItem.split (found.flatMap Piece.text) := by
  intro hmem
  obtain ⟨front, back, hsplit⟩ := List.append_of_mem hmem
  have hsplits := EscapeItem.splits_iff.mpr hsplit
  have hopens := (opensAt_of_splits hplain hsplits rfl).lt_length
  have hbody := hsplits.text_eq
  cases hback : back.flatMap EscapeItem.text with
  | cons c rest =>
      have hitem := hsplits.inFrontOf
      rw [hback] at hitem
      cases hitem with
      | badBraces _ hfault => cases hfault
  | nil =>
      have hitem := hsplits.inFrontOf
      rw [hback] at hitem
      cases hitem with
      | badBraces _ hfault => cases hfault
      | endsEarly =>
          rw [← hbody, List.flatMap_append, List.flatMap_cons, hback] at hopens
          simp [EscapeItem.text] at hopens

/-! ### Faults in a literal -/

theorem not_endsEarly_of_mem_faults {chars : List Char} :
    ∀ located ∈ (scan chars).1.faults, located.fault ≠ .escape .endsEarly := by
  have hplain : ∀ c, .plain c ∈ pieces chars → c ≠ '\\' :=
    fun c hmem => ((reads_pieces chars).plain c hmem).1
  intro located hmem
  rcases List.mem_append.mp hmem with hcut | hescape
  · split at hcut
    · cases hcut
    · rw [List.mem_singleton.mp hcut]
      simp
  · obtain ⟨inner, hinner, rfl⟩ := List.mem_map.mp hescape
    obtain ⟨text, fault, hitem, hfault⟩ := EscapeItem.malformed_of_mem_faults inner hinner
    rw [(decoded_eq chars).1] at hitem
    show inner.fault ≠ _
    rw [hfault]
    rintro hsame
    cases hsame
    exact endsEarly_not_mem hplain text hitem

/-- A literal is reported as a whole if and only if no quote closes it. -/
theorem filter_faults_scan (chars : List Char) :
    ((scan chars).1.faults.filter fun located => located.fault.code = Code.unterminatedString) =
      if (scanBody chars).ending = .closed then []
      else [⟨0, byteLength (scan chars).1.text, .unterminatedString⟩] := by
  have hescapes :
      (((unescape (scanBody chars).decoded).faults.map (·.shift 1)).filter fun located =>
        located.fault.code = Code.unterminatedString) = [] := by
    rw [List.filter_eq_nil_iff]
    intro located hmem
    obtain ⟨inner, hinner, rfl⟩ := List.mem_map.mp hmem
    obtain ⟨fault, hfault⟩ := Lexeme.escape_of_mem_faults inner hinner
    have hcode : (inner.shift 1).fault.code = Code.invalidEscape := by
      show inner.fault.code = _
      rw [hfault]
      rfl
    rw [hcode]
    decide
  unfold scan
  dsimp only
  rw [List.filter_append, hescapes, List.append_nil]
  split
  · rfl
  · rfl

end StringLiteral

/-! ### Tokens -/

/-- The token is a string literal that no quote closes. -/
def Token.isCutLiteral (token : Token) : Bool :=
  match token.kind with
  | .string _ => (StringLiteral.scanBody (token.text.toList.drop 1)).ending != .closed
  | _ => false

open StringLiteral

/-- The openers that the scan pairs in a body, its quotes, and the escapes that decoding finds. -/
structure StringLiteral.Agrees (body : List Char) (pieces : List Piece) : Prop where
  openers : ∀ place, OpensAt pieces place ↔
    body[place]? = some '\\' ∧ (place = 0 ∨ ¬ OpensAt pieces (place - 1))
  inside : ∀ place, OpensAt pieces place → place + 1 < body.length
  quotes : ∀ place, body[place]? = some '"' → 0 < place ∧ OpensAt pieces (place - 1)
  escapes : ∀ front item back, EscapeItem.Splits body (front ++ item :: back) →
    item.isPlain = false → OpensAt pieces (front.flatMap EscapeItem.text).length

/-- A string token at its place in a text: the pieces that the scan takes behind the opening quote,
how the literal ends, and what it is decoded to. -/
structure Token.IsString (file : FileId) (chars : List Char) (token : Token) (value : String)
    (pieces : List Piece) (ending : Ending) : Prop where
  placed : ∃ before behind rest, chars = before ++ '"' :: behind ∧
    token.range = ⟨file, byteLength before, byteLength before + byteLength token.text.toList⟩ ∧
    scanPieces behind = (scanBody behind, pieces) ∧ (scanBody behind).ending = ending ∧
    Reads behind pieces ending rest
  text : token.text.toList = '"' :: (pieces.flatMap Piece.text ++ ending.mark)
  decoded : value = String.ofList (unescape (pieces.flatMap Piece.text)).value
  agrees : Agrees (pieces.flatMap Piece.text) pieces
  cut : token.isCutLiteral = true ↔ ending ≠ .closed

theorem StringLiteral.agrees_pieces (chars : List Char) :
    Agrees ((pieces chars).flatMap Piece.text) (pieces chars) := by
  have hreads := (reads_pieces chars).plain
  have hslash : ∀ c, .plain c ∈ pieces chars → c ≠ '\\' := fun c hmem => (hreads c hmem).1
  exact ⟨fun _ => opensAt_iff hslash, fun _ => OpensAt.lt_length,
    fun _ => opensAt_of_quote fun c hmem => (hreads c hmem).2.1,
    fun _ _ _ => opensAt_of_splits hslash⟩

theorem StringLiteral.text_scan (chars : List Char) :
    (scan chars).1.text =
      '"' :: ((pieces chars).flatMap Piece.text ++ (scanBody chars).ending.mark) :=
  congrArg ('"' :: ·) (decoded_eq chars).2

theorem StringLiteral.isCutLiteral_token (chars : List Char) (file : FileId) (offset : Nat)
    (newlineBefore : Bool) : ((scan chars).1.token file offset newlineBefore).isCutLiteral =
      ((scanBody chars).ending != .closed) := by
  have halone : (scanBody ((scanBody chars).text ++ (scanBody chars).closer)).ending =
      (scanBody chars).ending := by
    rw [scanBody_alone]
  simp only [Token.isCutLiteral, Lexeme.token, scan, String.toList_ofList, List.cons_append,
    List.drop_succ_cons, List.drop_zero, halone]

/-! ### Messages -/

theorem LexicalFault.message_report (fault : LexicalFault) (range : SourceRange) :
    (fault.report range).message = fault.message := by
  cases fault with
  | escape fault =>
      unfold report
      dsimp only
      split <;> rfl
  | _ => rfl

/-- No other fault is worded as that of an escape without a character. -/
theorem LexicalFault.message_ne {fault : LexicalFault} (hfault : fault ≠ .escape .endsEarly) :
    fault.message ≠ EscapeFault.endsEarly.message := by
  -- the wordings differ before anything of the text is put into them
  have hfront : ∀ front back : String,
      front.toList.isPrefixOf EscapeFault.endsEarly.message.toList = false →
        front ++ back ≠ EscapeFault.endsEarly.message := by
    intro front back hnot hsame
    have hprefix : front.toList <+: EscapeFault.endsEarly.message.toList :=
      ⟨back.toList, by rw [← hsame, String.toList_append]⟩
    rw [← List.isPrefixOf_iff_prefix, hnot] at hprefix
    cases hprefix
  have haround : ∀ front inner back : String,
      front.toList.isPrefixOf EscapeFault.endsEarly.message.toList = false →
        front ++ inner ++ back ≠ EscapeFault.endsEarly.message := by
    intro front inner back hnot
    rw [String.append_assoc]
    exact hfront front _ hnot
  cases fault with
  | unterminatedString => decide
  | unterminatedComment => decide
  | unexpected text =>
      simp only [message]
      split
      · exact haround _ _ _ (by decide)
      · exact haround _ _ _ (by decide)
  | number fault =>
      cases fault with
      | noDigits mark => exact haround "missing digits after `" _ _ (by decide)
      | badDigit digit mark =>
          show "invalid digit `" ++ digit.toString ++ "` in " ++ mark.name ++ " literal" ≠ _
          rw [String.append_assoc, String.append_assoc]
          exact haround _ _ _ (by decide)
      | tooLarge => exact haround "integer literal is too large, the maximum is `" _ _ (by decide)
  | escape fault =>
      cases fault with
      | endsEarly => exact absurd rfl hfault
      | unknown c => exact haround "unknown escape sequence `\\" _ _ (by decide)
      | missingBrace => decide
      | unclosed => decide
      | noDigits => exact hfront "empty unicode escape " _ (by decide)
      | badDigit c => exact haround "invalid hexadecimal digit `" _ _ (by decide)
      | tooLong digits => exact haround "unicode escape " _ _ (by decide)
      | tooLarge digits => exact haround "unicode escape " _ _ (by decide)
      | surrogate digits => exact haround "unicode escape " _ _ (by decide)

/-! ### Streams -/

namespace TokenStream

theorem isString_of_foundIn {file : FileId} {chars : List Char} {token : Token} {value : String}
    (hfound : token.FoundIn file 0 chars) (hkind : token.kind = .string value) :
    ∃ pieces ending, token.IsString file chars value pieces ending := by
  obtain ⟨before, rest, newlineBefore⟩ := hfound
  rename_i c
  rcases Lexeme.scan_literal c rest with ⟨rfl, hscan, -⟩ | ⟨-, -, hnumeric⟩ | hbare
  · rw [hscan] at hkind ⊢
    have hvalue : String.ofList (unescape (scanBody rest).decoded).value = value :=
      TokenKind.string.inj hkind
    refine ⟨pieces rest, (scanBody rest).ending, ⟨before, rest, _, rfl, ?_, ?_, rfl,
      reads_pieces rest⟩, ?_, ?_, agrees_pieces rest, ?_⟩
    · simp only [Lexeme.token, Nat.zero_add, String.toList_ofList]
    · exact Prod.ext (scanPieces_fst rest) rfl
    · simp only [Lexeme.token, String.toList_ofList, text_scan]
    · rw [← hvalue, (decoded_eq rest).1]
    · simp [isCutLiteral_token]
  · exact absurd hkind (hnumeric.kind_ne_string value)
  · exact absurd hkind (hbare.kind_ne_string value)

theorem not_endsEarly_of_foundIn {file : FileId} {offset : Nat} {chars : List Char} {token : Token}
    (hfound : token.FoundIn file offset chars) :
    ∀ located ∈ token.faults, located.fault ≠ .escape .endsEarly := by
  obtain ⟨before, rest, newlineBefore⟩ := hfound
  rename_i c
  rw [Lexeme.faults_token]
  have hother : ∀ {code : String}, code ≠ Code.invalidEscape →
      ∀ fault : LexicalFault, fault.code = code → fault ≠ .escape .endsEarly := by
    rintro _ hcode _ rfl rfl
    exact hcode rfl
  rcases Lexeme.scan_literal c rest with ⟨-, hscan, -⟩ | ⟨-, -, hnumeric⟩ | hbare
  · rw [hscan]
    exact not_endsEarly_of_mem_faults
  · exact fun located hmem => hother (by decide) _ (hnumeric.code located hmem)
  · exact fun located hmem => hother (by decide) _ (hbare.code located hmem)

theorem isCutLiteral_of_kind {token : Token} (hkind : ∀ value, token.kind ≠ .string value) :
    token.isCutLiteral = false := by
  unfold Token.isCutLiteral
  split
  · rename_i value hvalue
    exact absurd hvalue (hkind value)
  · rfl

/-- The reports on a token that a literal is not closed. -/
theorem unterminated_of_foundIn {file : FileId} {offset : Nat} {chars : List Char} {token : Token}
    (hfound : token.FoundIn file offset chars) :
    reports (token.faults.filter fun located => located.fault.code = Code.unterminatedString)
        token.range.file token.range.start =
      if token.isCutLiteral then [LexicalFault.unterminatedString.report token.range] else [] := by
  obtain ⟨before, rest, newlineBefore⟩ := hfound
  rename_i c
  rw [Lexeme.faults_token]
  rcases Lexeme.scan_literal c rest with ⟨-, hscan, -⟩ | ⟨-, -, hnumeric⟩ | hbare
  · rw [hscan, filter_faults_scan, isCutLiteral_token]
    cases (scanBody rest).ending <;> rfl
  · rw [isCutLiteral_of_kind hnumeric.kind_ne_string]
    refine reports_without (fun located hmem => ?_) _ _
    rw [hnumeric.code located hmem]
    decide
  · rw [isCutLiteral_of_kind hbare.kind_ne_string]
    refine reports_without (fun located hmem => ?_) _ _
    rw [hbare.code located hmem]
    decide

/-- **String literals and their escapes.** The pieces that the scan takes of a literal are its body
up to the first quote that no backslash covers, or up to the end of the line. Every escape that
decoding finds starts where the scan has paired a backslash, with the character behind it in the
body. So no escape is reported to have no character, and the literals without a closing quote are
those that are reported, each once. -/
theorem ofText_strings (file : FileId) (text : String) :
    let stream := ofText file text
    (∀ token ∈ stream.tokens, ∀ value, token.kind = .string value →
      ∃ pieces ending, token.IsString file text.toList value pieces ending) ∧
    (∀ diagnostic ∈ stream.diagnostics, diagnostic.message ≠ "unterminated escape sequence") ∧
    (stream.diagnostics.filter fun diagnostic => diagnostic.code = some Code.unterminatedString) =
      (stream.tokens.filter Token.isCutLiteral).map fun token =>
        LexicalFault.unterminatedString.report token.range := by
  intro stream
  have hfound := foundIn_scanFrom file 0 text.toList
  refine ⟨fun token hmem value hkind => ?_, fun diagnostic hmem => ?_, ?_⟩
  · rcases hfound token hmem with ⟨hend, -⟩ | hplace
    · rw [hkind] at hend
      cases hend
    · exact isString_of_foundIn hplace hkind
  · obtain ⟨ranges, hranges⟩ := diagnostics_scanFrom file 0 text.toList
    have hmem : diagnostic ∈ (scanFrom file 0 text.toList).diagnostics := hmem
    rw [hranges, List.mem_append, List.mem_flatMap, List.mem_map] at hmem
    rcases hmem with ⟨token, htoken, hreport⟩ | ⟨range, -, rfl⟩
    · obtain ⟨located, hlocated, rfl⟩ := List.mem_map.mp hreport
      rw [LocatedFault.report, LexicalFault.message_report]
      refine LexicalFault.message_ne ?_
      rcases hfound token htoken with ⟨-, hempty⟩ | hplace
      · rw [Token.faults_of_empty hempty] at hlocated
        cases hlocated
      · exact not_endsEarly_of_foundIn hplace located hlocated
    · rw [LexicalFault.message_report]
      exact LexicalFault.message_ne (by simp)
  · refine (filter_code_scanFrom (by decide) file 0 text.toList).trans
      (flatMap_eq_map_filter fun token hmem => ?_)
    rcases hfound token hmem with ⟨hend, hempty⟩ | hplace
    · rw [Token.faults_of_empty hempty, isCutLiteral_of_kind (by simp [hend])]
      rfl
    · exact unterminated_of_foundIn hplace

end TokenStream

end BehaviorTree
