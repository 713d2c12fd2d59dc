import BehaviorTree.Proofs.Lexical.Numerals
import BehaviorTree.Proofs.Lexical.Reports
import Mathlib.Data.List.TakeWhile

/-!
# The escapes of a string body

A grammar for the body of a string literal, told without a way of reading: plain characters, escapes
and malformed escapes, each malformed one by what is wrong with it. A body is a sequence of these in
exactly one way. Decoding puts the values of the items together and reports each malformed escape at
its place.
-/

namespace BehaviorTree

/-! ### The grammar -/

/-- The letters of the escapes of one letter, and the characters that they stand for. -/
def letterEscapes : List (Char × Char) :=
  [('n', '\n'), ('t', '\t'), ('r', '\r'), ('0', '\x00'), ('b', '\x08'), ('f', '\x0c'),
    ('\\', '\\'), ('"', '"')]

/-- A unicode escape with something between its braces. -/
def unicodeText (digits : List Char) : List Char := ['\\', 'u', '\x7b'] ++ digits ++ ['\x7d']

def IsHexDigit (c : Char) : Prop := ∃ value, Digit.StandsFor 16 c value

/-- One to six hexadecimal digits that denote the code point of a character. -/
structure SpellsChar (digits : List Char) (c : Char) : Prop where
  some : digits ≠ []
  atMostSix : digits.length ≤ 6
  denotes : Digit.Denotes 16 digits c.toNat

/-- What is wrong with the text between the braces of a unicode escape. -/
inductive EscapeFault.InBraces : List Char → EscapeFault → Prop
  | noDigits : InBraces [] .noDigits
  | badDigit {front back : List Char} {bad : Char} : (∀ c ∈ front, IsHexDigit c) →
    ¬ IsHexDigit bad → InBraces (front ++ bad :: back) (.badDigit bad)
  | tooLong {digits : List Char} : (∀ c ∈ digits, IsHexDigit c) → 6 < digits.length →
    InBraces digits (.tooLong digits)
  | tooLarge {digits : List Char} {number : Nat} : digits.length ≤ 6 →
    Digit.Denotes 16 digits number → 0x10FFFF < number → InBraces digits (.tooLarge digits)
  | surrogate {digits : List Char} {number : Nat} : digits.length ≤ 6 →
    Digit.Denotes 16 digits number → 0xD800 ≤ number → number ≤ 0xDFFF →
    InBraces digits (.surrogate digits)

namespace EscapeItem

/-- An item of a body in front of the rest of the body. -/
inductive InFrontOf : EscapeItem → List Char → Prop
  | plain {c : Char} {rest : List Char} : c ≠ '\\' → InFrontOf (.plain c) rest
  | letter {letter value : Char} {rest : List Char} : (letter, value) ∈ letterEscapes →
    InFrontOf (.escape ['\\', letter] value) rest
  | unicode {digits rest : List Char} {value : Char} : SpellsChar digits value →
    InFrontOf (.escape (unicodeText digits) value) rest
  | endsEarly : InFrontOf (.malformed ['\\'] .endsEarly) []
  | unknown {letter : Char} {rest : List Char} : letter ≠ 'u' →
    (∀ value, (letter, value) ∉ letterEscapes) →
    InFrontOf (.malformed ['\\', letter] (.unknown letter)) rest
  | missingBrace {rest : List Char} : rest.head? ≠ some '\x7b' →
    InFrontOf (.malformed ['\\', 'u'] .missingBrace) rest
  | unclosed {digits : List Char} : '\x7d' ∉ digits →
    InFrontOf (.malformed (['\\', 'u', '\x7b'] ++ digits) .unclosed) []
  | badBraces {digits rest : List Char} {fault : EscapeFault} : '\x7d' ∉ digits →
    fault.InBraces digits → InFrontOf (.malformed (unicodeText digits) fault) rest

/-- A body and the items that it consists of. -/
inductive Splits : List Char → List EscapeItem → Prop
  | nil : Splits [] []
  | cons {item : EscapeItem} {rest : List Char} {items : List EscapeItem} : InFrontOf item rest →
    Splits rest items → Splits (item.text ++ rest) (item :: items)

def isMalformed : EscapeItem → Bool
  | malformed _ _ => true
  | _ => false

/-! ### Letters and digits -/

theorem ofLetter?_eq_some_iff {letter value : Char} :
    ofLetter? letter = some value ↔ (letter, value) ∈ letterEscapes := by
  constructor
  · intro hletter
    unfold ofLetter? at hletter
    split at hletter <;> cases hletter <;> decide
  · intro hmem
    have hall : (letterEscapes.all fun entry => ofLetter? entry.1 = some entry.2) = true := by
      decide
    simpa using List.all_eq_true.mp hall _ hmem

theorem isHexDigit_iff {c : Char} : IsHexDigit c ↔ Digit.isDigitOf 16 c = true := by
  simp [IsHexDigit, Digit.standsFor_iff (Nat.le_refl 16)]

theorem isValidChar_iff (number : Nat) : number.isValidChar ↔
    ¬ 0x10FFFF < number ∧ ¬ (0xD800 ≤ number ∧ number ≤ 0xDFFF) := by
  unfold Nat.isValidChar
  omega

theorem toNat_ofNat_of_valid {number : Nat} (hvalid : number.isValidChar) :
    (Char.ofNat number).toNat = number := by
  unfold Char.ofNat
  rw [dif_pos hvalid]
  rfl

/-- What the digits between two braces are read as, told by the grammar. -/
theorem ofHexDigits_spec (digits : List Char) :
    match ofHexDigits digits with
    | .ok value => SpellsChar digits value
    | .error fault => fault.InBraces digits := by
  unfold ofHexDigits
  by_cases hsome : digits = []
  · subst hsome
    exact .noDigits
  · rw [if_neg hsome]
    cases hbad : digits.find? fun c => !Digit.isDigitOf 16 c with
    | some bad =>
        obtain ⟨hnot, front, back, rfl, hfront⟩ := List.find?_eq_some_iff_append.mp hbad
        refine .badDigit (fun c hc => isHexDigit_iff.mpr ?_) (mt isHexDigit_iff.mp ?_)
        · simpa using hfront c hc
        · simpa using hnot
    | none =>
        have hall : ∀ c ∈ digits, Digit.isDigitOf 16 c = true := by
          simpa using List.find?_eq_none.mp hbad
        have hdenotes : Digit.Denotes 16 digits (Digit.ofDigits 16 digits) :=
          (Digit.denotes_iff (Nat.le_refl 16)).mpr ⟨hall, rfl⟩
        dsimp only
        by_cases hlong : 6 < digits.length
        · rw [if_pos hlong]
          exact .tooLong (fun c hc => isHexDigit_iff.mpr (hall c hc)) hlong
        · rw [if_neg hlong]
          by_cases hlarge : 0x10FFFF < Digit.ofDigits 16 digits
          · rw [if_pos hlarge]
            exact .tooLarge (by omega) hdenotes hlarge
          · rw [if_neg hlarge]
            by_cases hsurrogate : 0xD800 ≤ Digit.ofDigits 16 digits ∧
                Digit.ofDigits 16 digits ≤ 0xDFFF
            · rw [if_pos hsurrogate]
              exact .surrogate (by omega) hdenotes hsurrogate.1 hsurrogate.2
            · rw [if_neg hsurrogate]
              refine ⟨hsome, by omega, ?_⟩
              rwa [toNat_ofNat_of_valid ((isValidChar_iff _).mpr ⟨hlarge, hsurrogate⟩)]

/-- Digits that spell a character are read as it. -/
theorem ofHexDigits_of_spells {digits : List Char} {c : Char} (h : SpellsChar digits c) :
    ofHexDigits digits = .ok c := by
  obtain ⟨hall, hvalue⟩ := (Digit.denotes_iff (Nat.le_refl 16)).mp h.denotes
  have hnone : (digits.find? fun c => !Digit.isDigitOf 16 c) = none := by
    simpa [List.find?_eq_none] using hall
  have hvalid := (isValidChar_iff c.toNat).mp c.valid
  have hlength := h.atMostSix
  unfold ofHexDigits
  simp only [if_neg h.some, hnone, hvalue, if_neg hvalid.1, if_neg hvalid.2,
    if_neg (Nat.not_lt.mpr hlength), Char.ofNat_toNat]

/-- Each text between braces has one fault at most, the one that it is read as. -/
theorem ofHexDigits_of_inBraces {digits : List Char} {fault : EscapeFault}
    (h : fault.InBraces digits) : ofHexDigits digits = .error fault := by
  have hnone : (∀ c ∈ digits, Digit.isDigitOf 16 c = true) →
      (digits.find? fun c => !Digit.isDigitOf 16 c) = none := by
    intro hall
    simpa [List.find?_eq_none] using hall
  have hnumber : ∀ {number}, Digit.Denotes 16 digits number → 0 < number → digits ≠ [] := by
    rintro number hdenotes hpositive rfl
    obtain ⟨-, rfl⟩ := (Digit.denotes_iff (Nat.le_refl 16)).mp hdenotes
    exact absurd hpositive (by decide)
  unfold ofHexDigits
  cases h with
  | noDigits => rfl
  | @badDigit front back bad hfront hbad =>
      have hfound : ((front ++ bad :: back).find? fun c => !Digit.isDigitOf 16 c) = some bad := by
        rw [List.find?_eq_some_iff_append]
        refine ⟨by simpa using mt isHexDigit_iff.mpr hbad, front, back, rfl, fun c hc => ?_⟩
        simpa using isHexDigit_iff.mp (hfront c hc)
      rw [if_neg (by simp), hfound]
  | tooLong hall hlong =>
      have hsome : digits ≠ [] := by
        rintro rfl
        exact absurd hlong (by simp)
      rw [if_neg hsome, hnone fun c hc => isHexDigit_iff.mp (hall c hc)]
      exact if_pos hlong
  | tooLarge hlength hdenotes hlarge =>
      obtain ⟨hall, rfl⟩ := (Digit.denotes_iff (Nat.le_refl 16)).mp hdenotes
      rw [if_neg (hnumber hdenotes (by omega)), hnone hall]
      simp only [if_neg (Nat.not_lt.mpr hlength), if_pos hlarge]
  | surrogate hlength hdenotes hlow hhigh =>
      obtain ⟨hall, rfl⟩ := (Digit.denotes_iff (Nat.le_refl 16)).mp hdenotes
      rw [if_neg (hnumber hdenotes (by omega)), hnone hall]
      simp only [if_neg (Nat.not_lt.mpr hlength),
        if_neg (by omega : ¬ 0x10FFFF < Digit.ofDigits 16 digits), if_pos (And.intro hlow hhigh)]

/-! ### The first item -/

theorem closer_not_mem_takeWhile (inner : List Char) : '\x7d' ∉ inner.takeWhile (· != '\x7d') := by
  intro hmem
  simpa using mem_takeWhile inner hmem

theorem inFrontOf_unicode (rest : List Char) : InFrontOf (unicode rest).1 (unicode rest).2 := by
  unfold unicode
  split
  · rename_i inner
    have hdigits := closer_not_mem_takeWhile inner
    have hspec := ofHexDigits_spec (inner.takeWhile (· != '\x7d'))
    dsimp only
    split
    · exact .unclosed hdigits
    · cases hread : ofHexDigits (inner.takeWhile (· != '\x7d')) with
      | ok value =>
          rw [hread] at hspec
          exact .unicode hspec
      | error fault =>
          rw [hread] at hspec
          exact .badBraces hdigits hspec
  · rename_i hbrace
    refine .missingBrace fun hhead => ?_
    obtain ⟨inner, rfl⟩ := List.head?_eq_some_iff.mp hhead
    exact hbrace inner rfl

/-- What is read first is an item in front of what is read later. -/
theorem inFrontOf_next (c : Char) (rest : List Char) :
    InFrontOf (next c rest).1 (next c rest).2 := by
  unfold next
  split
  · split
    · exact .endsEarly
    · exact inFrontOf_unicode _
    · rename_i letter rest hletter
      cases hvalue : ofLetter? letter with
      | some value => exact .letter (ofLetter?_eq_some_iff.mp hvalue)
      | none =>
          refine .unknown hletter fun value hmem => ?_
          rw [ofLetter?_eq_some_iff.mpr hmem] at hvalue
          cases hvalue
  · rename_i hplain
    exact .plain hplain

theorem next_letter {letter : Char} (rest : List Char) (hletter : letter ≠ 'u') :
    next '\\' (letter :: rest) =
      match ofLetter? letter with
      | some value => (escape ['\\', letter] value, rest)
      | none => (malformed ['\\', letter] (.unknown letter), rest) := by
  unfold next
  rw [if_pos rfl]
  split
  · rename_i hnil
    cases hnil
  · rename_i hu
    exact absurd (List.cons.inj hu).1 hletter
  · rename_i hcons
    cases hcons
    rfl

theorem ne_closer_of_not_mem {digits : List Char} (hdigits : '\x7d' ∉ digits) :
    ∀ c ∈ digits, (c != '\x7d') = true := by
  intro c hc
  simpa using fun h : c = '\x7d' => hdigits (h ▸ hc)

theorem unicode_braces {digits : List Char} (rest : List Char) (hdigits : '\x7d' ∉ digits) :
    unicode ('\x7b' :: (digits ++ '\x7d' :: rest)) =
      match ofHexDigits digits with
      | .ok value => (escape (unicodeText digits) value, rest)
      | .error fault => (malformed (unicodeText digits) fault, rest) := by
  have hrun := ne_closer_of_not_mem hdigits
  have htake : (digits ++ '\x7d' :: rest).takeWhile (· != '\x7d') = digits :=
    takeWhile_append_stop hrun rfl
  have hdrop : (digits ++ '\x7d' :: rest).dropWhile (· != '\x7d') = '\x7d' :: rest :=
    dropWhile_append_stop hrun rfl
  simp only [unicode, htake, hdrop]
  rfl

theorem unicode_open {digits : List Char} (hdigits : '\x7d' ∉ digits) :
    unicode ('\x7b' :: digits) = (malformed (['\\', 'u', '\x7b'] ++ digits) .unclosed, []) := by
  have hrun := ne_closer_of_not_mem hdigits
  have htake : digits.takeWhile (· != '\x7d') = digits := List.takeWhile_eq_self_iff.mpr hrun
  have hdrop : digits.dropWhile (· != '\x7d') = [] := List.dropWhile_eq_nil_iff.mpr hrun
  simp only [unicode, htake, hdrop]
  rfl

theorem unicode_noBrace {rest : List Char} (hrest : rest.head? ≠ some '\x7b') :
    unicode rest = (malformed ['\\', 'u'] .missingBrace, rest) := by
  unfold unicode
  split
  · exact absurd rfl hrest
  · rfl

theorem closer_not_mem_of_spells {digits : List Char} {c : Char} (h : SpellsChar digits c) :
    '\x7d' ∉ digits := by
  intro hmem
  have hdigit := ((Digit.denotes_iff (Nat.le_refl 16)).mp h.denotes).1 _ hmem
  exact absurd hdigit (by decide)

/-- An item is read first wherever it fits. -/
theorem next_of_inFrontOf {item : EscapeItem} {rest : List Char} (h : InFrontOf item rest) :
    ∃ c chars, item.text ++ rest = c :: chars ∧ next c chars = (item, rest) := by
  have hu : ∀ chars, next '\\' ('u' :: chars) = unicode chars := fun _ => rfl
  cases h with
  | @plain c _ hplain => exact ⟨c, rest, rfl, if_neg hplain⟩
  | @letter letter value _ hmem =>
      have hletter : letter ≠ 'u' := by
        rintro rfl
        exact absurd hmem (by simp [letterEscapes])
      exact ⟨'\\', letter :: rest, rfl,
        by rw [next_letter rest hletter, ofLetter?_eq_some_iff.mpr hmem]⟩
  | @unicode digits _ value hspells =>
      refine ⟨'\\', 'u' :: '\x7b' :: (digits ++ '\x7d' :: rest), ?_, ?_⟩
      · simp [text, unicodeText]
      · rw [hu, unicode_braces rest (closer_not_mem_of_spells hspells),
          ofHexDigits_of_spells hspells]
  | endsEarly => exact ⟨_, _, rfl, rfl⟩
  | @unknown letter _ hletter hnone =>
      have hvalue : ofLetter? letter = none :=
        Option.eq_none_iff_forall_ne_some.mpr fun value hsome =>
          hnone value (ofLetter?_eq_some_iff.mp hsome)
      exact ⟨'\\', letter :: rest, rfl, by rw [next_letter rest hletter, hvalue]⟩
  | missingBrace hrest =>
      exact ⟨'\\', 'u' :: rest, rfl, by rw [hu, unicode_noBrace hrest]⟩
  | @unclosed digits hdigits =>
      refine ⟨'\\', 'u' :: '\x7b' :: digits, ?_, ?_⟩
      · simp [text]
      · rw [hu, unicode_open hdigits]
  | @badBraces digits _ fault hdigits hfault =>
      refine ⟨'\\', 'u' :: '\x7b' :: (digits ++ '\x7d' :: rest), ?_, ?_⟩
      · simp [text, unicodeText]
      · rw [hu, unicode_braces rest hdigits, ofHexDigits_of_inBraces hfault]

/-! ### All items -/

theorem splits_split (body : List Char) : Splits body (split body) := by
  fun_induction split body with
  | case1 => exact .nil
  | case2 c rest ih =>
      have hstep := Splits.cons (inFrontOf_next c rest) ih
      rwa [next_text_append] at hstep

/-- **A body splits in one way**, which is how it is read. -/
theorem splits_iff {body : List Char} {items : List EscapeItem} :
    Splits body items ↔ split body = items := by
  constructor
  · intro hsplits
    induction hsplits with
    | nil => rw [split]
    | cons hitem _ ih =>
        obtain ⟨c, chars, htext, hnext⟩ := next_of_inFrontOf hitem
        rw [htext, split, hnext]
        exact congrArg _ ih
  · rintro rfl
    exact splits_split body

theorem Splits.text_eq {body : List Char} {items : List EscapeItem} (hsplits : Splits body items) :
    items.flatMap text = body := by
  rw [← splits_iff.mp hsplits, split_text]

/-- An item of a body stands in front of the texts of the items behind it. -/
theorem Splits.inFrontOf {body : List Char} {front back : List EscapeItem} {item : EscapeItem}
    (hsplits : Splits body (front ++ item :: back)) : item.InFrontOf (back.flatMap text) := by
  induction front generalizing body with
  | nil =>
      cases hsplits with
      | cons hitem hback => exact hback.text_eq ▸ hitem
  | cons first front ih =>
      cases hsplits with
      | cons _ hrest => exact ih hrest

/-- Items that are not malformed fit in front of every text. -/
theorem Splits.append {front back : List Char} {items more : List EscapeItem}
    (hsplits : Splits front items) (hgood : ∀ item ∈ items, item.isMalformed = false)
    (hmore : Splits back more) : Splits (front ++ back) (items ++ more) := by
  induction hsplits with
  | nil => exact hmore
  | @cons item rest items hitem _ ih =>
      obtain ⟨hsound, hitems⟩ := List.forall_mem_cons.mp hgood
      rw [List.append_assoc]
      refine .cons ?_ (ih hitems)
      cases hitem with
      | plain hplain => exact .plain hplain
      | letter hmem => exact .letter hmem
      | unicode hspells => exact .unicode hspells
      | _ => cases hsound

/-! ### Where the malformed escapes are -/

/-- The malformed items: what is wrong with each, and the bytes that it covers behind the texts of
the items in front of it. -/
def malformedPlaces (items : List EscapeItem) : List LocatedFault :=
  items.zipIdx.filterMap fun entry =>
    match entry.1 with
    | malformed text fault =>
      let start := byteLength ((items.take entry.2).flatMap EscapeItem.text)
      some ⟨start, start + byteLength text, .escape fault⟩
    | _ => none

theorem faults_behind (front items : List EscapeItem) :
    faults (byteLength (front.flatMap text)) items =
      (items.zipIdx front.length).filterMap fun entry =>
        match entry.1 with
        | malformed text fault =>
          let start := byteLength (((front ++ items).take entry.2).flatMap EscapeItem.text)
          some ⟨start, start + byteLength text, .escape fault⟩
        | _ => none := by
  induction items generalizing front with
  | nil => rfl
  | cons item items ih =>
      have hlater := ih (front ++ [item])
      rw [List.append_assoc, List.singleton_append, List.length_append, List.flatMap_append,
        List.flatMap_singleton, byteLength_append] at hlater
      rw [List.zipIdx_cons, List.filterMap_cons]
      cases item with
      | malformed text fault =>
          simp only [faults, List.take_left] at hlater ⊢
          exact congrArg _ hlater
      | _ => exact hlater

theorem faults_eq (items : List EscapeItem) : faults 0 items = malformedPlaces items :=
  faults_behind [] items

/-- The places are in their order, each behind the one in front of it and none of them empty. -/
theorem faults_apart (offset : Nat) (items : List EscapeItem)
    (htexts : ∀ item ∈ items, item.text ≠ []) :
    (faults offset items).Pairwise (fun left right => left.stop ≤ right.start) ∧
      ∀ place ∈ faults offset items, offset ≤ place.start ∧ place.start < place.stop ∧
        place.stop ≤ offset + byteLength (items.flatMap text) := by
  induction items generalizing offset with
  | nil => exact ⟨.nil, by simp [faults]⟩
  | cons item items ih =>
      obtain ⟨hitem, hitems⟩ := List.forall_mem_cons.mp htexts
      have hpositive := byteLength_pos hitem
      obtain ⟨hapart, hplaces⟩ := ih (offset + byteLength item.text) hitems
      have hlater : ∀ place ∈ faults (offset + byteLength item.text) items,
          offset ≤ place.start ∧ place.start < place.stop ∧
            place.stop ≤ offset + byteLength ((item :: items).flatMap text) := by
        intro place hmem
        have hplace := hplaces place hmem
        rw [List.flatMap_cons, byteLength_append]
        omega
      cases item with
      | malformed text fault =>
          have hsize : byteLength text ≤ byteLength ((malformed text fault :: items).flatMap
              EscapeItem.text) := by
            rw [List.flatMap_cons, byteLength_append]
            exact Nat.le_add_right _ _
          refine ⟨List.pairwise_cons.mpr ⟨fun place hmem => (hplaces place hmem).1, hapart⟩,
            List.forall_mem_cons.mpr ⟨⟨Nat.le_refl _, ?_, ?_⟩, hlater⟩⟩
          · exact Nat.lt_add_of_pos_right hpositive
          · exact Nat.add_le_add_left hsize offset
      | _ => exact ⟨hapart, hlater⟩

theorem faults_eq_nil_iff (offset : Nat) (items : List EscapeItem) :
    faults offset items = [] ↔ ∀ item ∈ items, item.isMalformed = false := by
  induction items generalizing offset with
  | nil => simp [faults]
  | cons item items ih => cases item <;> simp [faults, isMalformed, ih]

theorem malformed_of_mem_faults {offset : Nat} {items : List EscapeItem} :
    ∀ located ∈ faults offset items, ∃ text fault, malformed text fault ∈ items ∧
      located.fault = .escape fault := by
  induction items generalizing offset with
  | nil => simp [faults]
  | cons item items ih =>
      have hlater : ∀ located ∈ faults (offset + byteLength item.text) items, ∃ text fault,
          malformed text fault ∈ item :: items ∧ located.fault = .escape fault := by
        intro located hmem
        obtain ⟨text, fault, hitem, hfault⟩ := ih located hmem
        exact ⟨text, fault, List.mem_cons_of_mem _ hitem, hfault⟩
      cases item with
      | malformed text fault =>
          exact List.forall_mem_cons.mpr ⟨⟨text, fault, List.mem_cons_self, rfl⟩, hlater⟩
      | _ => exact hlater

theorem Splits.text_ne_nil {body : List Char} {items : List EscapeItem}
    (hsplits : Splits body items) : ∀ item ∈ items, item.text ≠ [] := by
  induction hsplits with
  | nil => simp
  | cons hitem _ ih =>
      refine List.forall_mem_cons.mpr ⟨?_, ih⟩
      obtain ⟨c, chars, -, hnext⟩ := next_of_inFrontOf hitem
      have htext := text_ne_nil_of_next c chars
      rwa [hnext] at htext

/-! ### Machine numbers -/

/-- The character with a code point, if there is one. -/
def charOf? (number : Nat) : Option Char :=
  if number.isValidChar then some (Char.ofNat number) else none

/-- The digits between braces, read with numbers of 32 bits and a conversion to characters that can
fail. For a failure of either there is no fault with a name. -/
def ofHexDigitsChecked (digits : List Char) : Except (Option EscapeFault) Char :=
  if digits = [] then .error (some .noDigits)
  else match digits.find? fun c => !Digit.isDigitOf 16 c with
    | some bad => .error (some (.badDigit bad))
    | none =>
      if 6 < digits.length then .error (some (.tooLong digits))
      else match Digit.ofDigitsBelow? (2 ^ 32) 16 digits with
        | none => .error none
        | some number =>
          if 0x10FFFF < number then .error (some (.tooLarge digits))
          else if 0xD800 ≤ number ∧ number ≤ 0xDFFF then .error (some (.surrogate digits))
          else match charOf? number with
            | some c => .ok c
            | none => .error none

/-- Neither the numbers nor the conversion ever fail. -/
theorem ofHexDigitsChecked_eq (digits : List Char) :
    ofHexDigitsChecked digits = (ofHexDigits digits).mapError some := by
  unfold ofHexDigitsChecked ofHexDigits
  by_cases hsome : digits = []
  · simp only [if_pos hsome]
    rfl
  · simp only [if_neg hsome]
    cases hbad : digits.find? fun c => !Digit.isDigitOf 16 c with
    | some bad => rfl
    | none =>
        dsimp only
        by_cases hlong : 6 < digits.length
        · simp only [if_pos hlong]
          rfl
        · have hall : ∀ c ∈ digits, Digit.isDigitOf 16 c = true := by
            simpa using List.find?_eq_none.mp hbad
          have hbound : Digit.ofDigits 16 digits < 2 ^ 32 :=
            calc Digit.ofDigits 16 digits
                < 16 ^ digits.length := Digit.ofDigits_lt (by decide) hall
              _ ≤ 16 ^ 6 := Nat.pow_le_pow_right (by decide) (Nat.not_lt.mp hlong)
              _ ≤ 2 ^ 32 := by decide
          simp only [if_neg hlong, Digit.ofDigitsBelow?_of_lt (by decide) hbound]
          by_cases hlarge : 0x10FFFF < Digit.ofDigits 16 digits
          · simp only [if_pos hlarge]
            rfl
          · by_cases hsurrogate : 0xD800 ≤ Digit.ofDigits 16 digits ∧
                Digit.ofDigits 16 digits ≤ 0xDFFF
            · simp only [if_neg hlarge, if_pos hsurrogate]
              rfl
            · have hvalid := (isValidChar_iff _).mpr ⟨hlarge, hsurrogate⟩
              simp only [if_neg hlarge, if_neg hsurrogate, charOf?, if_pos hvalid]
              rfl

/-! ### Spellings of characters -/

/-- Six digits are enough for every character. -/
theorem exists_spellsChar (c : Char) : ∃ digits, SpellsChar digits c := by
  let lower := "0123456789abcdef".toList
  let values := [5, 4, 3, 2, 1, 0].map fun place => c.toNat / 16 ^ place % 16
  have hvalues : ∀ value ∈ values, value < 16 := by
    intro value hmem
    obtain ⟨place, -, rfl⟩ := List.mem_map.mp hmem
    exact Nat.mod_lt _ (by decide)
  have hdigit : ∀ value < 16, Digit.StandsFor 16 (lower.getD value '0') value := by
    intro value hlt
    refine ⟨hlt, lower, by simp [Digit.alphabets, lower], ?_⟩
    have hlength : value < lower.length := hlt
    rw [List.getD_eq_getElem?_getD, List.getElem?_eq_getElem hlength, Option.getD_some]
  refine ⟨values.map fun value => lower.getD value '0', by simp [values], by simp [values],
    values, ?_, ?_⟩
  · rw [List.forall₂_map_left_iff, List.forall₂_same]
    exact fun value hmem => hdigit value (hvalues value hmem)
  · have hbound : c.toNat < 16 ^ 6 := by
      have hvalid := (isValidChar_iff c.toNat).mp c.valid
      omega
    simp only [values, List.map_cons, List.map_nil, List.reverse_cons, List.reverse_nil,
      List.nil_append, List.cons_append, Nat.ofDigits_cons, Nat.ofDigits_nil]
    omega

end EscapeItem

/-! ### The main result -/

open EscapeItem TokenStream

theorem unescape_eq {body : List Char} {items : List EscapeItem} (hsplits : Splits body items) :
    unescape body = ⟨items.flatMap EscapeItem.value, malformedPlaces items⟩ := by
  simp only [unescape, splits_iff.mp hsplits, faults_eq]

/-- A body consists of these items and of no others, and is decoded and reported on by them. -/
structure Decodes (body : List Char) (items : List EscapeItem) : Prop where
  splits : Splits body items
  unique : ∀ other, Splits body other → other = items
  value : (unescape body).value = items.flatMap EscapeItem.value
  reported : ∀ file base, reports (unescape body).faults file base =
    (malformedPlaces items).map fun place =>
      place.fault.report ⟨file, base + place.start, base + place.stop⟩
  code : ∀ file base, ∀ diagnostic ∈ reports (unescape body).faults file base,
    diagnostic.code = some Code.invalidEscape
  located : ∀ index base,
    (reports (unescape body).faults (.registered index) base).map Diagnostic.primaryRange =
      (malformedPlaces items).map fun place =>
        ⟨.registered index, base + place.start, base + place.stop⟩
  apart : (malformedPlaces items).Pairwise fun left right => left.stop ≤ right.start
  inside : ∀ place ∈ malformedPlaces items,
    place.start < place.stop ∧ place.stop ≤ byteLength body
  silent : ∀ file base, reports (unescape body).faults file base = [] ↔
    ∀ item ∈ items, item.isMalformed = false

theorem decodes_split (body : List Char) : Decodes body (split body) := by
  have hsplits := splits_split body
  have hdecoded := unescape_eq hsplits
  have hreported : ∀ file base, reports (unescape body).faults file base =
      (malformedPlaces (split body)).map fun place =>
        place.fault.report ⟨file, base + place.start, base + place.stop⟩ := by
    intro file base
    rw [hdecoded]
    rfl
  have hescape : ∀ place ∈ malformedPlaces (split body), ∃ fault, place.fault = .escape fault := by
    intro place hmem
    obtain ⟨entry, -, hentry⟩ := List.mem_filterMap.mp hmem
    split at hentry
    · cases hentry
      exact ⟨_, rfl⟩
    · cases hentry
  obtain ⟨hapart, hplaces⟩ := faults_apart 0 (split body) hsplits.text_ne_nil
  rw [faults_eq] at hapart hplaces
  refine ⟨hsplits, fun other hother => (splits_iff.mp hother).symm, by rw [hdecoded], hreported,
    ?_, ?_, hapart, ?_, ?_⟩
  · intro file base diagnostic hmem
    rw [hreported] at hmem
    obtain ⟨place, hplace, rfl⟩ := List.mem_map.mp hmem
    obtain ⟨fault, hfault⟩ := hescape place hplace
    rw [LexicalFault.code_report, hfault]
    rfl
  · intro index base
    rw [hreported, List.map_map]
    exact List.map_congr_left fun place _ => place.fault.primaryRange_report rfl
  · intro place hmem
    have hplace := hplaces place hmem
    rw [hsplits.text_eq] at hplace
    omega
  · intro file base
    rw [hreported, List.map_eq_nil_iff, ← faults_eq, faults_eq_nil_iff]

/-- **Decoding follows the grammar of escapes.** Every body is a sequence of plain characters,
escapes and malformed escapes in one way. Its value is that of the items in their order, and what is
reported are the malformed ones, each once, in order and at its place. Behind what is sound every
spelling of a character is decoded to it, and each character has a spelling. Numbers of 32 bits are
large enough, and every number that gets so far is that of a character. -/
theorem unescape_decodes (body : List Char) :
    (∃ items, Decodes body items) ∧
      (∀ digits c, SpellsChar digits c → unescape (unicodeText digits) = ⟨[c], []⟩ ∧
        ∀ after, (unescape body).faults = [] →
          (unescape (body ++ (unicodeText digits ++ after))).value =
            (unescape body).value ++ c :: (unescape after).value) ∧
      (∀ c, ∃ digits, SpellsChar digits c) ∧
      ∀ digits, ofHexDigitsChecked digits = (ofHexDigits digits).mapError some := by
  refine ⟨⟨_, decodes_split body⟩, ?_, exists_spellsChar, ofHexDigitsChecked_eq⟩
  intro digits c hspells
  have hone : ∀ rest items, Splits rest items →
      Splits (unicodeText digits ++ rest) (.escape (unicodeText digits) c :: items) :=
    fun rest items hrest => .cons (.unicode hspells) hrest
  constructor
  · have halone := unescape_eq (hone [] [] .nil)
    rwa [List.append_nil] at halone
  · intro after hsilent
    have hsplits := splits_split body
    rw [unescape_eq hsplits, ← faults_eq, faults_eq_nil_iff] at hsilent
    have hwhole := hsplits.append hsilent (hone after (split after) (splits_split after))
    rw [unescape_eq hwhole, unescape_eq hsplits, unescape_eq (splits_split after)]
    simp [EscapeItem.value]

end BehaviorTree
