import BehaviorTree.Proofs.Lexical.Lines

/-!
# Lexemes by themselves

What a lexeme is depends on its text alone: read again with nothing behind it, the text of a lexeme
is the same lexeme with the same faults, and nothing of it is left. The characters behind a lexeme
only say where it ends.
-/

namespace BehaviorTree

/-! ### Runs of characters -/

section Runs

variable {p : Char → Bool} (chars : List Char) {rest : List Char}

theorem mem_takeWhile {c : Char} (hmem : c ∈ chars.takeWhile p) : p c = true :=
  List.all_eq_true.mp List.all_takeWhile c hmem

/-- A run ends in front of the first character that does not belong to it. -/
theorem takeWhile_append_stop {front : List Char} (hfront : ∀ c ∈ front, p c = true)
    (hrest : rest.head?.any p = false) : (front ++ rest).takeWhile p = front := by
  have hnone : rest.takeWhile p = [] := by cases rest <;> simp_all
  rw [List.takeWhile_append_of_pos hfront, hnone, List.append_nil]

theorem dropWhile_append_stop {front : List Char} (hfront : ∀ c ∈ front, p c = true)
    (hrest : rest.head?.any p = false) : (front ++ rest).dropWhile p = rest := by
  have hall : rest.dropWhile p = rest := by cases rest <;> simp_all
  rw [List.dropWhile_append_of_pos hfront, hall]

theorem takeWhile_run (hrest : rest.head?.any p = false) :
    (chars.takeWhile p ++ rest).takeWhile p = chars.takeWhile p :=
  takeWhile_append_stop (fun _ => mem_takeWhile chars) hrest

theorem dropWhile_run (hrest : rest.head?.any p = false) :
    (chars.takeWhile p ++ rest).dropWhile p = rest :=
  dropWhile_append_stop (fun _ => mem_takeWhile chars) hrest

theorem takeWhile_alone : (chars.takeWhile p).takeWhile p = chars.takeWhile p := by
  simpa using takeWhile_run (p := p) chars (show ([] : List Char).head?.any p = false from rfl)

theorem dropWhile_alone : (chars.takeWhile p).dropWhile p = [] := by
  simpa using dropWhile_run (p := p) chars (show ([] : List Char).head?.any p = false from rfl)

end Runs

/-! ### String literals -/

namespace StringLiteral

variable (chars : List Char)

/-- A body ends where it ended if nothing but its closing quote stands behind it. -/
theorem scanBody_alone : scanBody ((scanBody chars).text ++ (scanBody chars).closer) =
    { scanBody chars with rest := (scanBody chars).closer } := by
  fun_induction scanBody chars with
  | case1 => rfl
  | case2 => rfl
  | case3 rest => rfl
  | case4 c rest hline ih =>
      show scanBody ('\\' :: c :: ((scanBody rest).text ++ (scanBody rest).closer)) = _
      rw [scanBody, if_neg hline, ih]
      rfl
  | case5 rest => rfl
  | case6 rest => rfl
  | case7 c rest hnone hsome hline hquote ih =>
      have hslash : c ≠ '\\' := by
        rintro rfl
        cases rest with
        | nil => exact hnone rfl rfl
        | cons d rest => exact hsome d rest rfl rfl
      show scanBody (c :: ((scanBody rest).text ++ (scanBody rest).closer)) = _
      rw [scanBody, if_neg hline, if_neg hquote, ih]
      · rfl
      · exact fun h => absurd h hslash
      · exact fun _ _ h => absurd h hslash

theorem scan_alone :
    scan ((scanBody chars).text ++ (scanBody chars).closer) = ((scan chars).1, []) := by
  have hleft : (scanBody chars).closer.drop (scanBody chars).closer.length = [] := List.drop_length
  simp only [scan, scanBody_alone]
  exact Prod.ext rfl hleft

end StringLiteral

/-! ### Number literals -/

namespace NumberLiteral

variable (chars : List Char)

/-- An exponent starts with its letter. -/
theorem scanExponent_first : (scanExponent chars).1.head? = none ∨
    (scanExponent chars).1.head? = some 'e' ∨ (scanExponent chars).1.head? = some 'E' := by
  cases chars with
  | nil => exact .inl rfl
  | cons e rest =>
      unfold scanExponent
      dsimp only
      split
      · rename_i he
        rw [Bool.and_eq_true, Bool.or_eq_true, beq_iff_eq, beq_iff_eq] at he
        rcases he.1 with rfl | rfl
        · exact .inr (.inl rfl)
        · exact .inr (.inr rfl)
      · exact .inl rfl

/-- Neither a digit nor a dot comes first in an exponent. -/
theorem head?_scanExponent : (scanExponent chars).1.head?.any isDigitPart = false ∧
    (scanExponent chars).1.head? ≠ some '.' := by
  rcases scanExponent_first chars with h | h | h <;> rw [h] <;> decide

theorem head?_scanFraction {rest : List Char} (hrest : rest.head?.any isDigitPart = false) :
    ((scanFraction chars).1 ++ rest).head?.any isDigitPart = false := by
  unfold scanFraction
  split
  · split
    · rfl
    · exact hrest
  · exact hrest

theorem isDigitPart_of_isDigit {c : Char} (hdigit : c.isDigit = true) : isDigitPart c = true := by
  simp [isDigitPart, hdigit]

/-- Digits behind a sign, or behind none, leave it as it is. -/
theorem signOf_digits {digits : List Char} (hdigits : digits.head?.any Char.isDigit = true) :
    signOf (signOf chars ++ digits) = signOf chars := by
  have hnone : signOf digits = [] := by
    unfold signOf
    split
    · cases hdigits
    · cases hdigits
    · rfl
  have hsign : signOf chars = ['+'] ∨ signOf chars = ['-'] ∨ signOf chars = [] := by
    unfold signOf
    split <;> simp
  rcases hsign with hsign | hsign | hsign
  · rw [hsign]
    rfl
  · rw [hsign]
    rfl
  · rw [hsign, List.nil_append, hnone]

theorem scanExponent_alone : scanExponent (scanExponent chars).1 = ((scanExponent chars).1, []) := by
  rcases chars with _ | ⟨e, rest⟩
  · rfl
  · let digits := rest.drop (signOf rest).length
    by_cases he : ((e == 'e' || e == 'E') && digits.head?.any Char.isDigit) = true
    · have hread : (scanExponent (e :: rest)).1 =
          e :: (signOf rest ++ digits.takeWhile isDigitPart) := by
        simp only [scanExponent, digits, if_pos he, List.cons_append]
      have hfirst : (digits.takeWhile isDigitPart).head?.any Char.isDigit = true := by
        rw [Bool.and_eq_true] at he
        cases hdigits : digits with
        | nil => simp [hdigits] at he
        | cons d more =>
            have hd : d.isDigit = true := by simpa [hdigits] using he.2
            simpa [isDigitPart_of_isDigit hd] using hd
      rw [Bool.and_eq_true] at he
      rw [hread]
      simp only [scanExponent, signOf_digits rest hfirst, List.drop_left, hfirst, he.1,
        Bool.and_self, if_true, takeWhile_alone, dropWhile_alone, List.cons_append]
    · have hread : scanExponent (e :: rest) = ([], e :: rest) := by
        simp only [scanExponent, digits, if_neg he]
      rw [hread]
      rfl

/-- A fraction is read again in front of an exponent, or of nothing. -/
theorem scanFraction_alone {rest : List Char} (hdigit : rest.head?.any isDigitPart = false)
    (hdot : rest.head? ≠ some '.') :
    scanFraction ((scanFraction chars).1 ++ rest) = ((scanFraction chars).1, rest) := by
  have hnone : scanFraction rest = ([], rest) := by
    unfold scanFraction
    split
    · exact absurd rfl hdot
    · rfl
  rcases chars with _ | ⟨c, _ | ⟨d, more⟩⟩
  · exact hnone
  · by_cases hc : c = '.'
    · subst hc
      exact hnone
    · simpa [scanFraction] using hnone
  · by_cases hc : c = '.' ∧ d.isDigit = true
    · obtain ⟨rfl, hd⟩ := hc
      have hread : (scanFraction ('.' :: d :: more)).1 =
          '.' :: d :: more.takeWhile isDigitPart := by
        simp [scanFraction, hd, isDigitPart_of_isDigit hd]
      have htake := takeWhile_run (p := isDigitPart) (d :: more) hdigit
      have hdrop := dropWhile_run (p := isDigitPart) (d :: more) hdigit
      rw [List.takeWhile_cons_of_pos (isDigitPart_of_isDigit hd)] at htake hdrop
      rw [hread, List.cons_append, List.cons_append, scanFraction, if_pos hd]
      exact Prod.ext (congrArg ('.' :: ·) htake) hdrop
    · have hread : (scanFraction (c :: d :: more)).1 = [] := by
        unfold scanFraction
        split
        · rename_i hcons
          cases hcons
          exact if_neg (fun hd => hc ⟨rfl, hd⟩) ▸ rfl
        · rfl
      rw [hread]
      exact hnone

theorem scanDecimal_alone :
    scanDecimal (scanDecimal chars).1.text = ((scanDecimal chars).1, []) := by
  let fraction := scanFraction (chars.dropWhile isDigitPart)
  let exponent := scanExponent fraction.2
  obtain ⟨hexponent, hdot⟩ : exponent.1.head?.any isDigitPart = false ∧
      exponent.1.head? ≠ some '.' := head?_scanExponent fraction.2
  have hfraction : (fraction.1 ++ exponent.1).head?.any isDigitPart = false :=
    head?_scanFraction (chars.dropWhile isDigitPart) hexponent
  have htext : (scanDecimal chars).1.text =
      chars.takeWhile isDigitPart ++ (fraction.1 ++ exponent.1) := List.append_assoc _ _ _
  have hread : scanFraction (fraction.1 ++ exponent.1) = (fraction.1, exponent.1) :=
    scanFraction_alone _ hexponent hdot
  have hlast : scanExponent exponent.1 = (exponent.1, []) := scanExponent_alone fraction.2
  rw [htext, scanDecimal]
  simp only [takeWhile_run chars hfraction, dropWhile_run chars hfraction, hread, hlast]
  rfl

theorem scanMarked_alone (mark : RadixMark) (markText : List Char) :
    scanMarked mark markText (chars.takeWhile isWordPart) =
      ((scanMarked mark markText chars).1, []) := by
  simp only [scanMarked, takeWhile_alone, dropWhile_alone]

theorem scan_alone : scan (scan chars).1.text = ((scan chars).1, []) := by
  -- without a mark behind the first digit, a literal has none as its own second character either
  have hdecimal : ∀ chars : List Char, (∀ c rest, chars = '0' :: c :: rest → RadixMark.ofChar? c = none) →
      scan chars = ((scanDecimal chars).1.lexeme, (scanDecimal chars).2) := by
    intro chars hnone
    unfold scan
    split
    · rename_i c rest
      rw [hnone c rest rfl]
    · rfl
  by_cases hmark : ∃ c rest, chars = '0' :: c :: rest ∧ RadixMark.ofChar? c ≠ none
  · obtain ⟨c, rest, rfl, hc⟩ := hmark
    obtain ⟨mark, hmark⟩ := Option.ne_none_iff_exists'.mp hc
    have hread : ∀ rest, scan ('0' :: c :: rest) = scanMarked mark ['0', c] rest := by
      intro rest
      simp [scan, hmark]
    have htext : (scan ('0' :: c :: rest)).1.text = '0' :: c :: rest.takeWhile isWordPart := by
      rw [hread]
      exact text_intLexeme _ _
    rw [htext, hread, hread, scanMarked_alone]
  · have hnone : ∀ c rest, chars = '0' :: c :: rest → RadixMark.ofChar? c = none := by
      intro c rest hchars
      exact Decidable.byContradiction fun hc => hmark ⟨c, rest, hchars, hc⟩
    have hpart : ∀ c rest, (scanDecimal chars).1.text = '0' :: c :: rest →
        RadixMark.ofChar? c = none := by
      intro c rest htext
      have happend := scanDecimal_append chars
      rw [htext] at happend
      exact hnone c _ happend.symm
    rw [hdecimal chars hnone, Decimal.text_lexeme, hdecimal _ hpart, scanDecimal_alone]

end NumberLiteral

/-! ### Names, symbols and documentation -/

namespace Lexeme

theorem scanName_alone (chars : List Char) :
    scanName (scanName chars).1.text = ((scanName chars).1, []) := by
  simp only [scanName, plain, takeWhile_alone, dropWhile_alone]

theorem docMark?_alone {chars body : List Char} {mark : DocMark}
    (hmark : docMark? chars = some (mark, body)) :
    docMark? (chars.takeWhile isInLine) = some (mark, body.takeWhile isInLine) := by
  obtain ⟨c, rfl, hline⟩ := docMark?_append hmark
  rw [List.takeWhile_cons_of_pos hline]
  by_cases hbang : c = '!'
  · subst hbang
    cases hmark
    rfl
  · by_cases hslash : c = '/'
    · subst hslash
      have hhead : body.head? ≠ some '/' := by
        intro hhead
        simp [docMark?, hhead] at hmark
      have hhead' : (body.takeWhile isInLine).head? ≠ some '/' := by
        cases body with
        | nil => simp
        | cons d body =>
            rw [List.takeWhile_cons]
            split <;> simp_all
      simp only [docMark?, if_neg hhead, if_neg hhead'] at hmark ⊢
      cases hmark
      rfl
    · simp [docMark?, hbang, hslash] at hmark

theorem scanDoc?_alone {rest : List Char} {scanned : Lexeme × List Char}
    (hdoc : scanDoc? rest = some scanned) :
    scanDoc? (scanned.1.text.drop 1) = some (scanned.1, []) := by
  unfold scanDoc? at hdoc
  split at hdoc
  · rename_i body
    obtain ⟨⟨mark, documented⟩, hmark, rfl⟩ := Option.map_eq_some_iff.mp hdoc
    simp only [plain, List.drop_succ_cons, List.drop_zero, scanDoc?, docMark?_alone hmark,
      Option.map_some, takeWhile_alone, dropWhile_alone]
  · cases hdoc

/-- A symbol of one character, if the character is one. -/
theorem symbol?_nil {c : Char} {scanned : Lexeme × List Char}
    (hsymbol : symbol? c [] = some scanned) : scanned.1.text = [c] ∧ scanned.2 = [] := by
  simp only [symbol?, List.take_nil, List.append_nil, List.drop_nil] at hsymbol
  split at hsymbol
  · cases hsymbol
    exact ⟨rfl, rfl⟩
  · obtain ⟨mark, -, rfl⟩ := Option.map_eq_some_iff.mp hsymbol
    exact ⟨rfl, rfl⟩

/-- The next character matters only to an operator of two. -/
theorem symbol?_cons (c d : Char) (rest : List Char) : symbol? c (d :: rest) =
    match Operator.ofSpelling? (String.ofList [c, d]) with
    | some op => some (plain (.operator op) [c, d], rest)
    | none => (symbol? c []).map fun scanned => (scanned.1, d :: rest) := by
  simp only [symbol?, List.take_succ_cons, List.take_zero, List.take_nil, List.append_nil,
    List.singleton_append, List.drop_succ_cons, List.drop_zero, List.drop_nil]
  cases Operator.ofSpelling? (String.ofList [c, d]) with
  | some op => rfl
  | none =>
      cases Operator.ofSpelling? (String.ofList [c]) with
      | some op => rfl
      | none => cases Punctuation.ofSpelling? (String.ofList [c]) <;> rfl

theorem symbol?_alone {c : Char} {rest : List Char} {scanned : Lexeme × List Char}
    (hsymbol : symbol? c rest = some scanned) :
    ∃ tail, scanned.1.text = c :: tail ∧ symbol? c tail = some (scanned.1, []) := by
  have hone : ∀ {scanned : Lexeme × List Char}, symbol? c [] = some scanned →
      ∃ tail, scanned.1.text = c :: tail ∧ symbol? c tail = some (scanned.1, []) := by
    intro scanned hnil
    obtain ⟨htext, hleft⟩ := symbol?_nil hnil
    exact ⟨[], htext, hnil.trans (congrArg some (Prod.ext rfl hleft))⟩
  cases rest with
  | nil => exact hone hsymbol
  | cons d rest =>
      rw [symbol?_cons] at hsymbol
      cases hpair : Operator.ofSpelling? (String.ofList [c, d]) with
      | some op =>
          simp only [hpair, Option.some.injEq] at hsymbol
          subst hsymbol
          exact ⟨[d], rfl, by rw [symbol?_cons, hpair]⟩
      | none =>
          simp only [hpair] at hsymbol
          obtain ⟨single, hsingle, rfl⟩ := Option.map_eq_some_iff.mp hsymbol
          obtain ⟨tail, htext, hread⟩ := hone hsingle
          exact ⟨tail, htext, hread⟩

/-- What starts no symbol starts none either if fewer characters follow. -/
theorem symbol?_takeWhile {c : Char} {rest : List Char} (p : Char → Bool)
    (hnone : symbol? c rest = none) : symbol? c (rest.takeWhile p) = none := by
  cases rest with
  | nil => exact hnone
  | cons d rest =>
      rw [symbol?_cons] at hnone
      cases hpair : Operator.ofSpelling? (String.ofList [c, d]) with
      | some op =>
          rw [hpair] at hnone
          cases hnone
      | none =>
          simp only [hpair, Option.map_eq_none_iff] at hnone
          rw [List.takeWhile_cons]
          split
          · rw [symbol?_cons, hpair, hnone]
            rfl
          · exact hnone

theorem scanSymbol_alone (c : Char) (rest : List Char) :
    ∃ tail, (scanSymbol c rest).1.text = c :: tail ∧
      scanSymbol c tail = ((scanSymbol c rest).1, []) := by
  cases hsymbol : symbol? c rest with
  | some scanned =>
      obtain ⟨tail, htext, hread⟩ := symbol?_alone hsymbol
      refine ⟨tail, ?_, ?_⟩ <;> simp only [scanSymbol, hsymbol, htext, hread]
  | none =>
      refine ⟨rest.takeWhile fun c => !endsUnknown c, ?_, ?_⟩
      · simp only [scanSymbol, hsymbol, faulty]
      · simp only [scanSymbol, hsymbol, symbol?_takeWhile _ hsymbol, faulty, takeWhile_alone,
          dropWhile_alone]

/-- What belongs to an operator that starts with a slash makes no comment of it. -/
theorem slash_tail {rest tail : List Char} (htext : (scanSymbol '/' rest).1.text = '/' :: tail) :
    tail.head? ≠ some '/' ∧ tail.head? ≠ some '*' := by
  have hone : symbol? '/' [] = some (plain (.operator .slash) ['/'], []) := rfl
  cases rest with
  | nil =>
      cases htext
      simp
  | cons d rest =>
      cases hpair : Operator.ofSpelling? (String.ofList ['/', d]) with
      | some op =>
          simp only [scanSymbol, symbol?_cons, hpair] at htext
          obtain rfl : [d] = tail := (List.cons.inj htext).2
          constructor
          · intro hslash
            cases hslash
            cases hpair
          · intro hstar
            cases hstar
            cases hpair
      | none =>
          simp only [scanSymbol, symbol?_cons, hpair, hone, Option.map_some] at htext
          obtain rfl : [] = tail := (List.cons.inj htext).2
          simp

theorem scanDoc?_of_head? {tail : List Char} (hhead : tail.head? ≠ some '/') :
    scanDoc? tail = none := by
  unfold scanDoc?
  split
  · exact absurd rfl hhead
  · rfl

/-- **A lexeme by itself.** The text of a lexeme is read as the same lexeme, and nothing is left. -/
theorem scan_alone (c : Char) (rest : List Char) :
    ∃ tail, (scan c rest).1.text = c :: tail ∧ scan c tail = ((scan c rest).1, []) := by
  have hfront : ∃ tail, (scan c rest).1.text = c :: tail := by
    have happend := scan_append c rest
    cases htext : (scan c rest).1.text with
    | nil => exact absurd htext (scan_text_ne_nil c rest)
    | cons d tail =>
        rw [htext] at happend
        exact ⟨tail, congrArg (· :: tail) (List.cons.inj happend).1⟩
  obtain ⟨tail, htext⟩ := hfront
  refine ⟨tail, htext, ?_⟩
  unfold scan at htext ⊢
  by_cases hquote : c = '"'
  · simp only [if_pos hquote] at htext ⊢
    have htail : (StringLiteral.scanBody rest).text ++ (StringLiteral.scanBody rest).closer = tail :=
      (List.cons.inj htext).2
    rw [← htail, StringLiteral.scan_alone]
  · by_cases hdigit : c.isDigit = true
    · simp only [if_neg hquote, if_pos hdigit] at htext ⊢
      rw [← htext, NumberLiteral.scan_alone]
    · by_cases hname : isNameStart c = true
      · simp only [if_neg hquote, if_neg hdigit, if_pos hname] at htext ⊢
        rw [← htext, scanName_alone]
      · by_cases hslash : c = '/'
        · subst hslash
          simp only [if_neg hquote, if_neg hdigit, if_neg hname, if_true] at htext ⊢
          cases hdoc : scanDoc? rest with
          | some scanned =>
              have hread := scanDoc?_alone hdoc
              rw [hdoc, Option.getD_some] at htext
              rw [htext, List.drop_one, List.tail_cons] at hread
              rw [hread]
              rfl
          | none =>
              rw [hdoc, Option.getD_none] at htext
              obtain ⟨same, hsame, hread⟩ := scanSymbol_alone '/' rest
              obtain rfl : same = tail := (List.cons.inj (hsame.symm.trans htext)).2
              rw [scanDoc?_of_head? (slash_tail htext).1, hread]
              rfl
        · simp only [if_neg hquote, if_neg hdigit, if_neg hname, if_neg hslash] at htext ⊢
          obtain ⟨same, hsame, hread⟩ := scanSymbol_alone c rest
          obtain rfl : same = tail := (List.cons.inj (hsame.symm.trans htext)).2
          exact hread

end Lexeme

end BehaviorTree
