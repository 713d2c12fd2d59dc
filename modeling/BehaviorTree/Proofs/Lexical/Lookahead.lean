import BehaviorTree.Proofs.Lexical.Texts

/-!
# How far a lexeme looks ahead

Behind a lexeme a few characters are looked at to see that it does not go on. None of them lies
behind a `;`, a brace or a line feed: while the text behind a lexeme stays the same through one of
these, the same lexeme is read, and the gap in front of it ends where it did.
-/

namespace BehaviorTree

/-- No character behind this one is looked at by what ends in front of it. -/
def isBoundary (c : Char) : Bool := c == ';' || c == '\x7d' || c == '\n'

theorem isBoundary_cases {c : Char} (hc : isBoundary c = true) : c = ';' ∨ c = '\x7d' ∨ c = '\n' := by
  simpa [isBoundary, or_assoc] using hc

/-- Two texts that are the same through a boundary. -/
inductive SameAhead : List Char → List Char → Prop
  | boundary {c : Char} (rest rest' : List Char) : isBoundary c = true →
    SameAhead (c :: rest) (c :: rest')
  | step (c : Char) {rest rest' : List Char} : SameAhead rest rest' →
    SameAhead (c :: rest) (c :: rest')

namespace SameAhead

variable {ahead ahead' : List Char}

theorem append (front : List Char) (h : SameAhead ahead ahead') :
    SameAhead (front ++ ahead) (front ++ ahead') := by
  induction front with
  | nil => exact h
  | cons c front ih => exact .step c ih

/-- The first characters are the same. -/
theorem head?_eq (h : SameAhead ahead ahead') : ahead'.head? = ahead.head? := by
  cases h <;> rfl

theorem exists_cons (h : SameAhead ahead ahead') : ∃ c rest', ahead' = c :: rest' := by
  cases h <;> exact ⟨_, _, rfl⟩

theorem cons_of_cons {c : Char} {rest : List Char} (h : SameAhead (c :: rest) ahead') :
    ∃ rest', ahead' = c :: rest' ∧ (isBoundary c = false → SameAhead rest rest') := by
  cases h with
  | boundary _ rest' hc => exact ⟨rest', rfl, fun hnone => by rw [hc] at hnone; cases hnone⟩
  | step _ h => exact ⟨_, rfl, fun _ => h⟩

end SameAhead

section Runs

variable {p : Char → Bool} (chars : List Char) {ahead : List Char}

theorem head?_behind_run (h : SameAhead (chars.dropWhile p) ahead) : ahead.head?.any p = false := by
  have hnot := List.head?_dropWhile_not p chars
  rw [h.head?_eq]
  cases hhead : (chars.dropWhile p).head? with
  | none => rfl
  | some c => simpa [hhead] using hnot

theorem takeWhile_ahead (h : SameAhead (chars.dropWhile p) ahead) :
    (chars.takeWhile p ++ ahead).takeWhile p = chars.takeWhile p :=
  takeWhile_run chars (head?_behind_run chars h)

theorem dropWhile_ahead (h : SameAhead (chars.dropWhile p) ahead) :
    (chars.takeWhile p ++ ahead).dropWhile p = ahead :=
  dropWhile_run chars (head?_behind_run chars h)

end Runs

/-! ### String literals -/

namespace StringLiteral

/-- Behind its closing quote nothing matters to a body. -/
theorem scanBody_closed (chars ahead : List Char) (hclosed : (scanBody chars).ending = .closed) :
    scanBody ((scanBody chars).text ++ '"' :: ahead) =
      ⟨(scanBody chars).text, .closed, '"' :: ahead⟩ := by
  fun_induction scanBody chars with
  | case1 | case2 | case3 | case5 => cases hclosed
  | case4 c rest hline ih =>
      show scanBody ('\\' :: c :: ((scanBody rest).text ++ '"' :: ahead)) = _
      rw [scanBody, if_neg hline, ih hclosed]
      rfl
  | case6 rest => simp [scanBody]
  | case7 c rest hnone hsome hline hquote ih =>
      have hslash : c ≠ '\\' := by
        rintro rfl
        cases rest with
        | nil => exact hnone rfl rfl
        | cons d rest => exact hsome d rest rfl rfl
      show scanBody (c :: ((scanBody rest).text ++ '"' :: ahead)) = _
      rw [scanBody, if_neg hline, if_neg hquote, ih hclosed]
      · rfl
      · exact fun h => absurd h hslash
      · exact fun _ _ h => absurd h hslash

/-- A literal that nothing is wrong with has its closing quote. -/
theorem closed_of_faults {chars : List Char} (hfaults : (scan chars).1.faults = []) :
    (scanBody chars).ending = .closed := by
  cases hending : (scanBody chars).ending with
  | closed => rfl
  | cut | cutInEscape => simp [scan, hending] at hfaults

theorem scan_ahead {chars : List Char} (hfaults : (scan chars).1.faults = []) (ahead : List Char) :
    ∃ tail, (scan chars).1.text = '"' :: tail ∧ scan (tail ++ ahead) = ((scan chars).1, ahead) := by
  have hclosed := closed_of_faults hfaults
  have hcloser : (scanBody chars).closer = ['"'] := by rw [Body.closer, if_pos hclosed]
  refine ⟨(scanBody chars).text ++ ['"'], ?_, ?_⟩
  · rw [← hcloser]
    rfl
  · have hbody := scanBody_closed chars ahead hclosed
    rw [List.append_assoc, List.singleton_append]
    simp only [scan, hbody, Body.decoded, Body.closer, hclosed]
    rfl

end StringLiteral

/-! ### Number literals -/

namespace NumberLiteral

variable {ahead ahead' : List Char}

/-- The digit of an exponent, behind its sign if there is one. -/
theorem head?_behind_sign (h : SameAhead ahead ahead') :
    (ahead'.drop (signOf ahead').length).head?.any Char.isDigit =
      (ahead.drop (signOf ahead).length).head?.any Char.isDigit := by
  cases h with
  | boundary rest rest' hc => rcases isBoundary_cases hc with rfl | rfl | rfl <;> rfl
  | step c h =>
      by_cases hplus : c = '+'
      · subst hplus
        simp only [signOf, List.length_singleton, List.drop_succ_cons, List.drop_zero, h.head?_eq]
      · by_cases hminus : c = '-'
        · subst hminus
          simp only [signOf, List.length_singleton, List.drop_succ_cons, List.drop_zero, h.head?_eq]
        · have hsign : ∀ rest, signOf (c :: rest) = [] := by
            intro rest
            unfold signOf
            split <;> simp_all
          simp only [hsign, List.length_nil, List.drop_zero, List.head?_cons]

theorem scanExponent_none (h : SameAhead ahead ahead') (hnone : scanExponent ahead = ([], ahead)) :
    scanExponent ahead' = ([], ahead') := by
  cases h with
  | boundary rest rest' hc => rcases isBoundary_cases hc with rfl | rfl | rfl <;> rfl
  | step e h =>
      simp only [scanExponent, head?_behind_sign h] at hnone ⊢
      split at hnone
      · cases hnone
      · rename_i hexponent
        rw [if_neg hexponent]

theorem scanExponent_ahead (chars : List Char) (h : SameAhead (scanExponent chars).2 ahead) :
    scanExponent ((scanExponent chars).1 ++ ahead) = ((scanExponent chars).1, ahead) := by
  rcases chars with _ | ⟨e, rest⟩
  · cases h
  · let digits := rest.drop (signOf rest).length
    by_cases he : ((e == 'e' || e == 'E') && digits.head?.any Char.isDigit) = true
    · have hread : scanExponent (e :: rest) =
          (e :: (signOf rest ++ digits.takeWhile isDigitPart), digits.dropWhile isDigitPart) := by
        simp only [scanExponent, digits, if_pos he, List.cons_append]
      rw [hread] at h
      have hfirst : (digits.takeWhile isDigitPart ++ ahead).head?.any Char.isDigit = true := by
        rw [Bool.and_eq_true] at he
        cases hdigits : digits with
        | nil => simp [hdigits] at he
        | cons d more =>
            have hd : d.isDigit = true := by simpa [hdigits] using he.2
            simpa [isDigitPart_of_isDigit hd] using hd
      rw [Bool.and_eq_true] at he
      rw [hread, List.cons_append, List.append_assoc]
      simp only [scanExponent, signOf_digits rest hfirst, List.drop_left, hfirst, he.1,
        Bool.and_self, if_true, takeWhile_ahead digits h, dropWhile_ahead digits h,
        List.cons_append]
    · have hread : scanExponent (e :: rest) = ([], e :: rest) := by
        simp only [scanExponent, digits, if_neg he]
      rw [hread] at h ⊢
      exact scanExponent_none h hread

theorem scanFraction_none (h : SameAhead ahead ahead') (hnone : scanFraction ahead = ([], ahead)) :
    scanFraction ahead' = ([], ahead') := by
  cases h with
  | boundary rest rest' hc => rcases isBoundary_cases hc with rfl | rfl | rfl <;> rfl
  | step c h =>
      by_cases hc : c = '.'
      · subst hc
        cases h with
        | boundary rest rest' hd => rcases isBoundary_cases hd with rfl | rfl | rfl <;> rfl
        | step d h =>
            simp only [scanFraction] at hnone ⊢
            split at hnone
            · cases hnone
            · rename_i hd
              rw [if_neg hd]
      · simp [scanFraction, hc]

theorem scanFraction_ahead (chars : List Char) (h : SameAhead (scanFraction chars).2 ahead) :
    scanFraction ((scanFraction chars).1 ++ ahead) = ((scanFraction chars).1, ahead) := by
  by_cases hfraction : ∃ d rest, chars = '.' :: d :: rest ∧ d.isDigit = true
  · obtain ⟨d, rest, rfl, hd⟩ := hfraction
    have hread : scanFraction ('.' :: d :: rest) =
        ('.' :: (d :: rest).takeWhile isDigitPart, (d :: rest).dropWhile isDigitPart) := by
      rw [scanFraction, if_pos hd]
    rw [hread] at h ⊢
    have htake := takeWhile_ahead (d :: rest) h
    have hdrop := dropWhile_ahead (d :: rest) h
    rw [List.takeWhile_cons_of_pos (isDigitPart_of_isDigit hd)] at htake hdrop ⊢
    rw [List.cons_append, List.cons_append, scanFraction, if_pos hd]
    exact Prod.ext (congrArg ('.' :: ·) htake) hdrop
  · have hread : scanFraction chars = ([], chars) := by
      unfold scanFraction
      split
      · rename_i d rest
        exact if_neg fun hd => hfraction ⟨d, rest, rfl, hd⟩
      · rfl
    rw [hread] at h ⊢
    exact scanFraction_none h hread

theorem scanDecimal_ahead (chars : List Char) (h : SameAhead (scanDecimal chars).2 ahead) :
    scanDecimal ((scanDecimal chars).1.text ++ ahead) = ((scanDecimal chars).1, ahead) := by
  let fraction := scanFraction (chars.dropWhile isDigitPart)
  let exponent := scanExponent fraction.2
  have hexponent : SameAhead fraction.2 (exponent.1 ++ ahead) := by
    have hwhole := scanExponent_append fraction.2
    exact hwhole ▸ h.append exponent.1
  have hfraction : SameAhead (chars.dropWhile isDigitPart) (fraction.1 ++ (exponent.1 ++ ahead)) := by
    have hwhole := scanFraction_append (chars.dropWhile isDigitPart)
    exact hwhole ▸ hexponent.append fraction.1
  have htext : (scanDecimal chars).1.text ++ ahead =
      chars.takeWhile isDigitPart ++ (fraction.1 ++ (exponent.1 ++ ahead)) := by
    simp only [scanDecimal, Decimal.text, List.append_assoc]
    rfl
  have hread : scanFraction (fraction.1 ++ (exponent.1 ++ ahead)) = (fraction.1, exponent.1 ++ ahead) :=
    scanFraction_ahead _ hexponent
  have hlast : scanExponent (exponent.1 ++ ahead) = (exponent.1, ahead) :=
    scanExponent_ahead fraction.2 h
  rw [htext, scanDecimal]
  simp only [takeWhile_ahead chars hfraction, dropWhile_ahead chars hfraction, hread, hlast]
  rfl

theorem scanMarked_ahead (mark : RadixMark) (markText chars : List Char)
    (h : SameAhead (scanMarked mark markText chars).2 ahead) :
    scanMarked mark markText (chars.takeWhile isWordPart ++ ahead) =
      ((scanMarked mark markText chars).1, ahead) := by
  simp only [scanMarked, takeWhile_ahead chars h, dropWhile_ahead chars h]

theorem scan_ahead (chars : List Char) (h : SameAhead (scan chars).2 ahead) :
    scan ((scan chars).1.text ++ ahead) = ((scan chars).1, ahead) := by
  have hdecimal : ∀ chars : List Char,
      (∀ c rest, chars = '0' :: c :: rest → RadixMark.ofChar? c = none) →
        scan chars = ((scanDecimal chars).1.lexeme, (scanDecimal chars).2) := by
    intro chars hnone
    unfold scan
    split
    · rename_i c rest
      rw [hnone c rest rfl]
    · rfl
  by_cases hmark : ∃ c rest, chars = '0' :: c :: rest ∧ RadixMark.ofChar? c ≠ none
  · obtain ⟨c, rest, rfl, hc⟩ := hmark
    obtain ⟨mark, hmark⟩ := Option.ne_none_iff_exists'.mp hc
    have hread : ∀ rest, scan ('0' :: c :: rest) = scanMarked mark ['0', c] rest := by
      intro rest
      simp [scan, hmark]
    have htext : (scan ('0' :: c :: rest)).1.text = '0' :: c :: rest.takeWhile isWordPart := by
      rw [hread]
      exact text_intLexeme _ _
    rw [hread] at h
    rw [htext, List.cons_append, List.cons_append, hread, hread, scanMarked_ahead mark _ rest h]
  · have hnone : ∀ c rest, chars = '0' :: c :: rest → RadixMark.ofChar? c = none := by
      intro c rest hchars
      exact Decidable.byContradiction fun hc => hmark ⟨c, rest, hchars, hc⟩
    rw [hdecimal chars hnone] at h ⊢
    dsimp only at h
    have hsame : SameAhead chars ((scanDecimal chars).1.text ++ ahead) := by
      have hsame := h.append (scanDecimal chars).1.text
      rwa [scanDecimal_append] at hsame
    have hpart : ∀ c rest, (scanDecimal chars).1.text ++ ahead = '0' :: c :: rest →
        RadixMark.ofChar? c = none := by
      intro c rest htext
      rw [htext] at hsame
      cases hsame with
      | boundary _ _ hzero => cases hzero
      | step _ hsame =>
          cases hsame with
          | boundary first _ hc => rcases isBoundary_cases hc with rfl | rfl | rfl <;> rfl
          | step _ hsame => exact hnone c _ rfl
    rw [Decimal.text_lexeme, hdecimal _ hpart, scanDecimal_ahead chars h]

end NumberLiteral

/-! ### Names, symbols and documentation -/

theorem docMark?_isSome_ahead {rest ahead : List Char} (h : SameAhead rest ahead) :
    (docMark? ahead).isSome = (docMark? rest).isSome := by
  cases h with
  | boundary _ _ hc => rcases isBoundary_cases hc with rfl | rfl | rfl <;> rfl
  | step c h =>
      by_cases hbang : c = '!'
      · subst hbang
        rfl
      · by_cases hslash : c = '/'
        · subst hslash
          simp only [docMark?, h.head?_eq]
          split <;> rfl
        · simp [docMark?, hbang, hslash]

namespace Lexeme

variable {ahead : List Char}

/-- The text of what is read first starts with the first character. -/
theorem exists_tail {c : Char} {text rest left : List Char} (hwhole : text ++ left = c :: rest)
    (hsome : text ≠ []) : ∃ tail, text = c :: tail := by
  obtain ⟨d, tail, rfl⟩ := List.exists_cons_of_ne_nil hsome
  exact ⟨tail, congrArg (· :: tail) (List.cons.inj hwhole).1⟩

theorem scanName_ahead (chars : List Char) (h : SameAhead (scanName chars).2 ahead) :
    scanName ((scanName chars).1.text ++ ahead) = ((scanName chars).1, ahead) := by
  simp only [scanName] at h
  simp only [scanName, plain, takeWhile_ahead chars h, dropWhile_ahead chars h]

/-- Documentation goes on to the end of its line. -/
theorem scanDoc?_ahead {rest : List Char} {scanned : Lexeme × List Char}
    (hdoc : scanDoc? rest = some scanned) (h : SameAhead scanned.2 ahead) :
    scanDoc? (scanned.1.text.drop 1 ++ ahead) = some (scanned.1, ahead) := by
  have hline : ahead.head?.any isInLine = false := by
    unfold scanDoc? at hdoc
    split at hdoc
    · obtain ⟨⟨mark, body⟩, -, rfl⟩ := Option.map_eq_some_iff.mp hdoc
      exact head?_behind_run body h
    · cases hdoc
  obtain ⟨c, later, rfl⟩ := h.exists_cons
  obtain rfl : c = '\n' := by simpa [isInLine] using hline
  rw [scanDoc?_line, scanDoc?_alone hdoc]
  rfl

theorem symbol?_ahead {c : Char} {rest : List Char} {scanned : Lexeme × List Char}
    (hsymbol : symbol? c rest = some scanned) (h : SameAhead scanned.2 ahead) :
    ∃ tail, scanned.1.text = c :: tail ∧ symbol? c (tail ++ ahead) = some (scanned.1, ahead) := by
  have hone : ∀ {d : Char} {rest rest' : List Char} {scanned : Lexeme × List Char},
      Operator.ofSpelling? (String.ofList [c, d]) = none → symbol? c (d :: rest) = some scanned →
        scanned.1.text = [c] ∧ symbol? c (d :: rest') = some (scanned.1, d :: rest') := by
    intro d rest rest' scanned hpair hsymbol
    rw [symbol?_cons, hpair] at hsymbol
    obtain ⟨single, hsingle, rfl⟩ := Option.map_eq_some_iff.mp hsymbol
    refine ⟨(symbol?_nil hsingle).1, ?_⟩
    rw [symbol?_cons, hpair, hsingle]
    rfl
  cases rest with
  | nil =>
      obtain ⟨-, hleft⟩ := symbol?_nil hsymbol
      rw [hleft] at h
      cases h
  | cons d rest =>
      cases hpair : Operator.ofSpelling? (String.ofList [c, d]) with
      | some op =>
          rw [symbol?_cons, hpair] at hsymbol
          cases hsymbol
          exact ⟨[d], rfl, by rw [List.singleton_append, symbol?_cons, hpair]⟩
      | none =>
          have hleft : scanned.2 = d :: rest := by
            rw [symbol?_cons, hpair] at hsymbol
            obtain ⟨single, -, rfl⟩ := Option.map_eq_some_iff.mp hsymbol
            rfl
          rw [hleft] at h
          obtain ⟨rest', rfl, -⟩ := h.cons_of_cons
          obtain ⟨htext, hread⟩ := hone hpair hsymbol
          exact ⟨[], htext, hread⟩

theorem scanSymbol_ahead {c : Char} {rest : List Char} (hknown : (scanSymbol c rest).1.kind ≠ .unknown)
    (h : SameAhead (scanSymbol c rest).2 ahead) :
    ∃ tail, (scanSymbol c rest).1.text = c :: tail ∧
      scanSymbol c (tail ++ ahead) = ((scanSymbol c rest).1, ahead) := by
  cases hsymbol : symbol? c rest with
  | none => simp [scanSymbol, hsymbol, faulty] at hknown
  | some scanned =>
      have hread : scanSymbol c rest = scanned := by simp only [scanSymbol, hsymbol]
      rw [hread] at h ⊢
      obtain ⟨tail, htext, hagain⟩ := symbol?_ahead hsymbol h
      exact ⟨tail, htext, by simp only [scanSymbol, hagain]⟩

/-- What cannot start a comment cannot start one if the text is the same through a boundary. -/
theorem scanDoc?_none {rest : List Char} (hdoc : scanDoc? rest = none) (h : SameAhead rest ahead) :
    scanDoc? ahead = none := by
  cases h with
  | boundary _ _ hc => rcases isBoundary_cases hc with rfl | rfl | rfl <;> rfl
  | step c h =>
      by_cases hslash : c = '/'
      · subst hslash
        simp only [scanDoc?, Option.map_eq_none_iff] at hdoc ⊢
        rw [← Option.not_isSome_iff_eq_none] at hdoc ⊢
        rwa [docMark?_isSome_ahead h]
      · simp [scanDoc?, hslash]

/-- **A lexeme looks ahead no farther than a boundary.** -/
theorem scan_ahead {c : Char} {rest : List Char} (hfaults : (scan c rest).1.faults = [])
    (h : SameAhead (scan c rest).2 ahead) :
    ∃ tail, (scan c rest).1.text = c :: tail ∧ scan c (tail ++ ahead) = ((scan c rest).1, ahead) := by
  have hknown : (scan c rest).1.kind ≠ .unknown := fun hkind => (accounted_scan c rest).2 hkind hfaults
  unfold scan at hfaults hknown h ⊢
  by_cases hquote : c = '"'
  · subst hquote
    simp only [if_true] at hfaults ⊢
    exact StringLiteral.scan_ahead hfaults ahead
  · by_cases hdigit : c.isDigit = true
    · simp only [if_neg hquote, if_pos hdigit] at h ⊢
      obtain ⟨tail, htext⟩ := exists_tail (NumberLiteral.scan_append (c :: rest))
        (NumberLiteral.scan_text_ne_nil hdigit rest)
      have hread := NumberLiteral.scan_ahead (c :: rest) h
      rw [htext, List.cons_append] at hread
      exact ⟨tail, htext, hread⟩
    · by_cases hname : isNameStart c = true
      · simp only [if_neg hquote, if_neg hdigit, if_pos hname] at h ⊢
        have hread := scanName_ahead (c :: rest) h
        have htext : (scanName (c :: rest)).1.text = c :: rest.takeWhile isNamePart :=
          List.takeWhile_cons_of_pos (isNamePart_of_isNameStart hname)
        rw [htext, List.cons_append] at hread
        exact ⟨_, htext, hread⟩
      · by_cases hslash : c = '/'
        · subst hslash
          simp only [if_neg hquote, if_neg hdigit, if_neg hname, if_true] at hknown h ⊢
          cases hdoc : scanDoc? rest with
          | some scanned =>
              rw [hdoc, Option.getD_some] at h
              have hread := scanDoc?_ahead hdoc h
              obtain ⟨tail, htext⟩ := exists_tail (scanDoc?_append hdoc) (scanDoc?_text_ne_nil hdoc)
              rw [htext, List.drop_one, List.tail_cons] at hread
              exact ⟨tail, htext, by rw [hread]; rfl⟩
          | none =>
              rw [hdoc, Option.getD_none] at hknown h
              obtain ⟨tail, htext, hread⟩ := scanSymbol_ahead hknown h
              have hsame : SameAhead rest (tail ++ ahead) := by
                have hwhole := scanSymbol_append '/' rest
                rw [htext, List.cons_append, List.cons.injEq] at hwhole
                exact hwhole.2 ▸ h.append tail
              refine ⟨tail, htext, ?_⟩
              rw [scanDoc?_none hdoc hsame, hread]
              rfl
        · simp only [if_neg hquote, if_neg hdigit, if_neg hname, if_neg hslash] at hknown h ⊢
          exact scanSymbol_ahead hknown h

/-- A `;` or a closing brace is read whatever follows. -/
theorem scan_mark {c : Char} {mark : Punctuation}
    (hmark : mark = .semi ∧ c = ';' ∨ mark = .rBrace ∧ c = '\x7d') (rest : List Char) :
    scan c rest = (plain (.punctuation mark) [c], rest) := by
  have hfirst : ∀ op : Operator, op.spelling.toList.head? ≠ some ';' ∧
      op.spelling.toList.head? ≠ some '\x7d' := by
    intro op
    cases op <;> decide
  have hnone : ∀ text, Operator.ofSpelling? (String.ofList (c :: text)) = none := by
    intro text
    rw [Option.eq_none_iff_forall_ne_some]
    intro op hop
    have hspelling := congrArg String.toList (Operator.spelling_eq_of_ofSpelling? hop)
    rw [String.toList_ofList] at hspelling
    obtain ⟨hsemi, hbrace⟩ := hfirst op
    rw [hspelling] at hsemi hbrace
    rcases hmark with ⟨-, rfl⟩ | ⟨-, rfl⟩
    · exact hsemi rfl
    · exact hbrace rfl
  rcases hmark with ⟨rfl, rfl⟩ | ⟨rfl, rfl⟩
  · show scanSymbol ';' rest = _
    simp only [scanSymbol, symbol?, List.singleton_append, hnone]
    rfl
  · show scanSymbol '\x7d' rest = _
    simp only [scanSymbol, symbol?, List.singleton_append, hnone]
    rfl

theorem scan_of_kind {c : Char} {rest : List Char} {mark : Punctuation}
    (hmark : mark = .semi ∨ mark = .rBrace) (hkind : (scan c rest).1.kind = .punctuation mark) :
    (c = ';' ∨ c = '\x7d') ∧ ∀ rest', scan c rest' = (plain (.punctuation mark) [c], rest') := by
  obtain ⟨tail, htext, -⟩ := scan_alone c rest
  have hspells := spells_scan c rest
  rw [Spells, hkind, htext] at hspells
  have hspelling : c :: tail = mark.spelling.toList := by
    rw [← show String.ofList (c :: tail) = mark.spelling from hspells, String.toList_ofList]
  rcases hmark with rfl | rfl
  · obtain rfl : c = ';' := (List.cons.inj hspelling).1
    exact ⟨.inl rfl, scan_mark (.inl ⟨rfl, rfl⟩)⟩
  · obtain rfl : c = '\x7d' := (List.cons.inj hspelling).1
    exact ⟨.inr rfl, scan_mark (.inr ⟨rfl, rfl⟩)⟩

end Lexeme

/-! ### Gaps -/

namespace Gap

/-- A gap that has ended is read in front of any text. -/
theorem Text.scanFrom_append {front : List Char} (hfront : Text .closed front) (offset : Nat)
    (rest : List Char) : ∃ next, Gap.scanFrom offset .between (front ++ rest) =
      (Gap.scanFrom next .between rest).push front := by
  generalize hending : Ending.closed = ending at hfront
  induction hfront generalizing offset with
  | nil => exact ⟨offset, rfl⟩
  | @blank ending c front hblank _ ih =>
      obtain ⟨next, hnext⟩ := ih (offset + c.utf8Size) hending
      exact ⟨next, by rw [List.cons_append, scanFrom_blank _ hblank, hnext, push_push]; rfl⟩
  | @line ending body front hline _ ih =>
      obtain ⟨later, hlater⟩ := scanFrom_line (offset + 2) (front ++ rest) hline.inLine
      obtain ⟨next, hnext⟩ := ih later hending
      have hdoc : ¬ (docMark? (body ++ '\n' :: (front ++ rest))).isSome = true := by
        rw [(docMark?_line _ hline.inLine).mpr hline.noDoc]
        simp
      refine ⟨next, ?_⟩
      rw [List.cons_append, List.cons_append, List.append_assoc, List.cons_append,
        scanFrom_comment _ hdoc, hlater, hnext, push_push, push_push]
      simp [push]
  | @block ending body front hnested _ ih =>
      obtain ⟨later, hlater⟩ := scanFrom_nested (offset + 2) offset 0 (front ++ rest) hnested rfl rfl
      obtain ⟨next, hnext⟩ := ih later hending
      refine ⟨next, ?_⟩
      rw [List.cons_append, List.cons_append, List.append_assoc, Gap.scanFrom, hlater, hnext, push_push,
        push_push]
      simp [push]
  | openLine | openBlock => cases hending

/-- Where no gap stands in front of a text, none stands if the text is the same through a boundary. -/
theorem scanFrom_ahead {c : Char} {rest ahead : List Char} (offset offset' : Nat)
    (hnone : (scanFrom offset .between (c :: rest)).text = []) (h : SameAhead rest ahead) :
    scanFrom offset' .between (c :: ahead) = ⟨[], c :: ahead, .between⟩ := by
  have hblank : ¬ isBlank c = true := by
    intro hblank
    rw [scanFrom_blank _ hblank] at hnone
    cases hnone
  by_cases hslash : c = '/'
  · subst hslash
    cases h with
    | boundary _ _ hd =>
        refine scanFrom_stop _ ?_ ?_ hblank
        · rintro more - hstar
          cases hstar
          cases hd
        · rintro more - hline
          cases hline
          cases hd
    | @step d rest ahead h =>
        by_cases hstar : d = '*'
        · subst hstar
          rw [scanFrom] at hnone
          cases hnone
        · by_cases hline : d = '/'
          · subst hline
            refine scanFrom_doc _ ?_
            by_cases hdoc : (docMark? rest).isSome = true
            · rw [docMark?_isSome_ahead h, hdoc]
            · rw [scanFrom_comment _ hdoc] at hnone
              cases hnone
          · refine scanFrom_stop _ ?_ ?_ hblank
            · exact fun _ _ hcons => hstar (List.cons.inj hcons).1
            · exact fun _ _ hcons => hline (List.cons.inj hcons).1
  · exact scanFrom_stop _ (fun _ hc => absurd hc hslash) (fun _ hc => absurd hc hslash) hblank

theorem scanFrom_mark {c : Char} (hc : c = ';' ∨ c = '\x7d') (offset : Nat) (rest : List Char) :
    scanFrom offset .between (c :: rest) = ⟨[], c :: rest, .between⟩ := by
  rcases hc with rfl | rfl
  · exact scanFrom_stop offset (fun _ h => by cases h) (fun _ h => by cases h) (by decide)
  · exact scanFrom_stop offset (fun _ h => by cases h) (fun _ h => by cases h) (by decide)

/-- A gap that something follows has ended, and no other gap follows it. -/
theorem scan_ended {chars rest : List Char} {c : Char} (hrest : (scan chars).rest = c :: rest) :
    Text .closed (scan chars).text ∧ (scan chars).mode = .between ∧
      ∃ offset, (scanFrom offset .between (c :: rest)).text = [] := by
  have hmode : (scan chars).mode = .between := by
    by_cases hmode : (scan chars).mode = .between
    · exact hmode
    · have hnone := (remainder_scanFrom 0 .between chars).2 hmode
      exact absurd (hrest.symm.trans hnone) (List.cons_ne_nil _ _)
  have htext : Text .closed (scan chars).text := by
    have htext := (remainder_scanFrom 0 .between chars).1.isText
    rwa [show (scanFrom 0 .between chars).mode = .between from hmode] at htext
  obtain ⟨offset, hoffset⟩ := htext.scanFrom_append 0 (c :: rest)
  have hagain := congrArg Gap.text hoffset
  rw [← hrest, scan_append, hrest, text_push] at hagain
  exact ⟨htext, hmode, offset, List.self_eq_append_right.mp hagain⟩

/-- Behind a gap that has ended the text can be exchanged for another one without a gap. -/
theorem scan_exchanged {front rest : List Char} (hfront : Text .closed front)
    (hrest : ∀ offset, scanFrom offset .between rest = ⟨[], rest, .between⟩) :
    scan (front ++ rest) = ⟨front, rest, .between⟩ := by
  obtain ⟨offset, hoffset⟩ := hfront.scanFrom_append 0 rest
  rw [scan, hoffset, hrest, push, List.append_nil]

end Gap

end BehaviorTree
