import BehaviorTree.Proofs.Lexical.Lookahead

/-!
# Cutting tokens out of a text

Some tokens of a text are cut out of it, from the start of the first to the end of the last. If what
stands in front of them ends in a `;`, in a closing brace or in a line of documentation, the tokens
of the new text are those that are left, with nothing reported.
-/

namespace BehaviorTree

/-- A token without its place in the file and in its line. -/
def Token.bare (token : Token) : Token := { token with range := .none, newlineBefore := false }

/-- No character behind a token of this kind can belong to it. -/
def TokenKind.IsDetached (kind : TokenKind) : Prop :=
  kind = .punctuation .semi ∨ kind = .punctuation .rBrace ∨ kind.isDoc = true

namespace Lexeme

/-- What the tokens of a lexeme have in common, wherever they stand. -/
def bare (lexeme : Lexeme) : Token := ⟨lexeme.kind, String.ofList lexeme.text, .none, false⟩

theorem bare_token (lexeme : Lexeme) (file : FileId) (offset : Nat) (newlineBefore : Bool) :
    (lexeme.token file offset newlineBefore).bare = lexeme.bare := rfl

theorem isDoc_scanNumber (chars : List Char) : (NumberLiteral.scan chars).1.kind.isDoc = false := by
  apply NumberLiteral.scan_cases (P := fun lexeme => lexeme.kind.isDoc = false)
  case int => exact fun _ _ => rfl
  case float => exact fun _ _ => rfl
  case fault => exact fun _ _ => rfl

theorem isDoc_scanName (chars : List Char) : (scanName chars).1.kind.isDoc = false := by
  simp only [scanName, plain, kindOfName]
  split <;> rfl

theorem isDoc_scanSymbol (c : Char) (rest : List Char) : (scanSymbol c rest).1.kind.isDoc = false := by
  unfold scanSymbol
  split
  · rename_i scanned hsymbol
    rcases symbol?_spelling hsymbol with ⟨op, hop⟩ | ⟨mark, hmark⟩
    · rw [hop]
      rfl
    · rw [hmark]
      rfl
  · rfl

/-- Documentation ends where its line does. -/
theorem head?_behind_doc {c : Char} {rest : List Char} (hdoc : (scan c rest).1.kind.isDoc = true) :
    (scan c rest).2.head?.any isInLine = false := by
  have hline : ∀ chars : List Char, (chars.dropWhile isInLine).head?.any isInLine = false := by
    intro chars
    have hnot := List.head?_dropWhile_not isInLine chars
    cases hhead : (chars.dropWhile isInLine).head? with
    | none => rfl
    | some c => simpa [hhead] using hnot
  unfold scan at hdoc ⊢
  split at hdoc
  · cases hdoc
  · split at hdoc
    · rw [isDoc_scanNumber] at hdoc
      cases hdoc
    · split at hdoc
      · rw [isDoc_scanName] at hdoc
        cases hdoc
      · split at hdoc
        · cases hscanned : scanDoc? rest with
          | none =>
              rw [hscanned, Option.getD_none, isDoc_scanSymbol] at hdoc
              cases hdoc
          | some scanned =>
              rw [if_neg ‹_›, if_neg ‹_›, if_neg ‹_›, if_pos ‹_›, Option.getD_some]
              unfold scanDoc? at hscanned
              split at hscanned
              · obtain ⟨⟨mark, body⟩, -, rfl⟩ := Option.map_eq_some_iff.mp hscanned
                exact hline body
              · cases hscanned
        · rw [isDoc_scanSymbol] at hdoc
          cases hdoc

end Lexeme

/-- A text is read as some lexemes, and another text remains of it. Each of them is read in front of
all that follows it. -/
inductive LexesTo : List Char → List Lexeme → List Char → Prop
  | here (chars : List Char) : LexesTo chars [] chars
  | next {chars rest last : List Char} {c : Char} {lexemes : List Lexeme} :
    (Gap.scan chars).rest = c :: rest → LexesTo (Lexeme.scan c rest).2 lexemes last →
    LexesTo chars ((Lexeme.scan c rest).1 :: lexemes) last

namespace LexesTo

variable {chars last ahead : List Char} {lexemes : List Lexeme}

/-- Behind a lexeme that is read the same in front of another text, other lexemes can follow. -/
theorem next_exchanged {rest tail : List Char} {c : Char} (hrest : (Gap.scan chars).rest = c :: rest)
    (hread : Lexeme.scan c (tail ++ ahead) = ((Lexeme.scan c rest).1, ahead))
    (hgap : ∀ offset, Gap.scanFrom offset .between (c :: (tail ++ ahead)) =
      ⟨[], c :: (tail ++ ahead), .between⟩) (h : LexesTo ahead lexemes last) :
    LexesTo ((Gap.scan chars).text ++ c :: (tail ++ ahead))
      ((Lexeme.scan c rest).1 :: lexemes) last := by
  have hscan := Gap.scan_exchanged (Gap.scan_ended hrest).1 hgap
  have hnext : LexesTo (Lexeme.scan c (tail ++ ahead)).2 lexemes last := by
    rw [hread]
    exact h
  have hfirst := LexesTo.next (congrArg Gap.rest hscan) hnext
  rwa [hread] at hfirst

theorem next_ahead {rest : List Char} {c : Char} (hrest : (Gap.scan chars).rest = c :: rest)
    (hfaults : (Lexeme.scan c rest).1.faults = []) (hsame : SameAhead (Lexeme.scan c rest).2 ahead)
    (h : LexesTo ahead lexemes last) :
    ∃ front, chars = front ++ (Lexeme.scan c rest).2 ∧ SameAhead chars (front ++ ahead) ∧
      LexesTo (front ++ ahead) ((Lexeme.scan c rest).1 :: lexemes) last := by
  obtain ⟨tail, htext, hread⟩ := Lexeme.scan_ahead hfaults hsame
  have hlexeme := Lexeme.scan_append c rest
  rw [htext, List.cons_append, List.cons.injEq] at hlexeme
  have hbehind : SameAhead rest (tail ++ ahead) := by
    have hbehind := hsame.append tail
    rwa [hlexeme.2] at hbehind
  obtain ⟨-, -, offset, hnone⟩ := Gap.scan_ended hrest
  have hwhole : chars = ((Gap.scan chars).text ++ c :: tail) ++ (Lexeme.scan c rest).2 := by
    rw [List.append_assoc, List.cons_append, hlexeme.2, ← hrest, Gap.scan_append]
  refine ⟨(Gap.scan chars).text ++ c :: tail, hwhole, ?_, ?_⟩
  · have hsame := hsame.append ((Gap.scan chars).text ++ c :: tail)
    rwa [← hwhole] at hsame
  · rw [List.append_assoc, List.cons_append]
    exact next_exchanged hrest hread (fun next => Gap.scanFrom_ahead offset next hnone hbehind) h

/-- Behind a `;` or a closing brace any other text can follow. -/
theorem next_mark {rest : List Char} {c : Char} (hrest : (Gap.scan chars).rest = c :: rest)
    (hkind : (Lexeme.scan c rest).1.kind = .punctuation .semi ∨
      (Lexeme.scan c rest).1.kind = .punctuation .rBrace) (ahead : List Char) :
    ∃ front, chars = front ++ (Lexeme.scan c rest).2 ∧ SameAhead chars (front ++ ahead) ∧
      LexesTo (front ++ ahead) [(Lexeme.scan c rest).1] ahead := by
  obtain ⟨mark, hmark, hkind⟩ : ∃ mark : Punctuation, (mark = .semi ∨ mark = .rBrace) ∧
      (Lexeme.scan c rest).1.kind = .punctuation mark := by
    rcases hkind with hkind | hkind
    · exact ⟨_, .inl rfl, hkind⟩
    · exact ⟨_, .inr rfl, hkind⟩
  obtain ⟨hc, hread⟩ := Lexeme.scan_of_kind hmark hkind
  have hboundary : isBoundary c = true := by rcases hc with rfl | rfl <;> rfl
  have hwhole : chars = ((Gap.scan chars).text ++ [c]) ++ (Lexeme.scan c rest).2 := by
    rw [hread rest, List.append_assoc, List.singleton_append, ← hrest, Gap.scan_append]
  refine ⟨(Gap.scan chars).text ++ [c], hwhole, ?_, ?_⟩
  · rw [List.append_assoc, List.singleton_append]
    have hsame := (SameAhead.boundary rest ahead hboundary).append (Gap.scan chars).text
    rwa [← hrest, Gap.scan_append] at hsame
  · rw [List.append_assoc, List.singleton_append]
    have hsame : Lexeme.scan c ([] ++ ahead) = ((Lexeme.scan c rest).1, ahead) := by
      rw [List.nil_append, hread ahead, hread rest]
    exact next_exchanged hrest hsame (fun offset => Gap.scanFrom_mark hc offset ahead) (.here ahead)

/-- **What follows some lexemes can be exchanged**, if it stays the same through a boundary or the
last of them is one. -/
theorem exchanged (h : LexesTo chars lexemes last) (hfaults : ∀ lexeme ∈ lexemes, lexeme.faults = [])
    (hlast : SameAhead last ahead ∨ ∀ lexeme ∈ lexemes.getLast?,
      lexeme.kind = .punctuation .semi ∨ lexeme.kind = .punctuation .rBrace) :
    ∃ front, chars = front ++ last ∧ LexesTo (front ++ ahead) lexemes ahead ∧
      (lexemes ≠ [] → SameAhead chars (front ++ ahead)) := by
  induction h with
  | here chars => exact ⟨[], rfl, .here ahead, fun hne => absurd rfl hne⟩
  | @next chars rest last c lexemes hrest hnext ih =>
      have hfirst : (Lexeme.scan c rest).1.faults = [] := hfaults _ List.mem_cons_self
      cases lexemes with
      | nil =>
          cases hnext with
          | here =>
              rcases hlast with hsame | hkind
              · obtain ⟨front, hfront, hchars, hreaches⟩ := next_ahead hrest hfirst hsame (.here ahead)
                exact ⟨front, hfront, hreaches, fun _ => hchars⟩
              · obtain ⟨front, hfront, hchars, hreaches⟩ := next_mark hrest (hkind _ rfl) ahead
                exact ⟨front, hfront, hreaches, fun _ => hchars⟩
      | cons second lexemes =>
          rw [List.getLast?_cons_cons] at hlast
          obtain ⟨inner, hinner, hreaches, hsame⟩ :=
            ih (fun lexeme hmem => hfaults lexeme (List.mem_cons_of_mem _ hmem)) hlast
          obtain ⟨front, hfront, hchars, hreaches⟩ :=
            next_ahead hrest hfirst (hsame (List.cons_ne_nil _ _)) hreaches
          refine ⟨front ++ inner, ?_, ?_, fun _ => ?_⟩
          · rw [hfront, hinner, List.append_assoc]
          · rwa [List.append_assoc]
          · rwa [List.append_assoc]

/-- What remains of a text behind its last lexeme. -/
theorem of_last (h : LexesTo chars lexemes last) : ∀ lexeme ∈ lexemes.getLast?, ∃ c rest,
    lexeme = (Lexeme.scan c rest).1 ∧ last = (Lexeme.scan c rest).2 := by
  induction h with
  | here => nofun
  | @next chars rest last c lexemes hrest hnext ih =>
      cases hnext with
      | here =>
          rintro _ ⟨⟩
          exact ⟨c, rest, rfl, rfl⟩
      | next => rwa [List.getLast?_cons_cons]

end LexesTo

/-! ### Streams -/

namespace Gap

/-- A gap that has ended belongs to the one behind it. -/
theorem scan_behind {gap : List Char} (hgap : Text .closed gap) (chars : List Char) :
    ∃ distance, scan (gap ++ chars) = ((scan chars).shift distance).push gap := by
  obtain ⟨distance, hdistance⟩ := hgap.scanFrom_append 0 chars
  have hshift := scanFrom_shift 0 distance .between chars
  rw [Nat.zero_add] at hshift
  exact ⟨distance, hdistance.trans (congrArg (push gap) hshift)⟩

/-- A gap that something follows has no fault. -/
theorem faults_of_rest {chars rest : List Char} {c : Char} (hrest : (scan chars).rest = c :: rest) :
    (scan chars).faults = [] := by
  rw [faults, (scan_ended hrest).2.1]

end Gap

namespace TokenStream

variable {file : FileId} {offset : Nat} {chars rest gap : List Char} {c : Char} {tokens : List Token}

/-- A text is read as some tokens, wherever it stands, and nothing is reported. -/
def ReadAs (chars : List Char) (tokens : List Token) : Prop :=
  ∀ file offset, (scanFrom file offset chars).diagnostics = [] ∧
    (scanFrom file offset chars).tokens.map Token.bare = tokens

theorem ReadAs.ended (hrest : (Gap.scan chars).rest = []) (hfaults : (Gap.scan chars).faults = []) :
    ReadAs chars [⟨.endOfFile, "", .none, false⟩] := by
  intro file offset
  rw [scanFrom_of_rest_nil file offset hrest, hfaults]
  exact ⟨rfl, rfl⟩

theorem ReadAs.next (hrest : (Gap.scan chars).rest = c :: rest)
    (hfaults : (Lexeme.scan c rest).1.faults = []) (h : ReadAs (Lexeme.scan c rest).2 tokens) :
    ReadAs chars ((Lexeme.scan c rest).1.bare :: tokens) := by
  intro file offset
  obtain ⟨hsilent, hlater⟩ := h file
    (offset + byteLength (Gap.scan chars).text + byteLength (Lexeme.scan c rest).1.text)
  rw [scanFrom_of_rest_cons file offset hrest, Gap.faults_of_rest hrest, hfaults]
  refine ⟨hsilent, ?_⟩
  rw [List.map_cons, Lexeme.bare_token, hlater]

/-- What is read silently at one place is read so at any. -/
theorem ReadAs.of_silent (hsilent : (scanFrom file offset chars).diagnostics = []) :
    ReadAs chars ((scanFrom file offset chars).tokens.map Token.bare) := by
  fun_induction scanFrom file offset chars with
  | case1 offset chars gap start gapReports hrest =>
      exact .ended hrest (List.map_eq_nil_iff.mp hsilent)
  | case2 offset chars gap start gapReports c rest hrest scanned stop later ih =>
      simp only [List.append_eq_nil_iff] at hsilent
      exact .next hrest (List.map_eq_nil_iff.mp hsilent.1.2) (ih hsilent.2)

/-- A gap in front of a text is not seen in its tokens. -/
theorem ReadAs.behind_gap (hgap : Gap.Text .closed gap) (h : ReadAs chars tokens) :
    ReadAs (gap ++ chars) tokens := by
  obtain ⟨distance, hscan⟩ := Gap.scan_behind hgap chars
  have hrest : (Gap.scan (gap ++ chars)).rest = (Gap.scan chars).rest := by
    rw [hscan]
    rfl
  obtain ⟨hsilent, rfl⟩ := h .detached 0
  cases hchars : (Gap.scan chars).rest with
  | nil =>
      rw [scanFrom_of_rest_nil _ _ hchars] at hsilent ⊢
      refine .ended (hrest.trans hchars) ?_
      have hfaults : (Gap.scan (gap ++ chars)).faults = ((Gap.scan chars).shift distance).faults := by
        rw [hscan]
        rfl
      rw [hfaults, Gap.faults_shift, List.map_eq_nil_iff.mp hsilent, List.map_nil]
  | cons c rest =>
      rw [scanFrom_of_rest_cons _ _ hchars] at hsilent ⊢
      simp only [List.append_eq_nil_iff] at hsilent
      exact .next (hrest.trans hchars) (List.map_eq_nil_iff.mp hsilent.1.2) (.of_silent hsilent.2)

end TokenStream

theorem LexesTo.readAs {chars last : List Char} {lexemes : List Lexeme} {tokens : List Token}
    (h : LexesTo chars lexemes last) (hfaults : ∀ lexeme ∈ lexemes, lexeme.faults = [])
    (hlast : TokenStream.ReadAs last tokens) :
    TokenStream.ReadAs chars (lexemes.map Lexeme.bare ++ tokens) := by
  induction h with
  | here => exact hlast
  | next hrest _ ih =>
      rw [List.forall_mem_cons] at hfaults
      exact .next hrest hfaults.1 (ih hfaults.2 hlast)

/-- Where tokens end that are read from an offset on. -/
def Token.stopOf (offset : Nat) : List Token → Nat
  | [] => offset
  | token :: rest => stopOf token.range.stop rest

theorem Token.stopOf_of_getLast? {offset : Nat} {tokens : List Token} {final : Token}
    (hfinal : tokens.getLast? = some final) : stopOf offset tokens = final.range.stop := by
  induction tokens generalizing offset with
  | nil => cases hfinal
  | cons token tokens ih =>
      cases tokens with
      | nil =>
          cases hfinal
          rfl
      | cons second tokens =>
          rw [List.getLast?_cons_cons] at hfinal
          show stopOf token.range.stop (second :: tokens) = final.range.stop
          exact ih hfinal

namespace TokenStream

variable {file : FileId} {offset : Nat} {chars : List Char} {front behind : List Token}

/-- The first tokens of a text are those of its first lexemes, and the others are read from where
these end. -/
theorem exists_lexesTo (hsilent : (scanFrom file offset chars).diagnostics = [])
    (htokens : (scanFrom file offset chars).tokens = front ++ behind) (hbehind : behind ≠ []) :
    ∃ lexemes text last, LexesTo chars lexemes last ∧ (∀ lexeme ∈ lexemes, lexeme.faults = []) ∧
      chars = text ++ last ∧ front.map Token.bare = lexemes.map Lexeme.bare ∧
      scanFrom file (offset + byteLength text) last = ⟨behind, []⟩ ∧
      Token.stopOf offset front = offset + byteLength text := by
  induction front generalizing offset chars with
  | nil =>
      refine ⟨[], [], chars, .here chars, by simp, rfl, rfl, ?_, rfl⟩
      rw [byteLength_nil, Nat.add_zero, ← hsilent, ← List.nil_append behind, ← htokens]
  | cons token front ih =>
      cases hrest : (Gap.scan chars).rest with
      | nil =>
          rw [scanFrom_of_rest_nil _ _ hrest, List.cons_append, List.cons.injEq] at htokens
          exact absurd (List.append_eq_nil_iff.mp htokens.2.symm).2 hbehind
      | cons c rest =>
          rw [scanFrom_of_rest_cons _ _ hrest] at hsilent htokens
          simp only [List.append_eq_nil_iff] at hsilent
          obtain ⟨hfirst, hlater⟩ := List.cons.inj htokens
          obtain ⟨lexemes, text, last, hreaches, hfaults, htext, hfront, hscan, hstop⟩ :=
            ih hsilent.2 hlater
          have hlength : offset + byteLength (Gap.scan chars).text +
              byteLength (Lexeme.scan c rest).1.text + byteLength text =
                offset + byteLength ((Gap.scan chars).text ++ (Lexeme.scan c rest).1.text ++ text) := by
            simp only [byteLength_append]
            omega
          rw [hlength] at hscan hstop
          refine ⟨_ :: lexemes, _, last, .next hrest hreaches, ?_, ?_, ?_, hscan, ?_⟩
          · exact List.forall_mem_cons.mpr ⟨List.map_eq_nil_iff.mp hsilent.1.2, hfaults⟩
          · rw [List.append_assoc, List.append_assoc, ← htext, Lexeme.scan_append, ← hrest,
              Gap.scan_append]
          · rw [List.map_cons, List.map_cons, hfront, ← hfirst]
            rfl
          · rw [Token.stopOf, ← hfirst]
            exact hstop

/-- The gap behind a detached lexeme is the same if another text follows the gap. -/
theorem sameAhead_of_isDetached {mid rest : List Char} {c : Char} {lexemes : List Lexeme}
    (hreaches : LexesTo chars lexemes mid) (hrest : (Gap.scan mid).rest = c :: rest)
    (hdetached : ∀ lexeme ∈ lexemes.getLast?, lexeme.kind.IsDetached) (last : List Char) :
    SameAhead mid ((Gap.scan mid).text ++ last) ∨ ∀ lexeme ∈ lexemes.getLast?,
      lexeme.kind = .punctuation .semi ∨ lexeme.kind = .punctuation .rBrace := by
  cases hlast : lexemes.getLast? with
  | none => exact .inr nofun
  | some lexeme =>
      rcases hdetached lexeme hlast with hsemi | hbrace | hdoc
      · exact .inr fun _ hmem => Option.some.inj hmem ▸ .inl hsemi
      · exact .inr fun _ hmem => Option.some.inj hmem ▸ .inr hbrace
      · -- documentation is followed by the line feed that ends its line
        obtain ⟨d, more, rfl, rfl⟩ := hreaches.of_last lexeme hlast
        have hhead := Lexeme.head?_behind_doc hdoc
        cases hbehind : (Lexeme.scan d more).2 with
        | nil =>
            rw [hbehind] at hrest
            cases hrest
        | cons e later =>
            rw [hbehind] at hhead
            obtain rfl : e = '\n' := by simpa [Lexeme.isInLine] using hhead
            have hgap : (Gap.scan ('\n' :: later)).text =
                '\n' :: (Gap.scanFrom (0 + '\n'.utf8Size) .between later).text := by
              rw [Gap.scan, Gap.scanFrom_blank 0 (by decide)]
              rfl
            rw [hgap]
            exact .inl (.boundary _ _ rfl)

/-- **Tokens can be cut out** behind a `;`, a closing brace or documentation. The text without what
lies from the start of the first to the end of the last is read silently, as the other tokens. -/
theorem readAs_cut {cut : List Token} {first final : Token}
    (hsilent : (scanFrom file 0 chars).diagnostics = [])
    (htokens : (scanFrom file 0 chars).tokens = front ++ (cut ++ behind))
    (hfront : ∀ mark ∈ front.getLast?, mark.kind.IsDetached) (hfirst : cut.head? = some first)
    (hfinal : cut.getLast? = some final) (hbehind : behind ≠ []) :
    ReadAs (takeBytes first.range.start chars ++ dropBytes final.range.stop chars)
      ((front ++ behind).map Token.bare) := by
  obtain ⟨lexemes, before, mid, hreaches, hfaults, rfl, hlexemes, hmid, -⟩ :=
    exists_lexesTo hsilent htokens (by simp [hbehind])
  rw [Nat.zero_add] at hmid
  have hcut : (scanFrom file (byteLength before) mid).tokens = cut ++ behind :=
    congrArg TokenStream.tokens hmid
  obtain ⟨-, taken, last, -, -, hsplit, -, hlast, hstop⟩ :=
    exists_lexesTo (congrArg diagnostics hmid) hcut hbehind
  rw [Token.stopOf_of_getLast? hfinal, ← byteLength_append] at hstop
  have hdrop : dropBytes final.range.stop (before ++ mid) = last := by
    rw [hstop, hsplit, ← List.append_assoc, dropBytes_of_append]
  cases hrest : (Gap.scan mid).rest with
  | nil =>
      rw [scanFrom_of_rest_nil _ _ hrest] at hmid
      cases cut with
      | nil => cases hfirst
      | cons token cut =>
          have hnone := (List.cons.inj (congrArg TokenStream.tokens hmid)).2
          exact absurd (List.append_eq_nil_iff.mp hnone.symm).2 hbehind
  | cons c rest =>
      have hstart : first.range.start = byteLength (before ++ (Gap.scan mid).text) := by
        rw [scanFrom_of_rest_cons _ _ hrest] at hmid
        cases cut with
        | nil => cases hfirst
        | cons token cut =>
            obtain rfl := Option.some.inj hfirst
            rw [← (List.cons.inj (congrArg TokenStream.tokens hmid)).1, byteLength_append]
            rfl
      have htake : takeBytes first.range.start (before ++ mid) = before ++ (Gap.scan mid).text := by
        have hwhole : before ++ mid = (before ++ (Gap.scan mid).text) ++ c :: rest := by
          rw [List.append_assoc, ← hrest, Gap.scan_append]
        rw [hstart, hwhole, takeBytes_of_append]
      have hdetached : ∀ lexeme ∈ lexemes.getLast?, lexeme.kind.IsDetached := by
        intro lexeme hmem
        have hlasts := congrArg List.getLast? hlexemes
        rw [List.getLast?_map, List.getLast?_map, hmem] at hlasts
        obtain ⟨mark, hmark, hbare⟩ := Option.map_eq_some_iff.mp hlasts
        rw [show lexeme.kind = mark.kind from (congrArg Token.kind hbare).symm]
        exact hfront mark hmark
      obtain ⟨same, hsame, hagain, -⟩ := hreaches.exchanged hfaults
        (sameAhead_of_isDetached hreaches hrest hdetached last)
      obtain rfl := List.append_cancel_right hsame
      have hread : ReadAs last (behind.map Token.bare) := by
        have hread := ReadAs.of_silent (congrArg diagnostics hlast)
        rwa [congrArg TokenStream.tokens hlast] at hread
      rw [htake, hdrop, List.append_assoc, List.map_append, hlexemes]
      exact hagain.readAs hfaults (hread.behind_gap (Gap.scan_ended hrest).1)

end TokenStream

end BehaviorTree
