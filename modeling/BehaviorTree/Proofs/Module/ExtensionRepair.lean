import BehaviorTree.Module.Loading
import BehaviorTree.Proofs.Lexical.Literals
import BehaviorTree.Proofs.Module.ImportRules

/-!
# The literal offered for a path without an extension

An import whose path has no extension is reported with a literal to write instead: the path with the
extension behind it, between quotes as it is. Read as source text this is the longer path only where
nothing in the path would be taken for the end of a literal or for an escape, and the longer path has
an extension unless a slash comes right in front of it.
-/

namespace BehaviorTree

/-! ## Texts between quotes -/

namespace EscapeItem

variable {item : EscapeItem} {rest body : List Char} {items : List EscapeItem}

/-- An escape takes more characters than it stands for. -/
theorem InFrontOf.length_value_lt (h : InFrontOf item rest) (hescape : item.isPlain = false) :
    item.value.length < item.text.length := by
  cases h with
  | plain => cases hescape
  | letter | endsEarly | unknown | missingBrace => simp [value, text]
  | unicode | unclosed | badBraces => simp [value, text, unicodeText]

theorem InFrontOf.exists_plain (h : InFrontOf item rest) (hplain : item.isPlain = true) :
    ∃ c, item = .plain c ∧ c ≠ '\\' := by
  cases h with
  | plain hslash => exact ⟨_, rfl, hslash⟩
  | _ => cases hplain

theorem Splits.length_value (h : Splits body items) :
    (items.flatMap value).length ≤ body.length ∧
      ('\\' ∈ body → (items.flatMap value).length < body.length) := by
  induction h with
  | nil => simp
  | @cons item rest items hfront hrest ih =>
      obtain ⟨hle, hlt⟩ := ih
      rw [List.flatMap_cons, List.length_append, List.length_append]
      cases hplain : item.isPlain with
      | false =>
          have hshorter := hfront.length_value_lt hplain
          exact ⟨by omega, fun _ => by omega⟩
      | true =>
          obtain ⟨c, rfl, hslash⟩ := hfront.exists_plain hplain
          refine ⟨Nat.add_le_add_left hle 1, fun hmem => Nat.add_lt_add_left (hlt ?_) 1⟩
          exact ((List.mem_cons.mp hmem).resolve_left (Ne.symm hslash))

theorem splits_of_no_slash (hslash : '\\' ∉ body) : Splits body (body.map .plain) := by
  induction body with
  | nil => exact .nil
  | cons c body ih =>
      simp only [List.mem_cons, not_or] at hslash
      exact .cons (.plain (Ne.symm hslash.1)) (ih hslash.2)

end EscapeItem

/-- Decoding leaves a body as it is when there is no backslash in it. -/
theorem unescape_value_eq_iff (body : List Char) :
    (unescape body).value = body ↔ '\\' ∉ body := by
  constructor
  · intro hsame hslash
    have hshorter := (EscapeItem.splits_split body).length_value.2 hslash
    rw [show (EscapeItem.split body).flatMap EscapeItem.value = body from hsame] at hshorter
    exact lt_irrefl _ hshorter
  · intro hslash
    simp [unescape, EscapeItem.splits_iff.mp (EscapeItem.splits_of_no_slash hslash),
      List.flatMap_map, EscapeItem.value]

theorem unescape_faults_of_no_slash {body : List Char} (hslash : '\\' ∉ body) :
    (unescape body).faults = [] := by
  simp [unescape, EscapeItem.splits_iff.mp (EscapeItem.splits_of_no_slash hslash),
    EscapeItem.faults_eq_nil_iff, EscapeItem.isMalformed]

namespace StringLiteral

variable {body : List Char}

/-- The text is a literal for itself when it stands between quotes. -/
structure IsVerbatim (body : List Char) : Prop where
  quote : '"' ∉ body
  slash : '\\' ∉ body
  line : '\n' ∉ body

theorem scanBody_of_isVerbatim (hverbatim : IsVerbatim body) :
    scanBody (body ++ ['"']) = ⟨body, .closed, ['"']⟩ := by
  obtain ⟨hquote, hslash, hline⟩ := hverbatim
  induction body with
  | nil => rfl
  | cons c body ih =>
      simp only [List.mem_cons, not_or] at hquote hslash hline
      rw [List.cons_append, scanBody, if_neg (Ne.symm hline.1), if_neg (Ne.symm hquote.1),
        ih hquote.2 hslash.2 hline.2]
      · rfl
      · exact fun h => absurd h (Ne.symm hslash.1)
      · exact fun _ _ h => absurd h (Ne.symm hslash.1)

theorem scan_of_isVerbatim (hverbatim : IsVerbatim body) :
    scan (body ++ ['"']) =
      (.plain (.string (String.ofList body)) ('"' :: (body ++ ['"'])), []) := by
  have hvalue := (unescape_value_eq_iff body).mpr hverbatim.slash
  have hfaults := unescape_faults_of_no_slash hverbatim.slash
  simp [scan, scanBody_of_isVerbatim hverbatim, Body.decoded, Body.closer, hvalue, hfaults,
    Lexeme.plain]

/-- Nothing but a verbatim text is what its quoted form stands for: the value of a literal is no
longer than its body, and shorter where the body has an escape. -/
theorem isVerbatim_of_scan
    (hkind : (scan (body ++ ['"'])).1.kind = .string (String.ofList body))
    (hfaults : (scan (body ++ ['"'])).1.faults = []) : IsVerbatim body := by
  have hreads := reads_pieces (body ++ ['"'])
  have hclosed : (scanBody (body ++ ['"'])).ending = .closed := by
    by_contra hopen
    simp [scan, hopen] at hfaults
  rw [hclosed] at hreads
  have hvalue : (unescape (scanBody (body ++ ['"'])).decoded).value = body := by
    simpa [scan, String.ofList_inj] using hkind
  rw [(decoded_eq _).1] at hvalue
  have hdecoded := (EscapeItem.splits_split
    ((pieces (body ++ ['"'])).flatMap Piece.text)).length_value.1
  rw [show (EscapeItem.split _).flatMap EscapeItem.value = body from hvalue] at hdecoded
  obtain ⟨rest, hrest⟩ : ∃ rest, rest = (scanBody (body ++ ['"'])).rest.drop
      (scanBody (body ++ ['"'])).closer.length := ⟨_, rfl⟩
  rw [← hrest] at hreads
  have hlength := congrArg List.length hreads.parts
  simp only [List.length_append, Ending.mark, List.length_singleton] at hlength
  obtain rfl := List.eq_nil_of_length_eq_zero (l := rest) (by omega)
  have hbody : body = (pieces (body ++ ['"'])).flatMap Piece.text :=
    List.append_cancel_right hreads.parts
  have hslash : '\\' ∉ body := by
    rw [← hbody] at hvalue
    exact (unescape_value_eq_iff body).mp hvalue
  have hplain : ∀ c ∈ body, .plain c ∈ pieces (body ++ ['"']) := by
    intro c hc
    rw [hbody] at hc
    obtain ⟨piece, hpiece, htext⟩ := List.mem_flatMap.mp hc
    cases piece with
    | plain d =>
        rw [List.mem_singleton.mp htext]
        exact hpiece
    | covered d =>
        refine absurd ?_ hslash
        rw [hbody]
        exact List.mem_flatMap.mpr ⟨_, hpiece, List.mem_cons_self⟩
  exact ⟨fun h => (hreads.plain _ (hplain _ h)).2.1 rfl, hslash,
    fun h => (hreads.plain _ (hplain _ h)).2.2 rfl⟩

end StringLiteral

/-- The text is one string literal with the value, and nothing is reported on it. -/
def IsLiteralOf (text value : String) : Prop :=
  ∀ file, ∃ literal ending, TokenStream.ofText file text = ⟨[literal, ending], []⟩ ∧
    literal.kind = .string value ∧ ending.kind = .endOfFile

theorem isLiteralOf_quoted_iff (value : String) :
    IsLiteralOf ("\"" ++ value ++ "\"") value ↔ StringLiteral.IsVerbatim value.toList := by
  have hgap : Gap.scan ('"' :: (value.toList ++ ['"'])) =
      ⟨[], '"' :: (value.toList ++ ['"']), .between⟩ := by
    simp [Gap.scan, Gap.scanFrom, show isBlank '"' = false by decide]
  have hread : ∀ file, TokenStream.ofText file ("\"" ++ value ++ "\"") =
      (let scanned := StringLiteral.scan (value.toList ++ ['"'])
      let later := TokenStream.scanFrom file (byteLength scanned.1.text) scanned.2
      ⟨scanned.1.token file 0 false :: later.tokens,
        TokenStream.reports scanned.1.faults file 0 ++ later.diagnostics⟩) := by
    intro file
    have htext : ("\"" ++ value ++ "\"").toList = '"' :: (value.toList ++ ['"']) := by simp
    rw [TokenStream.ofText, htext, TokenStream.scanFrom_of_rest_cons file 0 (by rw [hgap])]
    simp [hgap, Lexeme.scan, Gap.hasNewline, Gap.faults, TokenStream.reports]
  constructor
  · intro hliteral
    obtain ⟨literal, ending, hstream, hkind, -⟩ := hliteral .detached
    rw [hread, TokenStream.mk.injEq, List.append_eq_nil_iff] at hstream
    obtain ⟨htokens, hfaults, -⟩ := hstream
    refine StringLiteral.isVerbatim_of_scan ?_ (List.map_eq_nil_iff.mp hfaults)
    rw [String.ofList_toList, ← hkind, ← (List.cons.inj htokens).1]
    rfl
  · intro hverbatim file
    rw [hread, StringLiteral.scan_of_isVerbatim hverbatim]
    dsimp only
    have hend : (Gap.scan []).rest = [] := by rw [Gap.scan, Gap.scanFrom]
    rw [TokenStream.scanFrom_of_rest_nil file _ hend]
    exact ⟨_, _, rfl, by simp [Lexeme.token, Lexeme.plain], rfl⟩

/-! ## The longer path -/

namespace Path

theorem innerComponents_name {name : List Char} (hblank : isBlankSegment name = false)
    (hparent : name ≠ ['.', '.']) : innerComponents [name] = [.normal name] := by
  simp [innerComponents_cons_of_named hblank, Component.ofSegment, hparent]

/-- A name at the end of a path is its last component. -/
theorem getLast?_components_of_name {front name : List Char} (hslash : '/' ∉ name)
    (hblank : isBlankSegment name = false) (hparent : name ≠ ['.', '.'])
    (hfront : front = [] ∨ ∃ directory, front = directory ++ ['/']) :
    (Path.mk (String.ofList (front ++ name))).components.getLast? = some (.normal name) := by
  rcases hfront with rfl | ⟨directory, rfl⟩
  · have hrelative : (Path.mk (String.ofList name)).isAbsolute = false := by
      rw [isAbsolute, String.toList_ofList, beq_eq_false_iff_ne]
      exact fun hhead => hslash (List.mem_of_head? hhead)
    have hdot : name ≠ ['.'] := by
      rintro rfl
      cases hblank
    simp [components, hrelative, segments, splitSlashes_of_no_slash hslash, hdot,
      innerComponents_name hblank hparent]
  · have hcomponents : (Path.mk (String.ofList (directory ++ ['/'] ++ name))).components =
        (Path.mk (String.ofList (directory ++ ['/']))).components ++ innerComponents [name] := by
      refine components_of_segments_append [[]] (splitSlashes_ne_nil directory) rfl ?_ ?_ ?_
      · cases directory <;> simp [isAbsolute]
      · simpa [segments, splitSlashes] using splitSlashes_append directory []
      · simpa [segments, splitSlashes_of_no_slash hslash] using splitSlashes_append directory name
    rw [hcomponents, innerComponents_name hblank hparent, List.getLast?_append]
    rfl

/-- With the extension behind it a path has one, unless a slash comes right in front of it. -/
theorem lacksExtension_append_iff {raw : String} (hne : raw ≠ "") :
    LacksExtension ⟨raw ++ ".bt"⟩ ↔ raw.toList.getLast? = some '/' := by
  obtain ⟨front, name, hraw, hslash, hfront⟩ : ∃ front name, raw.toList = front ++ name ∧
      '/' ∉ name ∧ (front = [] ∨ ∃ directory, front = directory ++ ['/']) := by
    by_cases hmem : '/' ∈ raw.toList
    · obtain ⟨back, front, hreverse, hback⟩ :=
        List.eq_append_cons_of_mem (List.mem_reverse.mpr hmem)
      refine ⟨front.reverse ++ ['/'], back.reverse, ?_, by simpa using hback, .inr ⟨_, rfl⟩⟩
      simpa using congrArg List.reverse hreverse
    · exact ⟨[], raw.toList, rfl, hmem, .inl rfl⟩
  have htext : raw ++ ".bt" = String.ofList (front ++ (name ++ ['.', 'b', 't'])) := by
    rw [← String.toList_inj]
    simp [hraw]
  have hend : (name ++ ['.', 'b', 't']).getLast? = some 't' := by simp
  have hlast := getLast?_components_of_name (by simpa using hslash : '/' ∉ name ++ ['.', 'b', 't'])
    (by cases name <;> simp [isBlankSegment])
    (by
      intro hparent
      rw [hparent] at hend
      cases hend) hfront
  rw [LacksExtension, htext, hlast, hraw]
  cases name with
  | nil =>
      rcases hfront with rfl | ⟨directory, rfl⟩
      · exact absurd (String.toList_eq_nil_iff.mp hraw) hne
      · simp [Component.text]
  | cons c rest =>
      have hother : (c :: rest).getLast? ≠ some '/' := fun h => hslash (List.mem_of_getLast? h)
      simp [Component.text, hother]

end Path

/-! ## The offer -/

/-- **The offered literal mends a verbatim path.** An import whose path has no extension is reported
with one edit, in the place of the path. What is offered is one literal for the longer path, with
nothing reported on it, exactly if the path has no quote, backslash or line break; and the longer
path has an extension exactly if the path does not end in a slash. -/
theorem follow_offersExtension (context : ImportContext) (load : Loading.Loader) (directory : Path)
    (request : ImportRequest) (state : Loading)
    (hbroken : resolveImportPath context.packages directory request.path =
      .error (.missingExtension request.path)) :
    ∃ report fix, Loading.follow context load directory request state =
        (none, state.report report) ∧
      report.fixIts = [fix] ∧ fix.range = request.pathRange ∧
      (IsLiteralOf fix.replacement (request.path ++ ".bt") ↔
        StringLiteral.IsVerbatim request.path.toList) ∧
      (resolveImportPath context.packages directory (request.path ++ ".bt") =
          .error (.missingExtension (request.path ++ ".bt")) ↔
        request.path.toList.getLast? = some '/') := by
  refine ⟨ImportReport.brokenRule request (.missingExtension request.path),
    ⟨request.pathRange, "\"" ++ request.path ++ "." ++ sourceExtension ++ "\""⟩, ?_, rfl, rfl, ?_, ?_⟩
  · rw [Loading.follow, hbroken]
  · have hquoted : "\"" ++ request.path ++ "." ++ sourceExtension ++ "\"" =
        "\"" ++ (request.path ++ ".bt") ++ "\"" := by
      simp [← String.toList_inj, sourceExtension]
    have hverbatim : StringLiteral.IsVerbatim (request.path ++ ".bt").toList ↔
        StringLiteral.IsVerbatim request.path.toList := by
      constructor <;> rintro ⟨hquote, hslash, hline⟩ <;> constructor <;> simp_all
    rw [hquoted, isLiteralOf_quoted_iff, hverbatim]
  · obtain ⟨hne, hslash, -⟩ := resolveImportPath_eq_missingExtension_iff.mp hbroken
    have hhead : (request.path ++ ".bt").toList.head? ≠ some '/' := by
      cases htext : request.path.toList with
      | nil => exact absurd (String.toList_eq_nil_iff.mp htext) hne
      | cons c rest => simpa [htext] using hslash
    rw [resolveImportPath_eq_missingExtension_iff, Path.lacksExtension_append_iff hne]
    exact ⟨fun h => h.2.2, fun h => ⟨by simp, hhead, h⟩⟩

theorem follow_offersExtension_of_dep :
    let context : ImportContext := ⟨⟨fun _ => .error .notFound, []⟩, .empty⟩
    let request : ImportRequest := ⟨"./dep", ⟨.registered 0, 7, 14⟩, ⟨0, ⟨.registered 0, 0, 15⟩⟩⟩
    resolveImportPath context.packages ⟨"/work"⟩ request.path =
        .error (.missingExtension request.path) ∧
      ∃ report fix, Loading.follow context (Loading.load context) ⟨"/work"⟩ request
          (.initial ⟨"/work"⟩) = (none, (Loading.initial ⟨"/work"⟩).report report) ∧
        report.fixIts = [fix] ∧ IsLiteralOf fix.replacement "./dep.bt" ∧
        resolveImportPath context.packages ⟨"/work"⟩ "./dep.bt" ≠
          .error (.missingExtension "./dep.bt") := by
  intro context request
  have hbroken : resolveImportPath context.packages ⟨"/work"⟩ request.path =
      .error (.missingExtension request.path) := by decide +kernel
  obtain ⟨report, fix, hfollow, hfix, -, hliteral, hpath⟩ := follow_offersExtension context
    (Loading.load context) ⟨"/work"⟩ request (.initial ⟨"/work"⟩) hbroken
  refine ⟨hbroken, report, fix, hfollow, hfix, hliteral.mpr ⟨?_, ?_, ?_⟩, fun h => ?_⟩
  · decide
  · decide
  · decide
  · exact absurd (hpath.mp h) (by decide)

/-- A quote in the path ends the offered literal, and what is offered for a path that ends in a
slash is the name of a hidden file, which has no extension either. -/
theorem offered_literal_misread :
    let read (text : String) := (Parsed.ofText (.registered 0) text .empty).program.importRequests
    (∃ request ∈ read "import \"./a\\\"b\";", ∃ fix, request.path = "./a\"b" ∧
      resolveImportPath .empty ⟨"/work"⟩ request.path = .error (.missingExtension request.path) ∧
      (ImportReport.brokenRule request (.missingExtension request.path)).fixIts = [fix] ∧
      (TokenStream.ofText (.registered 0) fix.replacement).diagnostics ≠ [] ∧
      ¬IsLiteralOf fix.replacement (request.path ++ ".bt")) ∧
    ∃ request ∈ read "import \"./\";",
      resolveImportPath .empty ⟨"/work"⟩ request.path = .error (.missingExtension request.path) ∧
      resolveImportPath .empty ⟨"/work"⟩ (request.path ++ ".bt") =
        .error (.missingExtension (request.path ++ ".bt")) := by
  have hquote : (TokenStream.ofText (.registered 0) "\"./a\"b.bt\"").diagnostics ≠ [] := by
    decide +kernel
  refine ⟨⟨⟨"./a\"b", ⟨.registered 0, 7, 15⟩, ⟨0, ⟨.registered 0, 0, 16⟩⟩⟩, ?_,
    ⟨⟨.registered 0, 7, 15⟩, "\"./a\"b.bt\""⟩, rfl, ?_, rfl, hquote, ?_⟩, ?_⟩
  · decide +kernel
  · decide +kernel
  · intro hliteral
    obtain ⟨literal, ending, hstream, -⟩ := hliteral (.registered 0)
    exact hquote (congrArg TokenStream.diagnostics hstream)
  · refine ⟨⟨"./", ⟨.registered 0, 7, 11⟩, ⟨0, ⟨.registered 0, 0, 12⟩⟩⟩, ?_, ?_, ?_⟩
    · decide +kernel
    · decide +kernel
    · decide +kernel

end BehaviorTree
