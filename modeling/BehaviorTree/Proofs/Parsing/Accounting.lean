import Mathlib.Data.List.Nodup
import BehaviorTree.Proofs.Lexical.Stream
import BehaviorTree.Proofs.Parsing.ProgramsAccounted

/-!
# Programs of texts

What holds of the program of any text, valid or not: its nodes have numbers of their own, allocated
while it was parsed, its names are tokens of the text, each taken once, and whatever was reported
has a code of the lexer or of the parser.
-/

namespace BehaviorTree

/-- The codes for characters and literals. -/
def LexicalFault.codes : List String :=
  [Code.unexpectedCharacter, Code.unterminatedString, Code.invalidEscape, Code.invalidNumber,
    Code.unterminatedComment]

theorem LexicalFault.hasCode_report (fault : LexicalFault) (range : SourceRange) :
    (fault.report range).HasCodeIn codes := by
  refine ⟨fault.code, ?_, fault.code_report range⟩
  cases fault <;> simp [LexicalFault.code, codes]

namespace TokenStream

theorem hasCode_reports (faults : List LocatedFault) (file : FileId) (base : Nat) :
    ∀ diagnostic ∈ reports faults file base, diagnostic.HasCodeIn LexicalFault.codes := by
  intro diagnostic hmem
  obtain ⟨located, -, rfl⟩ := List.mem_map.mp hmem
  exact LexicalFault.hasCode_report _ _

theorem hasCode_scanFrom (file : FileId) (offset : Nat) (chars : List Char) :
    ∀ diagnostic ∈ (scanFrom file offset chars).diagnostics,
      diagnostic.HasCodeIn LexicalFault.codes := by
  fun_induction scanFrom file offset chars with
  | case1 offset chars gap start gapReports hrest => exact hasCode_reports _ _ _
  | case2 offset chars gap start gapReports c rest hrest scanned stop later ih =>
      intro diagnostic hmem
      rcases List.mem_append.mp hmem with hfirst | hlater
      · rcases List.mem_append.mp hfirst with hgap | hlexeme
        · exact hasCode_reports _ _ _ diagnostic hgap
        · exact hasCode_reports _ _ _ diagnostic hlexeme
      · exact ih diagnostic hlater

theorem nodup_asName (file : FileId) (text : String) :
    ((ofText file text).tokens.map Token.asName).Nodup := by
  have hstarts := (placed_scanFrom file 0 text.toList).nodup_starts
  have hcompose : (fun token : Token => token.range.start) =
      (fun name : Name => name.range.start) ∘ Token.asName := rfl
  rw [hcompose, ← List.map_map] at hstarts
  exact List.Nodup.of_map _ hstarts

/-- The name of a token is told by its place. -/
theorem asName_eq_of_range_eq {file : FileId} {text : String} {token other : Token}
    (htoken : token ∈ (ofText file text).tokens) (hother : other ∈ (ofText file text).tokens)
    (hrange : token.range = other.range) : token = other := by
  have hstarts := (placed_scanFrom file 0 text.toList).nodup_starts
  apply List.inj_on_of_nodup_map hstarts htoken hother
  rw [hrange]

end TokenStream

namespace Parsed

/-- The parser starts with all the tokens of the text in front of it. -/
theorem holds_initial {file : FileId} {tokens : List Token} {arena : Arena} {offset : Nat}
    (hplaced : Placed file offset tokens) (stamp : Stamp) :
    (⟨file, tokens, stamp⟩ : Ledger).Holds (initial file tokens arena) := by
  obtain ⟨before, last, rfl, hlast, -⟩ := hplaced.ended
  have hrest : (initial file (before ++ [last]) arena).rest = before ++ [last] := by
    simp [initial, hlast]
  have hfinal : (initial file (before ++ [last]) arena).final = last := by
    simp [initial, hlast]
  constructor
  case file => rfl
  case rest => exact hrest
  case final =>
    rw [hfinal]
    exact hlast
  case reports =>
    intro diagnostic hmem
    cases hmem

variable (file : FileId) (text : String) (arena : Arena)

/-- The ledger of the program of a text. -/
def ledger (stamp : Stamp) : Ledger := ⟨file, (TokenStream.ofText file text).tokens, stamp⟩

/-- The state of the parser behind the program of a text. -/
def finalState : ParserState :=
  (Parser.program (initial file (TokenStream.ofText file text).tokens arena)).2

theorem accounts_ofText (stamp : Stamp) :
    (ledger file text stamp).Holds (finalState file text arena) ∧
      (ofText file text arena).program.stamps.count stamp +
          (ledger file text stamp).issued (initial file (TokenStream.ofText file text).tokens arena) ≤
        (ledger file text stamp).issued (finalState file text arena) ∧
      (ofText file text arena).program.file = file := by
  have hholds : (ledger file text stamp).Holds
      (initial file (TokenStream.ofText file text).tokens arena) :=
    holds_initial (TokenStream.placed_scanFrom file 0 text.toList) stamp
  obtain ⟨hfinal, n, hn, hcount, hfile⟩ := Parser.Accounts.program hholds
  refine ⟨hfinal, ?_, hfile⟩
  have hstamps : (ofText file text arena).program.stamps.count stamp ≤ n := hcount
  unfold finalState
  omega

theorem ofText_file : (ofText file text arena).program.file = file :=
  (accounts_ofText file text arena (.node .decl 0)).2.2

/-- **Nothing occurs twice in the program of a text.** -/
theorem ofText_stamps_nodup : (ofText file text arena).program.stamps.Nodup := by
  rw [List.nodup_iff_count_le_one]
  intro stamp
  have hcount := (accounts_ofText file text arena stamp).2.1
  have hissued : (ledger file text stamp).issued (finalState file text arena) ≤ 1 := by
    unfold Ledger.issued ledger
    cases stamp with
    | node kind id =>
        dsimp only
        split <;> omega
    | name name =>
        have hsublist : ((TokenStream.ofText file text).tokens.take
            (finalState file text arena).position).map Token.asName |>.Sublist
              ((TokenStream.ofText file text).tokens.map Token.asName) :=
          (List.take_sublist _ _).map _
        have hnodup := List.nodup_iff_count_le_one.mp (TokenStream.nodup_asName file text) name
        exact Nat.le_trans (hsublist.count_le name) hnodup
  omega

/-- Every name in the program is a token of the text. -/
theorem ofText_name_mem {name : Name} (hname : .name name ∈ (ofText file text arena).program.stamps) :
    ∃ token ∈ (TokenStream.ofText file text).tokens, token.asName = name := by
  have hcount := (accounts_ofText file text arena (.name name)).2.1
  have hpositive := List.count_pos_iff.mpr hname
  have hissued : 0 < (((TokenStream.ofText file text).tokens.take
      (finalState file text arena).position).map Token.asName).count name := by
    show 0 < (ledger file text (.name name)).issued (finalState file text arena)
    omega
  obtain ⟨token, htoken, heq⟩ := List.mem_map.mp (List.count_pos_iff.mp hissued)
  exact ⟨token, List.mem_of_mem_take htoken, heq⟩

theorem ofText_name_file {name : Name}
    (hname : .name name ∈ (ofText file text arena).program.stamps) : name.range.file = file := by
  obtain ⟨token, htoken, rfl⟩ := ofText_name_mem file text arena hname
  exact (TokenStream.placed_scanFrom file 0 text.toList).file_eq token htoken

/-- The names of a program are told by their places. -/
theorem ofText_name_eq {name other : Name}
    (hname : .name name ∈ (ofText file text arena).program.stamps)
    (hother : .name other ∈ (ofText file text arena).program.stamps)
    (hrange : name.range = other.range) : name = other := by
  obtain ⟨token, htoken, rfl⟩ := ofText_name_mem file text arena hname
  obtain ⟨token', htoken', rfl⟩ := ofText_name_mem file text arena hother
  rw [TokenStream.asName_eq_of_range_eq htoken htoken' hrange]

/-- Whatever is reported on a text has a code of the lexer or of the parser. -/
theorem ofText_codes : ∀ diagnostic ∈ (ofText file text arena).diagnostics,
    diagnostic.HasCodeIn (LexicalFault.codes ++ SyntaxReport.codes) := by
  intro diagnostic hmem
  rcases List.mem_append.mp hmem with hlexical | hsyntactic
  · obtain ⟨code, hcode, heq⟩ := TokenStream.hasCode_scanFrom file 0 text.toList diagnostic hlexical
    exact ⟨code, List.mem_append_left _ hcode, heq⟩
  · have hholds := (accounts_ofText file text arena (.node .decl 0)).1
    obtain ⟨code, hcode, heq⟩ := hholds.reports diagnostic hsyntactic
    exact ⟨code, List.mem_append_right _ hcode, heq⟩

end Parsed

end BehaviorTree
