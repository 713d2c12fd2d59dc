import Mathlib.Data.List.Perm.Basic
import BehaviorTree.Proofs.Lexical.Tiling
import BehaviorTree.Proofs.Parsing.ProgramsAccounted
import BehaviorTree.Proofs.Parsing.ProgramsLaid
import BehaviorTree.Proofs.Parsing.ProgramsPlanted
import BehaviorTree.Proofs.Parsing.Terminators

/-!
# Nested ranges and forests

In a program without errors the range of every piece is not empty and lies inside that of the piece
it is a part of, and the parts of a piece stand one behind the other in the source.
-/

namespace BehaviorTree

open ParserState

/-! ### Texts without errors -/

theorem LexicalFault.isError_report (fault : LexicalFault) (range : SourceRange) :
    (fault.report range).isError = true := by
  cases fault with
  | escape fault =>
      unfold report
      dsimp only
      split <;> rfl
  | _ => rfl

namespace TokenStream

theorem isError_of_mem_reports {faults : List LocatedFault} {file : FileId} {base : Nat}
    {diagnostic : Diagnostic} (hmem : diagnostic ∈ reports faults file base) :
    diagnostic.isError = true := by
  obtain ⟨located, -, rfl⟩ := List.mem_map.mp hmem
  exact located.fault.isError_report _

/-- Nothing that is reported on characters is a warning. -/
theorem isError_of_mem_scanFrom {file : FileId} {offset : Nat} {chars : List Char}
    {diagnostic : Diagnostic} (hmem : diagnostic ∈ (scanFrom file offset chars).diagnostics) :
    diagnostic.isError = true := by
  fun_induction scanFrom file offset chars with
  | case1 offset chars gap start gapReports hrest => exact isError_of_mem_reports hmem
  | case2 offset chars gap start gapReports c rest hrest scanned stop later ih =>
      rcases List.mem_append.mp hmem with hfirst | hlater
      · rcases List.mem_append.mp hfirst with hgap | hlexeme
        · exact isError_of_mem_reports hgap
        · exact isError_of_mem_reports hlexeme
      · exact ih hlater

theorem known_of_valid {file : FileId} {text : String}
    (hvalid : Diagnostics.hasErrors (ofText file text).diagnostics = false) :
    ∀ token ∈ (ofText file text).tokens, token.kind ≠ .unknown := by
  refine known_scanFrom file 0 text.toList (List.eq_nil_iff_forall_not_mem.mpr fun diagnostic hmem => ?_)
  have herror := isError_of_mem_scanFrom hmem
  exact absurd herror (List.any_eq_false.mp hvalid diagnostic hmem)

end TokenStream

namespace Parsed

variable {file : FileId} {text : String} {arena : Arena} {tokens before : List Token} {last : Token}

theorem guarded_initial : (initial file tokens arena).Guarded := ⟨initial_ended tokens, fun _ => rfl⟩

/-- A stretch of a stream that ends in front of the end of the file is all of it but that. -/
theorem stretch_atEnd {ts : List Token} {made : List Stamp} {s : ParserState}
    (htokens : tokens = before ++ [last]) (hlast : last.isEndOfFile = true)
    (hbefore : ∀ token ∈ before, token.isEndOfFile = false)
    (hstretch : (initial file tokens arena).Stretch ts made s) (hend : s.current.isEndOfFile = true) :
    ts = before ∧ s.current = last := by
  have hrest : (initial file tokens arena).rest = before ++ [last] := by
    subst htokens
    simp [initial, hlast]
  have hsplit : before ++ [last] = ts ++ s.rest := hrest.symm.trans hstretch.rest
  obtain ⟨more, rfl, hmore⟩ | ⟨more, rfl, hmore⟩ := List.append_eq_append_iff.mp hsplit
  · cases more with
    | nil =>
        have hrest' : s.rest = [last] := by simpa using hmore.symm
        exact ⟨List.append_nil _, by simp [current, tokenAt, hrest']⟩
    | cons token more =>
        obtain ⟨rfl, -⟩ := List.cons_eq_cons.mp hmore
        have hinside := hstretch.inside last (by simp)
        rw [hlast] at hinside
        cases hinside
  · cases more with
    | nil =>
        have hrest' : s.rest = [last] := by simpa using hmore
        exact ⟨(List.append_nil _).symm, by simp [current, tokenAt, hrest']⟩
    | cons token more =>
        have hcurrent : s.current = token := by simp [current, tokenAt, hmore]
        have hinside := hbefore token (by simp)
        rw [hcurrent, hinside] at hend
        cases hend

/-- Without an error the declarations lie along the tokens of a stream, and the program ends where
the stream does. -/
theorem laidAlong_of_valid (arena : Arena) (htokens : tokens = before ++ [last]) (hlast : last.isEndOfFile = true)
    (hbefore : ∀ token ∈ before, token.isEndOfFile = false)
    (hvalid : Diagnostics.hasErrors (ofTokens file tokens arena).diagnostics = false) :
    LaidAlong file ((ofTokens file tokens arena).program.decls.map .decl) before ∧
      (ofTokens file tokens arena).program.range = ⟨file, 0, last.range.stop⟩ := by
  obtain ⟨-, hdelivers⟩ := Parser.Delivers.program (s := initial file tokens arena) guarded_initial
  obtain ⟨-, ts, hstretch, hlaid⟩ := hdelivers hvalid
  have hend := Parser.outline_atEnd (initial file tokens arena) (initial_ended tokens)
  obtain ⟨rfl, hcurrent⟩ := stretch_atEnd htokens hlast hbefore hstretch hend
  refine ⟨hlaid, ?_⟩
  show (⟨(Parser.program (initial file tokens arena)).2.file, 0,
    (Parser.program (initial file tokens arena)).2.current.range.stop⟩ : SourceRange) = _
  rw [hcurrent, hstretch.file]
  rfl

/-- **Ranges nest.** Where no error is reported on a text of a registered file, the range of the
program is that of the whole text, the declarations stand one behind the other, and whatever the
program contains has a range that is not empty, lies inside the text, and covers the ranges of its
parts, which stand one behind the other. -/
theorem ofText_nests (hlocated : file.isDetached = false)
    (hvalid : Diagnostics.hasErrors (ofText file text arena).diagnostics = false) :
    let program := (ofText file text arena).program
    program.range = ⟨file, 0, byteLength text.toList⟩ ∧
      (program.decls.Pairwise fun decl later => decl.range.stop ≤ later.range.start) ∧
      (∀ node, program.Reaches node → program.Contains node.piece) ∧
      ∀ piece, program.Contains piece → piece.Nests file ∧ piece.range.stop ≤ program.range.stop := by
  intro program
  obtain ⟨hlexical, hsyntactic⟩ : Diagnostics.hasErrors (TokenStream.ofText file text).diagnostics = false ∧
      Diagnostics.hasErrors (ofTokens file (TokenStream.ofText file text).tokens arena).diagnostics =
        false := by
    rw [← Bool.or_eq_false_iff, Diagnostics.hasErrors, Diagnostics.hasErrors, ← List.any_append]
    exact hvalid
  obtain ⟨ending, htiles, -⟩ :=
    TokenStream.tiles_scanFrom ⟨⟨""⟩, text.toList⟩ file 0 text.toList [] rfl rfl
  obtain ⟨before, last, htokens, hlast, hrange, hbefore⟩ := htiles.ended
  have hregular : Regular file before := by
    have hmem : ∀ token ∈ before, token ∈ (TokenStream.ofText file text).tokens := fun token h =>
      htokens ▸ List.mem_append_left _ h
    refine ⟨hlocated, fun token h => (htiles.bounds token (hmem token h)).1,
      fun token h => (htiles.bounds token (hmem token h)).2.2 (hbefore token h),
      fun token h => TokenStream.known_of_valid hlexical token (hmem token h), ?_⟩
    have hpairwise := htiles.pairwise
    rw [htokens] at hpairwise
    exact (List.pairwise_append.mp hpairwise).1.imp fun h => h.2
  obtain ⟨hlaid, hprogram⟩ := laidAlong_of_valid arena htokens
    (by simp [Token.isEndOfFile, hlast]) (fun token h => by simp [Token.isEndOfFile, hbefore token h])
    hsyntactic
  have hwhole : program.range = ⟨file, 0, byteLength text.toList⟩ := by
    rw [hrange] at hprogram
    exact hprogram
  refine ⟨hwhole, List.pairwise_map.mp (hlaid.ordered hregular), fun _ => Program.Reaches.contains,
    fun piece hpiece => ?_⟩
  obtain ⟨ts, hpieceLaid, hsub⟩ := hpiece.exists_laid hlaid
  refine ⟨hpieceLaid.nests (hregular.sublist hsub), ?_⟩
  obtain ⟨first, final, -, hfinal, hspans⟩ := hpieceLaid.spans (hregular.sublist hsub)
  rw [hspans, hwhole]
  exact (htiles.bounds final (htokens ▸ List.mem_append_left _
    (hsub.subset (List.mem_of_mem_getLast? hfinal)))).2.1

/-- The ranges of an attribute, a declaration with parameters and a tree with preconditions. -/
theorem ofText_nests_of_tree :
    let text := "#[behavior(All)] extern control Both(in n: [int32; 2] = [1, 2]);\n" ++
      "tree Main() \x7b @guard((1 + 2) < 3) Go(a: -x[0]) \x7b y = 1; \x7d \x7d"
    let parsed := ofText (.registered 0) text .empty
    let program := parsed.program
    Diagnostics.hasErrors parsed.diagnostics = false ∧
    program.range = ⟨.registered 0, 0, byteLength text.toList⟩ ∧
      (program.decls.Pairwise fun decl later => decl.range.stop ≤ later.range.start) ∧
      (∀ node, program.Reaches node → program.Contains node.piece) ∧
      ∀ piece, program.Contains piece →
        piece.Nests (.registered 0) ∧ piece.range.stop ≤ program.range.stop := by
  intro text
  have hvalid : Diagnostics.hasErrors (ofText (.registered 0) text .empty).diagnostics = false := by
    decide +kernel
  exact ⟨hvalid, ofText_nests rfl hvalid⟩

end Parsed

end BehaviorTree

/-!
## Programs are forests

A program that was parsed, from whatever tokens, is a forest of nodes of its arena: the parser plants
whole trees, and it gives every number once. If no error was reported, nothing was given up, so the
forest has as many nodes as the arena. Since all of them are different, they are all of the arena.
-/

namespace BehaviorTree

/-- The census of the nodes of a program is that of its stamps. -/
theorem Program.countP_visits (program : Program) (kind : NodeKind) :
    program.visits.countP (·.kind = kind) = Stamp.census kind program.stamps := by
  have hnodes : Stamp.census kind (Stamp.nodesOf program.stamps) = Stamp.census kind program.stamps := by
    unfold Stamp.census Stamp.nodesOf
    rw [List.countP_filter]
    refine List.countP_congr fun stamp _ => ?_
    cases stamp <;> simp
  rw [← hnodes, ← map_stamp_visits, Stamp.census, List.countP_map]
  rfl

/-- As many different numbers as there are below a bound are all of them. -/
theorem Program.perm_range {program : Program} {kind : NodeKind} {size : Nat}
    (honce : (program.visits.map fun visit => (visit.kind, visit.origin.id)).Nodup)
    (hbounded : ∀ visit ∈ program.visits, visit.kind = kind → visit.origin.id < size)
    (hcount : program.visits.countP (·.kind = kind) = size) :
    ((program.visits.filter (·.kind = kind)).map (·.origin.id)).Perm (List.range size) := by
  have hkind : ∀ visit ∈ program.visits.filter (·.kind = kind), visit ∈ program.visits ∧
      visit.kind = kind := by simp
  have hnodup : ((program.visits.filter (·.kind = kind)).map (·.origin.id)).Nodup := by
    refine List.Nodup.of_map (fun id => (kind, id)) ?_
    have hpairs : (program.visits.filter (·.kind = kind)).map (fun visit => (kind, visit.origin.id)) =
        (program.visits.filter (·.kind = kind)).map fun visit => (visit.kind, visit.origin.id) :=
      List.map_congr_left fun visit hvisit => by rw [(hkind visit hvisit).2]
    rw [List.map_map]
    exact hpairs ▸ honce.sublist (List.filter_sublist.map _)
  have hsubset : (program.visits.filter (·.kind = kind)).map (·.origin.id) ⊆ List.range size := by
    intro id hid
    obtain ⟨visit, hvisit, rfl⟩ := List.mem_map.mp hid
    exact List.mem_range.mpr (hbounded visit (hkind visit hvisit).1 (hkind visit hvisit).2)
  refine (List.subperm_of_subset hnodup hsubset).perm_of_length_le ?_
  rw [List.length_range, List.length_map, ← List.countP_eq_length_filter]
  exact Nat.le_of_eq hcount.symm

namespace Parsed

variable (file : FileId) (tokens : List Token) (arena : Arena)

/-- Every number is given to one node. -/
theorem ofTokens_nodes_nodup : (Stamp.nodesOf (ofTokens file tokens arena).program.stamps).Nodup := by
  rw [List.nodup_iff_count_le_one]
  intro stamp
  cases stamp with
  | name name =>
      have habsent : Stamp.name name ∉
          Stamp.nodesOf (ofTokens file tokens arena).program.stamps := by
        simp [Stamp.nodesOf]
      rw [List.count_eq_zero_of_not_mem habsent]
      exact Nat.zero_le 1
  | node kind id =>
      let ledger : Ledger := ⟨file, (initial file tokens arena).rest, .node kind id⟩
      have hholds : ledger.Holds (initial file tokens arena) :=
        ⟨rfl, rfl, initial_ended tokens, fun _ hmem => by cases hmem⟩
      obtain ⟨-, n, hn, hcount, -⟩ := Parser.Accounts.program hholds
      have hissued : ledger.issued (Parser.program (initial file tokens arena)).2 ≤ 1 := by
        unfold Ledger.issued ledger
        dsimp only
        split <;> omega
      have hsublist : (Stamp.nodesOf (ofTokens file tokens arena).program.stamps).count (.node kind id) ≤
          (ofTokens file tokens arena).program.stamps.count (.node kind id) :=
        List.filter_sublist.count_le _
      calc (Stamp.nodesOf (ofTokens file tokens arena).program.stamps).count (.node kind id)
          ≤ (ofTokens file tokens arena).program.stamps.count (.node kind id) := hsublist
        _ ≤ n := hcount
        _ ≤ 1 := by omega

/-- In a forest of trees the parser plants others. -/
theorem grove_ofTokens (hforest : arena.IsForest) :
    arena.Grove (ofTokens file tokens arena).arena ((ofTokens file tokens arena).program.decls.map .decl) :=
  (Parser.Plants.program arena (initial file tokens arena) (.start hforest)).2

theorem isForest_ofTokens (hforest : arena.IsForest) :
    (ofTokens file tokens arena).program.IsForest (ofTokens file tokens arena).arena := by
  have hgrove := grove_ofTokens file tokens arena hforest
  have hdecls : ∀ decl ∈ (ofTokens file tokens arena).program.decls,
      arena.Planted (ofTokens file tokens arena).arena (.decl decl) :=
    fun decl hdecl => hgrove.planted _ (List.mem_map_of_mem hdecl)
  have hheld : ∀ node, (ofTokens file tokens arena).program.Reaches node →
      (ofTokens file tokens arena).arena.Holds node :=
    fun node hnode => hnode.held hgrove.forest fun decl hdecl => (hdecls decl hdecl).held
  constructor
  case held => exact hheld
  case bounded => exact fun node hnode => (hheld node hnode).lt_size
  case roots =>
    refine List.Nodup.of_map (fun id => Stamp.node .decl id) ?_
    have hdistinct := hgrove.distinct
    rw [List.map_map] at hdistinct ⊢
    exact hdistinct
  case free => exact fun decl hdecl => (hdecls decl hdecl).free
  case once => exact Program.nodup_visits (ofTokens_nodes_nodup file tokens arena)
  case met => exact Program.met_iff

/-- Without an error as many nodes are in the program as were made. -/
theorem size_of_valid
    (hvalid : Diagnostics.hasErrors (ofTokens file tokens arena).diagnostics = false)
    (kind : NodeKind) : (ofTokens file tokens arena).arena.size kind =
      arena.size kind + (ofTokens file tokens arena).program.visits.countP (·.kind = kind) := by
  obtain ⟨-, hdelivers⟩ := Parser.Delivers.program (s := initial file tokens arena) guarded_initial
  obtain ⟨-, ts, hstretch, -⟩ := hdelivers hvalid
  rw [Program.countP_visits]
  exact hstretch.size kind

/-- **Programs are forests.** Whatever the tokens are, all nodes that were made for them, those that
were given up included, form a forest, and the program is made of trees of it; and if no error is
reported, the nodes of each kind that a walk meets are all of that kind that there are. -/
theorem ofTokens_forest : (ofTokens file tokens .empty).arena.IsForest ∧
    (ofTokens file tokens .empty).program.IsForest (ofTokens file tokens .empty).arena ∧
      (Diagnostics.hasErrors (ofTokens file tokens .empty).diagnostics = false → ∀ kind,
        (((ofTokens file tokens .empty).program.visits.filter (·.kind = kind)).map (·.origin.id)).Perm
          (List.range ((ofTokens file tokens .empty).arena.size kind))) := by
  have hforest := isForest_ofTokens file tokens .empty .empty
  refine ⟨(grove_ofTokens file tokens .empty .empty).forest, hforest, fun hvalid kind =>
    Program.perm_range hforest.once ?_ ?_⟩
  · rintro ⟨depth, _, origin⟩ hvisit rfl
    obtain ⟨node, hnode, hkind, rfl⟩ := (hforest.met _ origin).mp ⟨depth, hvisit⟩
    exact hkind ▸ hforest.bounded node hnode
  · have hempty : Arena.empty.size kind = 0 := by cases kind <;> rfl
    have hsize := size_of_valid file tokens .empty hvalid kind
    rw [hempty, Nat.zero_add] at hsize
    exact hsize.symm

/-- A dynamic array in parentheses with a cast to a nullable type. -/
theorem ofTokens_forest_of_tree :
    let text := "tree T() \x7b N(a: (vec![1 as U?])); \x7d"
    let parsed := ofTokens .detached (TokenStream.ofText .detached text).tokens .empty
    Diagnostics.hasErrors parsed.diagnostics = false ∧
      parsed.arena.IsForest ∧ parsed.program.IsForest parsed.arena ∧
        ∀ kind, ((parsed.program.visits.filter (·.kind = kind)).map (·.origin.id)).Perm
          (List.range (parsed.arena.size kind)) := by
  intro text parsed
  have hvalid : Diagnostics.hasErrors parsed.diagnostics = false := by decide +kernel
  obtain ⟨harena, hprogram, hall⟩ :=
    ofTokens_forest .detached (TokenStream.ofText .detached text).tokens
  exact ⟨hvalid, harena, hprogram, hall hvalid⟩

end Parsed

end BehaviorTree
