import BehaviorTree.Proofs.Parsing.Words

/-!
# Terms under the scan for an assignment

A list breaks off at a line that starts another construct, and the scan for an assignment operator
decides whether a name does that. Tokens that make up an expression never look like the start of a
construct: they do not begin with a mark or a word that starts one, no bracket of a node call
follows a name at their start, and if the scan finds an operator from there on, then it finds it
behind them.
-/

namespace BehaviorTree

/-- The kinds of tokens that start no part of an item of a list. -/
def TokenKind.breaksOff : TokenKind → Bool
  | .keyword word => word.isOpener
  | .docComment _ | .punctuation .rBrace | .punctuation .at => true
  | _ => false

/-- The kinds of tokens that are no bracket of an index and do not assign. -/
def TokenKind.isNeutral : TokenKind → Bool
  | .operator op => !op.isAssignment
  | .punctuation mark => mark != .lBracket && mark != .rBracket
  | _ => true

namespace Skip

/-- Behind an open bracket, an assignment operator that the scan finds lies behind the tokens. -/
def Clears (ts : List Token) : Prop :=
  ∀ depth rest, assignmentFollows (depth + 1) (ts ++ rest) = true →
    assignmentFollows (depth + 1) rest = true

/-- Behind a name, no bracket of a node follows, and an assignment operator that the scan finds lies
behind the tokens. -/
structure Clear (ts : List Token) : Prop where
  call : ∀ t ∈ ts.head?, t.isPunctuation .lParen = false ∧ t.isPunctuation .lBrace = false
  target : ∀ rest, assignmentFollows 0 (ts ++ rest) = true → assignmentFollows 0 rest = true

variable {ts us : List Token} {t opening closing : Token}

theorem assignmentFollows_opening (h : opening.kind = .punctuation .lBracket) (depth : Nat)
    (rest : List Token) :
    assignmentFollows depth (opening :: rest) = assignmentFollows (depth + 1) rest := by
  cases depth <;> simp [assignmentFollows, Token.isEndOfFile, Token.isPunctuation, h]

theorem assignmentFollows_closing (h : closing.kind = .punctuation .rBracket) (depth : Nat)
    (rest : List Token) :
    assignmentFollows (depth + 1) (closing :: rest) = assignmentFollows depth rest := by
  simp [assignmentFollows, Token.isEndOfFile, Token.isPunctuation, h]

/-- A token that is no bracket of an index and does not assign. -/
structure Neutral (t : Token) : Prop where
  assigns : t.isAssignment = false
  opens : t.isPunctuation .lBracket = false
  closes : t.isPunctuation .rBracket = false

theorem Neutral.of_kind {kind : TokenKind} (hkind : t.kind = kind)
    (hneutral : kind.isNeutral = true) : Neutral t := by
  subst hkind
  cases h : t.kind with
  | operator op =>
      rw [h, TokenKind.isNeutral, Bool.not_eq_true'] at hneutral
      exact ⟨by simpa [Token.isAssignment, Token.operator?, TokenKind.operator?, h] using hneutral,
        by simp [Token.isPunctuation, h], by simp [Token.isPunctuation, h]⟩
  | punctuation mark =>
      rw [h] at hneutral
      obtain ⟨hopens, hcloses⟩ := Bool.and_eq_true_iff.mp hneutral
      exact ⟨by simp [Token.isAssignment, Token.operator?, TokenKind.operator?, h],
        by simpa [Token.isPunctuation, h] using hopens,
        by simpa [Token.isPunctuation, h] using hcloses⟩
  | _ =>
      exact ⟨by simp [Token.isAssignment, Token.operator?, TokenKind.operator?, h],
        by simp [Token.isPunctuation, h], by simp [Token.isPunctuation, h]⟩

namespace Clears

theorem nil : Clears [] := fun _ _ h => h

theorem append (hts : Clears ts) (hus : Clears us) : Clears (ts ++ us) := by
  intro depth rest h
  rw [List.append_assoc] at h
  exact hus depth rest (hts depth _ h)

theorem cons (ht : Neutral t) (hts : Clears ts) : Clears (t :: ts) := by
  intro depth rest h
  rw [List.cons_append, assignmentFollows] at h
  simp only [ht.assigns, ht.opens, ht.closes, Bool.false_eq_true, if_false, Bool.false_or] at h
  split at h
  · cases h
  · exact hts depth rest h

theorem single (ht : Neutral t) : Clears [t] := cons ht nil

theorem bracketed (hopening : opening.kind = .punctuation .lBracket) (hts : Clears ts)
    (hclosing : closing.kind = .punctuation .rBracket) :
    Clears (opening :: (ts ++ [closing])) := by
  intro depth rest h
  rw [List.cons_append, assignmentFollows_opening hopening, List.append_assoc] at h
  have hclosed := hts (depth + 1) _ h
  rwa [List.singleton_append, assignmentFollows_closing hclosing] at hclosed

end Clears

theorem Clear.nil : Clear [] := ⟨by simp, fun _ h => h⟩

/-- Something that cannot follow an assignment target ends the scan. -/
theorem Clear.append_cons (h : Clear ts) (ht : Neutral t)
    (hcall : t.isPunctuation .lParen = false ∧ t.isPunctuation .lBrace = false) :
    Clear (ts ++ t :: us) where
  call := by
    cases ts with
    | nil => simpa using hcall
    | cons first ts => simpa using h.call
  target rest hfollows := by
    rw [List.append_assoc, List.cons_append] at hfollows
    have hstopped := h.target _ hfollows
    rw [assignmentFollows, ht.opens] at hstopped
    simp [ht.assigns] at hstopped

/-- One more index. -/
theorem Clear.indexed (h : Clear ts) (hopening : opening.kind = .punctuation .lBracket)
    (hus : Clears us) (hclosing : closing.kind = .punctuation .rBracket) :
    Clear (ts ++ opening :: (us ++ [closing])) where
  call := by
    cases ts with
    | nil => simp [Token.isPunctuation, hopening]
    | cons first ts => simpa using h.call
  target rest hfollows := by
    rw [List.append_assoc, List.cons_append, List.append_assoc] at hfollows
    have hopened := h.target _ hfollows
    rw [assignmentFollows_opening hopening] at hopened
    have hclosed := hus 0 _ hopened
    rwa [List.singleton_append, assignmentFollows_closing hclosing] at hclosed

end Skip

open Skip

/-- How the tokens of an expression look to the scan. -/
structure Scans (ts : List Token) : Prop where
  opens : ∃ first ∈ ts.head?, first.kind.breaksOff = false
  clears : Clears ts
  clear : ∀ name us, ts = name :: us → name.kind = .identifier → Clear us

namespace Scans

variable {ts us : List Token} {t opening closing : Token}

theorem single (ht : Neutral t) (hopens : t.kind.breaksOff = false) : Scans [t] where
  opens := ⟨t, rfl, hopens⟩
  clears := .single ht
  clear := by
    rintro name us h -
    obtain ⟨rfl, rfl⟩ := List.cons_eq_cons.mp h
    exact .nil

/-- An expression that starts with no name. -/
theorem cons (hkind : t.kind ≠ .identifier) (hopens : t.kind.breaksOff = false)
    (hclears : Clears (t :: ts)) : Scans (t :: ts) where
  opens := ⟨t, rfl, hopens⟩
  clears := hclears
  clear := by
    rintro name us h hname
    obtain ⟨rfl, rfl⟩ := List.cons_eq_cons.mp h
    exact absurd hname hkind

/-- An operator behind an operand. -/
theorem append_cons (h : Scans ts) (ht : Neutral t)
    (hcall : t.isPunctuation .lParen = false ∧ t.isPunctuation .lBrace = false)
    (hus : Clears us) : Scans (ts ++ t :: us) where
  opens := by
    obtain ⟨first, hfirst, hopens⟩ := h.opens
    exact ⟨first, by rw [List.head?_append, hfirst, Option.some_or]; rfl, hopens⟩
  clears := h.clears.append (.cons ht hus)
  clear := by
    rintro name vs hts hname
    cases ts with
    | nil =>
        obtain ⟨first, hfirst, -⟩ := h.opens
        cases hfirst
    | cons first ts =>
        obtain ⟨rfl, rfl⟩ := List.cons_eq_cons.mp hts
        exact (h.clear _ ts rfl hname).append_cons ht hcall

/-- An index behind an operand. -/
theorem indexed (h : Scans ts) (hopening : opening.kind = .punctuation .lBracket)
    (hus : Clears us) (hclosing : closing.kind = .punctuation .rBracket) :
    Scans (ts ++ opening :: (us ++ [closing])) where
  opens := by
    obtain ⟨first, hfirst, hopens⟩ := h.opens
    exact ⟨first, by rw [List.head?_append, hfirst, Option.some_or]; rfl, hopens⟩
  clears := h.clears.append (.bracketed hopening hus hclosing)
  clear := by
    rintro name vs hts hname
    cases ts with
    | nil =>
        obtain ⟨first, hfirst, -⟩ := h.opens
        cases hfirst
    | cons first ts =>
        obtain ⟨rfl, rfl⟩ := List.cons_eq_cons.mp hts
        exact (h.clear _ ts rfl hname).indexed hopening hus hclosing

end Scans

end BehaviorTree
