/-!
How alike two words are: equal characters at about the same place are partners, and partners in the
wrong order count less.
-/

namespace BehaviorTree.Likeness

/-- How far apart the places of partners may be. -/
def reach (left right : List Char) : Nat := max left.length right.length / 2 - 1

/-- The places in the right word of the partners of the left word's characters, from its place
`place` on. Each character takes the first equal one within reach that is not taken. -/
def partnersFrom (reach : Nat) (right : List Char) (taken : List Nat) :
    (place : Nat) → List Char → List (Option Nat)
  | _, [] => []
  | place, c :: rest =>
    let found := (List.range right.length).find? fun other =>
      place - reach ≤ other && other ≤ place + reach && right[other]? == some c &&
        !taken.contains other
    found :: partnersFrom reach right (found.toList ++ taken) (place + 1) rest

def partners (left right : List Char) : List (Option Nat) :=
  partnersFrom (reach left right) right [] 0 left

/-- The count of partners and how many of them are in the wrong order, where two that have changed
places are one. -/
def agreement (left right : List Char) : Nat × Nat :=
  let partners := partners left right
  let taken := partners.filterMap id
  let fromLeft := ((left.zip partners).filter fun entry => entry.2.isSome).map Prod.fst
  let fromRight := (right.zipIdx.filter fun entry => taken.contains entry.2).map Prod.fst
  let differing := (fromLeft.zip fromRight).filter fun pair => pair.1 != pair.2
  (taken.length, differing.length / 2)

/-- Whether two words are alike: the mean of the shares of partners in either word, and of the
partners in order among all partners, is at least seven tenths. -/
def alike (left right : String) : Bool :=
  let (count, wrong) := agreement left.toList right.toList
  let (leftLength, rightLength) := (left.length, right.length)
  0 < count &&
    21 * (leftLength * rightLength * count) ≤
      10 * (count * rightLength * count + count * leftLength * count +
        (count - wrong) * leftLength * rightLength)

/-- A swap counts little, and at the bound two words are alike. -/
example : alike "chekc" "check" = true ∧ alike "chexyz" "check" = true ∧
    alike "chwxyz" "check" = false ∧ alike "" "lex" = false := by
  decide +kernel

end BehaviorTree.Likeness
