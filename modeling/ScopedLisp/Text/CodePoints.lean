-- Sets of code points, written as the ranges that make them up. A property of characters that is
-- given by a table is such a set.

namespace ScopedLisp

-- A set of code points as a list of inclusive ranges.
abbrev CodePoints := List (Nat × Nat)

namespace CodePoints

-- The character lies in one of the ranges.
def has (set : CodePoints) (c : Char) : Bool :=
  set.any fun (first, last) => first ≤ c.toNat && c.toNat ≤ last

theorem has_iff {set : CodePoints} {c : Char} :
    set.has c ↔ ∃ range ∈ set, range.1 ≤ c.toNat ∧ c.toNat ≤ range.2 := by
  simp [has]

end CodePoints
end ScopedLisp
