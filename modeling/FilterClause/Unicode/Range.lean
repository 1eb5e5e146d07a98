/-!
# Membership in a table of code points

A property of characters is given as the sorted list of the closed ranges of code points that
have it. The search stops at the first range that lies behind the code point, so a character from
the front of a table is found or refused after a few steps.
-/

namespace FilterClause.Unicode

/-- Whether `n` lies in one of the sorted, disjoint closed ranges. -/
def inRanges (n : Nat) : List (Nat × Nat) → Bool
  | [] => false
  | (first, last) :: rest => if n < first then false else n ≤ last || inRanges n rest

end FilterClause.Unicode
