/-!
# Classes of characters

A class of characters is given by ranges of code points that ascend and do not
overlap, which every class proves of its own.  A search for a character can
therefore stop at the first range that begins behind it.
-/

namespace PatternAutomata

/-- Whether ranges ascend without overlap, from a least code point on. -/
def ascendingFrom (least : Nat) : List (Nat × Nat) → Bool
  | [] => true
  | (first, last) :: rest =>
    decide (least ≤ first) && decide (first ≤ last) && ascendingFrom (last + 1) rest

/-- A class of characters, by the ranges of their code points, ends included. -/
structure CharClass where
  ranges : List (Nat × Nat)
  ascending : ascendingFrom 0 ranges = true

/-- Whether a code point lies in one of some ascending ranges. -/
def liesIn (n : Nat) : List (Nat × Nat) → Bool
  | [] => false
  | (first, last) :: rest => decide (first ≤ n) && (decide (n ≤ last) || liesIn n rest)

/-- Whether a character belongs to a class. -/
def CharClass.contains (cls : CharClass) (c : Char) : Bool :=
  liesIn c.toNat cls.ranges

end PatternAutomata
