/-!
# A counter of fixed width

Open parentheses, and the edges that an elimination copies, are counted in words
of 32 bits with a sign.  A count that has been reached in steps of one is kept as
its remainder, whatever its size; below `counterLimit` the word shows the count,
and from there on it does not (`toInt_ofNat_eq_iff`).
-/

namespace PatternAutomata

/-- The first count that a word of 32 bits with a sign cannot hold, `2 ^ 31`. -/
def counterLimit : Nat :=
  2147483648

namespace Counter

theorem ofNat_add_one (n : Nat) : Int32.ofNat n + 1 = Int32.ofNat (n + 1) :=
  (Int32.ofNat_add n 1).symm

theorem ofNat_succ_sub_one (n : Nat) : Int32.ofNat (n + 1) - 1 = Int32.ofNat n := by
  rw [← ofNat_add_one]
  exact Int32.add_sub_cancel _ 1

theorem toInt_ofNat {n : Nat} (hn : n < counterLimit) : (Int32.ofNat n).toInt = n :=
  Int32.toInt_ofNat_of_lt hn

/-- **The word shows the count** exactly below the limit. -/
theorem toInt_ofNat_eq_iff (n : Nat) : (Int32.ofNat n).toInt = n ↔ n < counterLimit := by
  refine ⟨?_, toInt_ofNat⟩
  intro hshown
  have hgreatest : (Int32.ofNat n).toInt ≤ 2 ^ 31 - 1 := Int32.toInt_le _
  rw [counterLimit]
  omega

theorem ofNat_pos_iff {n : Nat} (hn : n < counterLimit) : 0 < Int32.ofNat n ↔ 0 < n := by
  rw [Int32.lt_iff_toInt_lt, toInt_ofNat hn, Int32.toInt_zero, Int.natCast_pos]

/-- A positive word stays positive in the next step, unless it is the greatest. -/
theorem add_one_pos_iff {w : Int32} (hpos : 0 < w) : 0 < w + 1 ↔ w ≠ Int32.maxValue := by
  have hleast : 0 < w.toInt := Int32.lt_iff_toInt_lt.mp hpos
  have hgreatest : w.toInt ≤ 2 ^ 31 - 1 := Int32.toInt_le w
  have hsum : (w + 1).toInt = (w.toInt + 1).bmod (2 ^ 32) := Int32.toInt_add w 1
  rw [Int32.lt_iff_toInt_lt, hsum, ne_eq, ← Int32.toInt_inj, Int32.toInt_maxValue,
    Int32.toInt_zero, Int.bmod_def]
  omega

/-- At the limit the word is negative. -/
theorem toInt_ofNat_counterLimit : (Int32.ofNat counterLimit).toInt = -counterLimit := by
  decide

theorem not_pos_ofNat_counterLimit : ¬ 0 < Int32.ofNat counterLimit := by
  decide

end Counter

end PatternAutomata
