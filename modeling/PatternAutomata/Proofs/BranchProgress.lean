import PatternAutomata.Pattern.Fault
import PatternAutomata.Proofs.PrintedForms

/-!
# How far a branch has been read

Whether a star finds something to repeat depends on the branch read so far, and
whether it should is said by the characters in front of it.  `Reached` ties the
two: what stands in front of the cursor ends with the branch, printed, behind a
place where a branch begins.

Two things can then be seen from the characters alone: whether anything of the
branch has been read (`Reached.beforeBranch_iff`), and whether it is a single
repeated unit (`Reached.repeatLast_eq_none_iff`).  For the second, a text must
not end with two different units.  The closer of a group would have to belong to
two openers, and the parentheses between these would not pair up
(`Repeatable.eq_of_append_eq`).
-/

namespace PatternAutomata

namespace Repeatable

variable {unit other : List Char}

theorem ne_nil (h : Repeatable unit) : unit ≠ [] := by
  cases h with
  | literal => simp
  | group => simp

/-- A text that ends with a unit does not end with a star. -/
theorem append_ne_append_star (h : Repeatable unit) (front before : List Char) :
    front ++ unit ≠ before ++ ['*'] := by
  intro hstar
  have hlast := congrArg List.getLast? hstar
  cases h with
  | literal hliteral =>
      obtain ⟨-, -, -, hne⟩ := isReserved_eq_false_iff.mp hliteral
      rw [List.getLast?_concat, List.getLast?_concat] at hlast
      exact hne (Option.some.inj hlast)
  | group => simp [List.getLast?_append, List.getLast?_cons] at hlast

/-- A unit has no other one at its end. -/
theorem eq_nil_of_eq_append (hunit : Repeatable unit) (hother : Repeatable other)
    {front : List Char} (hsplit : unit = front ++ other) : front = [] := by
  cases hunit with
  | literal hliteral =>
      have hlength := congrArg List.length hsplit
      have hpos := List.length_pos_iff.mpr hother.ne_nil
      rw [List.length_singleton, List.length_append] at hlength
      exact List.length_eq_zero_iff.mp (by omega)
  | @group inner hinner =>
      cases hother with
      | literal hliteral =>
          obtain ⟨-, hclose, -, -⟩ := isReserved_eq_false_iff.mp hliteral
          have hlast := congrArg List.getLast? hsplit
          simp [List.getLast?_cons] at hlast
          exact absurd hlast.symm hclose
      | @group content hcontent =>
          cases front with
          | nil => rfl
          | cons c front =>
              have hwhole : inner ++ [')'] = (front ++ '(' :: content) ++ [')'] := by
                simpa using (List.cons.inj hsplit).2
              have hopen := hinner.count_back_le (List.append_cancel_right hwhole)
              rw [List.count_cons_self, count_closer_cons_open, hcontent.count_eq] at hopen
              omega

/-- **A text ends with one unit at most.** -/
theorem eq_of_append_eq (hunit : Repeatable unit) (hother : Repeatable other)
    {front before : List Char} (h : front ++ unit = before ++ other) : front = before := by
  rcases List.append_eq_append_iff.mp h with ⟨middle, rfl, hunit'⟩ | ⟨middle, rfl, hother'⟩
  · rw [hunit.eq_nil_of_eq_append hother hunit', List.append_nil]
  · rw [hother.eq_nil_of_eq_append hunit hother', List.append_nil]

end Repeatable

namespace Tree

/-- A unit is printed as something that can be repeated. -/
theorem Shaped.repeatable {u : Tree} (h : Shaped .unit u) : Repeatable u.spelling := by
  cases h with
  | char hliteral => exact .literal hliteral
  | group inner => exact .group inner.balanced

/-- A branch does not end where another one could begin. -/
theorem Shaped.not_beforeBranch {rank : Rank} {t : Tree} (h : Shaped rank t)
    (hrank : rank ≠ .expression) (before : List Char) :
    ¬ BeforeBranch (before ++ t.spelling) := by
  induction h generalizing before with
  | char hliteral =>
      obtain ⟨hopen, -, hbar, -⟩ := isReserved_eq_false_iff.mp hliteral
      simp [BeforeBranch, spelling, hopen, hbar]
  | group _ _ => simp [BeforeBranch, spelling, List.getLast?_append, List.getLast?_cons]
  | ofUnit _ ih => exact ih (by decide) before
  | again _ _ => simp [BeforeBranch, spelling, List.getLast?_append]
  | first _ ih => exact ih (by decide) before
  | firstStar _ _ => simp [BeforeBranch, spelling, List.getLast?_append]
  | @concat left _ _ _ _ ihlast =>
      rw [spelling, ← List.append_assoc]
      exact ihlast (by decide) (before ++ left.spelling)
  | ofBranch => exact absurd rfl hrank
  | union => exact absurd rfl hrank

/-- A branch of several parts is no single repeated unit: another unit stands between its
last star and any place where a branch begins. -/
theorem concat_ne_starred_unit {left right : Tree} {front unit : List Char}
    (hleft : Shaped .branch left) (hright : Shaped .repeated right)
    (hfront : BeforeBranch front) (hunit : Repeatable unit) (before : List Char) :
    before ++ (concat left right).spelling ≠ front ++ unit ++ ['*'] := by
  intro hstarred
  rw [spelling, ← List.append_assoc] at hstarred
  cases hright with
  | ofUnit hlast => exact hlast.repeatable.append_ne_append_star _ _ hstarred
  | @again inner hinner =>
      rw [spelling, ← List.append_assoc] at hstarred
      have hsame := List.append_cancel_right hstarred
      cases hinner with
      | ofUnit hlast =>
          have heq := hlast.repeatable.eq_of_append_eq hunit hsame
          exact hleft.not_beforeBranch (by decide) before (heq ▸ hfront)
      | again =>
          rw [spelling, ← List.append_assoc] at hsame
          exact hunit.append_ne_append_star _ _ hsame.symm

end Tree

/-- What stands in front of the cursor when `branch` has been read of the current branch. -/
structure Reached (done : List Char) (branch : Option Tree) : Prop where
  begins : ∃ before, BeforeBranch before ∧ done = before ++ Tree.written branch
  shaped : ∀ front, branch = some front → Tree.Shaped .branch front

namespace Reached

variable {done : List Char} {branch : Option Tree}

theorem begin (hbegins : BeforeBranch done) : Reached done none where
  begins := ⟨done, hbegins, (List.append_nil done).symm⟩
  shaped := by simp

theorem append (h : Reached done branch) {u : Tree} (hunit : Tree.Shaped .unit u) :
    Reached (done ++ u.spelling) (some (Tree.append branch u)) where
  begins := by
    obtain ⟨before, hbefore, rfl⟩ := h.begins
    exact ⟨before, hbefore, by simp [Tree.written]⟩
  shaped := by
    intro front hfront
    cases hfront
    exact Tree.shaped_append h.shaped hunit

theorem repeatLast (h : Reached done branch) {repeated : Tree}
    (hrepeat : Tree.repeatLast branch = some repeated) :
    Reached (done ++ ['*']) (some repeated) where
  begins := by
    obtain ⟨before, hbefore, rfl⟩ := h.begins
    exact ⟨before, hbefore, by simp [Tree.written, Tree.spelling_repeatLast hrepeat]⟩
  shaped := by
    intro front hfront
    cases hfront
    exact Tree.shaped_repeatLast h.shaped hrepeat

/-- **A branch begins at the cursor exactly if nothing of the branch has been read.** -/
theorem beforeBranch_iff (h : Reached done branch) : BeforeBranch done ↔ branch = none := by
  obtain ⟨before, hbefore, rfl⟩ := h.begins
  cases branch with
  | none => simpa [Tree.written] using hbefore
  | some front =>
      have hinside := (h.shaped front rfl).not_beforeBranch (by decide) before
      simpa [Tree.written] using hinside

/-- **A star finds nothing to repeat** exactly at the beginning of a branch and behind a
first unit that is repeated already. -/
theorem repeatLast_eq_none_iff (h : Reached done branch) :
    Tree.repeatLast branch = none ↔
      BeforeBranch done ∨ ∃ front unit, done = front ++ unit ++ ['*'] ∧
        BeforeBranch front ∧ Repeatable unit := by
  rw [h.beforeBranch_iff]
  obtain ⟨⟨before, hbefore, hdone⟩, hshaped⟩ := h
  constructor
  · intro hnone
    cases branch with
    | none => exact Or.inl rfl
    | some t =>
        cases hshaped t rfl with
        | first hunit =>
            rw [Tree.repeatLast_unit hunit] at hnone
            cases hnone
        | @firstStar u hunit =>
            refine Or.inr ⟨before, u.spelling, ?_, hbefore, hunit.repeatable⟩
            rw [hdone, List.append_assoc]
            rfl
        | concat => cases hnone
  · intro hstands
    rcases hstands with rfl | ⟨front, unit, hstarred, hfront, hunit⟩
    · rfl
    · rw [hdone] at hstarred
      cases branch with
      | none => rfl
      | some t =>
          cases hshaped t rfl with
          | first hsingle =>
              exact absurd hstarred (hsingle.repeatable.append_ne_append_star before _)
          | firstStar => rfl
          | concat hleft hright =>
              exact absurd hstarred (Tree.concat_ne_starred_unit hleft hright hfront hunit before)

end Reached

end PatternAutomata
