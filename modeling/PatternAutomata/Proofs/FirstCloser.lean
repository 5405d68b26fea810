import PatternAutomata.Proofs.StretchReading

/-!
# The closer of a group

The closer of a parenthesis is found by counting depths up to the end of a scope.  While a
word can count the parentheses that are open, what is found is the first index up to which
they pair up (`Closes`), and nothing is found exactly if there is no such index
(`map_val_closer?_eq_some_iff`, `closer?_eq_none_iff`).  So the content of a group is
balanced, whatever stands around the group.

Where a word cannot count them, the search ends at one of the parentheses that are opened,
and that closes nothing (`exists_closer?_of_overfull`).
-/

namespace PatternAutomata

section Closers

variable {cs : Array Char} {stop opener close : Nat}

/-- The parentheses from an opening one up to an index pair up, the index being in its scope. -/
structure Closes (cs : Array Char) (stop opener close : Nat) : Prop where
  behind : opener < close
  before : close < stop
  balanced : Balanced (stretch cs opener (close + 1))

section Found

variable {hstop : stop ≤ cs.size} {found : { close : Nat // opener < close ∧ close < stop }}
  (hshallow : nesting (stretch cs (opener + 1) stop) + 1 < counterLimit)
  (hfound : closer? cs stop hstop opener (opener + 1) (Nat.lt_succ_self _) 1 = some found)

include hshallow hfound

/-- The content is the part that counts of what follows the parenthesis. -/
theorem stretch_content :
    found.val = opener + 1 + (visible (stretch cs (opener + 1) stop)).length ∧
      stretch cs (opener + 1) found.val = visible (stretch cs (opener + 1) stop) := by
  rw [← counted_eq_visible hshallow]
  exact stretch_of_closer? hfound

theorem closed_of_closer? :
    (visible (stretch cs (opener + 1) stop)).length < (stretch cs (opener + 1) stop).length := by
  rw [← counted_eq_visible hshallow]
  exact length_counted_lt_of_closer? hfound

theorem balanced_content : Balanced (stretch cs (opener + 1) found.val) := by
  rw [(stretch_content hshallow hfound).2]
  exact balanced_visible (closed_of_closer? hshallow hfound)

/-- Behind the content and the closer the rest of the scope follows. -/
theorem drop_stretch_closer :
    (stretch cs (opener + 1) stop).drop ((visible (stretch cs (opener + 1) stop)).length + 1) =
      stretch cs (found.val + 1) stop := by
  rw [drop_stretch, (stretch_content hshallow hfound).1]
  rfl

/-- What follows an opening parenthesis is its content, its closer and the rest of the scope. -/
theorem stretch_behind_opener :
    stretch cs (opener + 1) found.val ++ ')' :: stretch cs (found.val + 1) stop =
      stretch cs (opener + 1) stop := by
  rw [(stretch_content hshallow hfound).2, ← drop_stretch_closer hshallow hfound]
  exact visible_append_drop (closed_of_closer? hshallow hfound)

/-- What is found is a `)`. -/
theorem getElem?_closer : cs[found.val]? = some ')' := by
  obtain ⟨hbehind, hbefore⟩ := found.property
  have hlast : stretch cs (opener + 1) found.val ++ stretch cs found.val stop = _ :=
    stretch_append (Nat.succ_le_of_lt hbehind) (Nat.le_of_lt hbefore)
  rw [← stretch_behind_opener hshallow hfound, stretch_eq_cons hstop hbefore] at hlast
  have hcloser := (List.cons.inj (List.append_cancel_left hlast)).1
  rw [Array.getElem?_eq_getElem (Nat.lt_of_lt_of_le hbefore hstop), hcloser]

/-- A group from its opening parenthesis to its closer. -/
theorem stretch_group (hopener : opener < cs.size) (hopen : cs[opener] = '(') :
    stretch cs opener (found.val + 1) = '(' :: (stretch cs (opener + 1) found.val ++ [')']) := by
  obtain ⟨hbehind, hbefore⟩ := found.property
  obtain ⟨hinside, hcloser⟩ := Array.getElem?_eq_some_iff.mp (getElem?_closer hshallow hfound)
  rw [stretch_eq_cons (by omega) (by omega), hopen,
    ← stretch_append (Nat.succ_le_of_lt hbehind) (Nat.le_succ found.val),
    stretch_eq_cons (by omega) (Nat.lt_succ_self _), hcloser, stretch_eq_nil (Nat.le_refl _)]

end Found

/-- Where no `)` ends the stretch behind an opening parenthesis, none in it is its closer. -/
theorem not_closes_of_counts {upTo i : Nat} (hstop : stop ≤ cs.size) (hopener : opener < cs.size)
    (hopen : cs[opener] = '(')
    (hcounts : visible (stretch cs (opener + 1) upTo) = stretch cs (opener + 1) upTo)
    (hi : i < upTo) : ¬ Closes cs stop opener i := by
  intro hcloses
  obtain ⟨hbehind, hbefore, hbalanced⟩ := hcloses
  rw [stretch_eq_cons (by omega) (by omega), hopen] at hbalanced
  rw [← stretch_append (Nat.le_succ_of_le hbehind) (Nat.succ_le_of_lt hi)] at hcounts
  exact not_balanced_open hcounts hbalanced

/-- Where no closer is found, all that follows the parenthesis counts. -/
theorem counts_of_closer?_eq_none {hstop : stop ≤ cs.size}
    (hshallow : nesting (stretch cs (opener + 1) stop) + 1 < counterLimit)
    (hnone : closer? cs stop hstop opener (opener + 1) (Nat.lt_succ_self _) 1 = none) :
    visible (stretch cs (opener + 1) stop) = stretch cs (opener + 1) stop := by
  have hunclosed := not_lt_of_closer?_eq_none hnone
  rw [counted_eq_visible hshallow] at hunclosed
  exact visible_eq_self_of_not_closed hunclosed

section Search

variable (hstop : stop ≤ cs.size) (hopener : opener < cs.size) (hopen : cs[opener] = '(')

include hopen

section Shallow

variable (hshallow : nesting (stretch cs (opener + 1) stop) + 1 < counterLimit)

include hshallow

/-- **The closer is the first index up to which the parentheses pair up.** -/
theorem map_val_closer?_eq_some_iff :
    (closer? cs stop hstop opener (opener + 1) (Nat.lt_succ_self _) 1).map Subtype.val =
        some close ↔
      Closes cs stop opener close ∧ ∀ i, Closes cs stop opener i → close ≤ i := by
  cases hfound : closer? cs stop hstop opener (opener + 1) (Nat.lt_succ_self _) 1 with
  | none =>
      have hcounts := counts_of_closer?_eq_none hshallow hfound
      simp only [Option.map_none, reduceCtorEq, false_iff]
      rintro ⟨hcloses, -⟩
      exact not_closes_of_counts hstop hopener hopen hcounts hcloses.before hcloses
  | some found =>
      have hbalanced := balanced_content hshallow hfound
      have hcloses : Closes cs stop opener found.val := by
        refine ⟨found.property.1, found.property.2, ?_⟩
        rw [stretch_group hshallow hfound hopener hopen]
        exact .nested hbalanced .nil
      have hleast : ∀ i, Closes cs stop opener i → found.val ≤ i := by
        intro i hi
        refine Nat.le_of_not_lt fun hlt => ?_
        exact not_closes_of_counts hstop hopener hopen hbalanced.visible_eq hlt hi
      rw [Option.map_some, Option.some.injEq]
      constructor
      · rintro rfl
        exact ⟨hcloses, hleast⟩
      · rintro ⟨hother, hfirst⟩
        exact Nat.le_antisymm (hleast _ hother) (hfirst _ hcloses)

/-- **There is no closer exactly if the parentheses never pair up in the scope.** -/
theorem closer?_eq_none_iff :
    closer? cs stop hstop opener (opener + 1) (Nat.lt_succ_self _) 1 = none ↔
      ∀ i, ¬ Closes cs stop opener i := by
  constructor
  · intro hnone i hcloses
    have hcounts := counts_of_closer?_eq_none hshallow hnone
    exact not_closes_of_counts hstop hopener hopen hcounts hcloses.before hcloses
  · intro hnever
    cases hfound : closer? cs stop hstop opener (opener + 1) (Nat.lt_succ_self _) 1 with
    | none => rfl
    | some found =>
        have hclose := (map_val_closer?_eq_some_iff hstop hopener hopen hshallow).mp
          (congrArg (Option.map Subtype.val) hfound)
        exact absurd hclose.1 (hnever _)

end Shallow

/-- **Too deep a parenthesis is given a wrong closer**: a `(`, up to which nothing closes it. -/
theorem exists_closer?_of_overfull
    (hfull : counterLimit ≤ nesting (stretch cs (opener + 1) stop) + 1) :
    ∃ found, closer? cs stop hstop opener (opener + 1) (Nat.lt_succ_self _) 1 = some found ∧
      cs[found.val]? = some '(' ∧ ∀ i, Closes cs stop opener i → found.val < i := by
  have hlength := length_counted_lt hfull
  have hval := map_val_closer?_one cs stop hstop opener (opener + 1) (Nat.lt_succ_self _)
  rw [if_pos (by rwa [length_stretch hstop] at hlength), Option.map_eq_some_iff] at hval
  obtain ⟨found, hfound, -⟩ := hval
  obtain ⟨back, hback⟩ := exists_counted_append hfull
  obtain ⟨-, hcontent⟩ := stretch_of_closer? hfound
  obtain ⟨hbehind, hbefore⟩ := found.property
  -- the place where the search ends, and what stands before it
  have hinside := Nat.lt_of_lt_of_le hbefore hstop
  have hrest : stretch cs found.val stop = '(' :: back := by
    rw [← hcontent, ← stretch_append (Nat.succ_le_of_lt hbehind) (Nat.le_of_lt hbefore)] at hback
    exact List.append_cancel_left hback
  have hhere : cs[found.val] = '(' := by
    rw [stretch_eq_cons hstop hbefore] at hrest
    exact (List.cons.inj hrest).1
  have hcounts : visible (stretch cs (opener + 1) (found.val + 1)) =
      stretch cs (opener + 1) (found.val + 1) := by
    rw [← stretch_append (Nat.succ_le_of_lt hbehind) (Nat.le_succ found.val), hcontent,
      stretch_eq_cons hinside (Nat.lt_succ_self _), stretch_eq_nil (Nat.le_refl _), hhere]
    exact visible_concat_open (visible_counted _)
  refine ⟨found, hfound, by simp [hinside, hhere], ?_⟩
  intro i hi
  refine Nat.lt_of_not_le fun hle => ?_
  exact not_closes_of_counts hstop hopener hopen hcounts (Nat.lt_succ_of_le hle) hi

end Search

end Closers

end PatternAutomata
