import PatternAutomata.Pattern.Scope

/-!
# Balanced stretches

A stretch of a pattern is balanced when its parentheses pair up within it.  A
balanced stretch counts in full, and hides nothing that follows it: `visibleFrom`
passes it over at every depth.

Seen from behind, a balanced stretch never opens more than it has closed
(`Balanced.count_back_le`).
-/

namespace PatternAutomata

theorem count_closer_cons_open (cs : List Char) : ('(' :: cs).count ')' = cs.count ')' :=
  List.count_cons_of_ne (by decide)

theorem count_open_cons_closer (cs : List Char) : (')' :: cs).count '(' = cs.count '(' :=
  List.count_cons_of_ne (by decide)

/-- The stretches whose parentheses pair up. -/
inductive Balanced : List Char → Prop
  | nil : Balanced []
  | plain {c : Char} {rest : List Char} (hopen : c ≠ '(') (hclose : c ≠ ')')
      (others : Balanced rest) : Balanced (c :: rest)
  | nested {inner rest : List Char} (content : Balanced inner) (others : Balanced rest) :
      Balanced ('(' :: (inner ++ ')' :: rest))

/-- A balanced stretch is passed over at every depth. -/
theorem Balanced.visibleFrom_append {cs : List Char} (hbalanced : Balanced cs) (depth : Nat)
    (rest : List Char) : visibleFrom depth (cs ++ rest) = cs ++ visibleFrom depth rest := by
  induction hbalanced generalizing depth rest with
  | nil => rfl
  | plain hopen hclose _ ih => simp [visibleFrom, hopen, hclose, ih]
  | nested _ _ hcontent hothers => simp [visibleFrom, hcontent, hothers]

/-- Balanced stretches are joined to a balanced one. -/
theorem Balanced.append {front back : List Char} (hfirst : Balanced front)
    (hsecond : Balanced back) : Balanced (front ++ back) := by
  induction hfirst with
  | nil => exact hsecond
  | plain hopen hclose _ ih => exact .plain hopen hclose ih
  | nested hcontent _ _ ih =>
      rw [List.cons_append, List.append_assoc, List.cons_append]
      exact .nested hcontent ih

/-- A balanced pattern counts in full. -/
theorem Balanced.visible_eq {cs : List Char} (hbalanced : Balanced cs) : visible cs = cs := by
  have hpassed := hbalanced.visibleFrom_append 0 []
  rwa [List.append_nil, visibleFrom, List.append_nil] at hpassed

/-- A closer behind a balanced stretch ends what counts. -/
theorem Balanced.visible_append_closer {cs : List Char} (hbalanced : Balanced cs)
    (rest : List Char) : visible (cs ++ ')' :: rest) = cs := by
  rw [visible, hbalanced.visibleFrom_append, visibleFrom_close_zero, List.append_nil]

/-- A balanced stretch has as many opening parentheses as closing ones. -/
theorem Balanced.count_eq {cs : List Char} (hbalanced : Balanced cs) :
    cs.count '(' = cs.count ')' := by
  induction hbalanced with
  | nil => rfl
  | plain hopen hclose _ ih => simpa [List.count_cons, hopen, hclose] using ih
  | nested _ _ hcontent hothers =>
      rw [List.count_cons_self, List.count_append, count_open_cons_closer,
        count_closer_cons_open, List.count_append, List.count_cons_self]
      omega

/-- At the back of a balanced stretch there are at most as many opening parentheses as
closing ones. -/
theorem Balanced.count_back_le {cs : List Char} (hbalanced : Balanced cs) {front back : List Char}
    (hsplit : cs = front ++ back) : back.count '(' ≤ back.count ')' := by
  induction hbalanced generalizing front back with
  | nil =>
      obtain ⟨-, rfl⟩ := List.append_eq_nil_iff.1 hsplit.symm
      exact Nat.le_refl _
  | @plain c rest hopen hclose hothers ih =>
      cases front with
      | nil =>
          subst hsplit
          exact Nat.le_of_eq (Balanced.plain hopen hclose hothers).count_eq
      | cons d front => exact ih (List.cons.inj hsplit).2
  | @nested inner rest hcontent hothers ihinner ihrest =>
      cases front with
      | nil =>
          subst hsplit
          exact Nat.le_of_eq (Balanced.nested hcontent hothers).count_eq
      | cons d front =>
          rcases List.append_eq_append_iff.1 (List.cons.inj hsplit).2 with
            ⟨middle, -, hback⟩ | ⟨middle, hinner, rfl⟩
          · cases middle with
            | nil =>
                rw [← List.nil_append back, ← hback]
                simp [hothers.count_eq]
            | cons e middle => exact ihrest (List.cons.inj hback).2
          · have hinside := ihinner hinner
            have houtside := hothers.count_eq
            rw [List.count_append, List.count_append, count_open_cons_closer,
              List.count_cons_self]
            omega

/-- A balanced stretch stays balanced without a character in front of it. -/
theorem Balanced.behind_plain {c : Char} {rest : List Char} (hbalanced : Balanced (c :: rest))
    (hopen : c ≠ '(') : Balanced rest := by
  cases hbalanced with
  | plain _ _ hothers => exact hothers
  | nested => exact absurd rfl hopen

/-- A balanced stretch does not begin with a closing parenthesis. -/
theorem not_balanced_closer (rest : List Char) : ¬ Balanced (')' :: rest) := by
  intro hbalanced
  cases hbalanced with
  | plain _ hclose _ => exact hclose rfl

/-- In a balanced stretch the first parenthesis is closed, and what follows its closer is
balanced. -/
theorem Balanced.behind_group {rest : List Char} (hbalanced : Balanced ('(' :: rest)) :
    (visible rest).length < rest.length ∧
      Balanced (rest.drop ((visible rest).length + 1)) := by
  cases hbalanced with
  | plain hopen => exact absurd rfl hopen
  | nested hcontent hothers =>
      rw [hcontent.visible_append_closer]
      simpa using hothers

/-- What stands before the `)` that ends a stretch is balanced. -/
theorem balanced_visible {cs : List Char} (hclosed : (visible cs).length < cs.length) :
    Balanced (visible cs) := by
  -- by length, since behind a group the stretch goes on after its closer
  induction hlength : cs.length using Nat.strongRecOn generalizing cs with
  | ind n ih =>
      subst hlength
      cases cs with
      | nil => cases hclosed
      | cons c rest =>
          by_cases hopen : c = '('
          · subst hopen
            have hcontent : (visible rest).length < rest.length := by
              refine Decidable.byContradiction fun hunclosed => ?_
              rw [visible_open_unclosed hunclosed] at hclosed
              exact Nat.lt_irrefl _ hclosed
            rw [visible_open hcontent] at hclosed ⊢
            have hbehind : (visible (rest.drop ((visible rest).length + 1))).length <
                (rest.drop ((visible rest).length + 1)).length := by
              simp only [List.length_cons, List.length_append, List.length_drop] at hclosed ⊢
              omega
            refine .nested (ih rest.length (Nat.lt_succ_self _) hcontent rfl) (ih _ ?_ hbehind rfl)
            rw [List.length_drop, List.length_cons]
            omega
          · by_cases hclose : c = ')'
            · subst hclose
              rw [visible_closer]
              exact .nil
            · rw [visible_cons rest hopen hclose] at hclosed ⊢
              exact .plain hopen hclose
                (ih rest.length (Nat.lt_succ_self _) (Nat.lt_of_succ_lt_succ hclosed) rfl)

/-- A stretch that counts in full closes no more than it opens and is open already. -/
theorem count_closer_le_of_counts {depth : Nat} {cs : List Char}
    (hcounts : visibleFrom depth cs = cs) : cs.count ')' ≤ cs.count '(' + depth := by
  fun_induction visibleFrom depth cs with
  | case1 depth => exact Nat.zero_le _
  | case2 depth rest ih =>
      have hbehind := ih (List.cons.inj hcounts).2
      rw [List.count_cons_self, count_closer_cons_open]
      omega
  | case3 rest => cases hcounts
  | case4 rest _ depth ih =>
      have hbehind := ih (List.cons.inj hcounts).2
      rw [List.count_cons_self, count_open_cons_closer]
      omega
  | case5 depth c rest hopen hclose ih =>
      rw [List.count_cons_of_ne hopen, List.count_cons_of_ne hclose]
      exact ih (List.cons.inj hcounts).2

/-- What follows a parenthesis of a balanced stretch does not count in full by itself. -/
theorem Balanced.visible_ne_behind_open {front back : List Char}
    (hbalanced : Balanced (front ++ '(' :: back)) : visible back ≠ back := by
  intro hcounts
  have hclosed := hbalanced.count_back_le rfl
  have hunclosed := count_closer_le_of_counts hcounts
  rw [List.count_cons_self, count_closer_cons_open] at hclosed
  omega

theorem Balanced.visible_ne_of_open {back : List Char} (hbalanced : Balanced ('(' :: back)) :
    visible back ≠ back := by
  intro hcounts
  have hclosed := hbalanced.behind_group.1
  rw [hcounts] at hclosed
  exact Nat.lt_irrefl _ hclosed

/-- Where a stretch counts in full, no parenthesis in front of it is closed on the way. -/
theorem not_balanced_open {front back : List Char}
    (hcounts : visible (front ++ back) = front ++ back) : ¬ Balanced ('(' :: front) := by
  intro hbalanced
  have hwhole : visible (front ++ []) = front ++ [] :=
    visibleFrom_append_eq_self hcounts visible_nil
  rw [List.append_nil] at hwhole
  exact hbalanced.visible_ne_of_open hwhole

end PatternAutomata
