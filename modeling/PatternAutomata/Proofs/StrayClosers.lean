import PatternAutomata.Proofs.FirstFaults

/-!
# What follows a stray closer is hidden

The `)` that ends a pattern is noted when the cursor meets it.  The closer of a
group is never met, since the content of the group is cut out in front of it
(`Excerpt.strays_read_of_counts`), so there is one note at most.

A reading of a pattern with a stray closer either breaks off in front of it or
meets it (`Excerpt.Course`, `Excerpt.course_read`).  A defect can still be found
when it has been met, for a `|` is checked only after all that follows it has been
read; but such a `|` stands outside all groups.  Which of the two happens is seen
from the faults of the part that counts (`Excerpt.strays_read_ne_nil_iff`).
-/

namespace PatternAutomata

/-- The `|` at index `i` of a text stands outside all groups. -/
def OuterBar (w : List Char) (i : Nat) : Prop :=
  ∃ front back, w = front ++ '|' :: back ∧ Balanced front ∧ i = front.length

/-- More text in front whose parentheses pair up moves the bar. -/
theorem OuterBar.append {w before : List Char} {i : Nat} (h : OuterBar w i)
    (hbefore : Balanced before) : OuterBar (before ++ w) (before.length + i) := by
  obtain ⟨front, back, rfl, hfront, rfl⟩ := h
  refine ⟨before ++ front, back, ?_, hbefore.append hfront, ?_⟩
  · rw [List.append_assoc]
  · rw [List.length_append]

/-- All that follows a bar outside all groups counts if the text does. -/
theorem Balanced.counts_behind_bar {front back : List Char} (hbalanced : Balanced front)
    (hcounts : visible (front ++ '|' :: back) = front ++ '|' :: back) : visible back = back := by
  rw [visible, hbalanced.visibleFrom_append, visibleFrom_cons _ _ (by decide) (by decide)]
    at hcounts
  exact (List.cons.inj (List.append_cancel_left hcounts)).2

namespace Excerpt

/-- The course of a reading of `w` with a closer behind it: it breaks off in front of the
closer, or it meets the closer. -/
inductive Course (x : Excerpt) (w : List Char) : Prop
  /-- The defect is not a `|` behind which all of `w` counts. -/
  | breaksOff {defect : Defect} (strays : x.strays = []) (outcome : x.outcome = .error defect)
      (early : ∀ back, w.drop defect.position = '|' :: back → visible back ≠ back)
  /-- If there is a defect, it is a `|` outside all groups. -/
  | meets (strays : x.strays = [w.length])
      (late : ∀ defect, x.outcome = .error defect →
        defect.flaw = .emptyExpression ∧ OuterBar w defect.position)

theorem outcome_shift_eq_error {x : Excerpt} {n : Nat} {defect : Defect}
    (herror : (x.shift n).outcome = .error defect) :
    ∃ found, x.outcome = .error found ∧ defect = ⟨found.flaw, n + found.position⟩ := by
  cases hread : x.outcome with
  | ok tree =>
      rw [outcome_shift_eq_ok.mpr hread] at herror
      cases herror
  | error found =>
      rw [outcome_shift_of_error hread] at herror
      cases herror
      exact ⟨found, rfl, rfl⟩

/-- What has been passed over in front changes nothing in the course of a reading. -/
theorem Course.shift {x : Excerpt} {w before : List Char} (h : x.Course w)
    (hbefore : Balanced before) : (x.shift before.length).Course (before ++ w) := by
  cases h with
  | breaksOff hstrays herror hearly =>
      refine .breaksOff (strays_shift_eq_nil hstrays) (outcome_shift_of_error herror) ?_
      rw [List.drop_append, List.drop_of_length_le (Nat.le_add_right _ _), Nat.add_sub_cancel_left]
      exact hearly
  | meets hstrays hlate =>
      refine .meets ?_ ?_
      · rw [Excerpt.shift, hstrays, List.length_append]
        rfl
      · intro defect herror
        obtain ⟨found, hfound, rfl⟩ := outcome_shift_eq_error herror
        obtain ⟨hflaw, hbar⟩ := hlate found hfound
        exact ⟨hflaw, hbar.append hbefore⟩

/-- A defect of a stretch is found at a character that counts. -/
theorem position_lt_of_outcome_error {cs : List Char} {defect : Defect}
    (herror : (read visible none cs).outcome = .error defect) :
    defect.position < (visible cs).length := by
  obtain ⟨shown, hfault, -⟩ := firstFault_of_outcome_error herror
  exact hfault.position_lt_length

section Steps

variable {branch : Option Tree} {rest : List Char}

/-- A `|` in the content of a closed group is no `|` behind which all counts. -/
theorem visible_ne_of_content {content tail back : List Char} {i : Nat}
    (hbalanced : Balanced ('(' :: (content ++ tail))) (hcontent : visible content = content)
    (hi : i < content.length) (hback : ('(' :: (content ++ tail)).drop (1 + i) = '|' :: back) :
    visible back ≠ back := by
  intro hcounts
  have hsplit : content ++ tail = content.take (i + 1) ++ back := by
    rw [Nat.add_comm, List.drop_succ_cons] at hback
    have hnext := congrArg List.tail hback
    rw [List.tail_drop, List.tail_cons, List.drop_append_of_le_length hi] at hnext
    rw [← hnext, ← List.append_assoc, List.take_append_drop]
  have hwhole : visible (content.take (i + 1) ++ content.drop (i + 1)) =
      content.take (i + 1) ++ content.drop (i + 1) := by
    rwa [List.take_append_drop]
  have hgoesOn := visibleFrom_append_eq_self hwhole hcounts
  rw [hsplit] at hbalanced
  exact hbalanced.visible_ne_of_open hgoesOn

/-- A defect in the content of a group is found before the scope around the group ends. -/
theorem course_content {defect : Defect}
    (hclosed : (visible ('(' :: rest)).length < ('(' :: rest).length)
    (herror : (read counted none (counted rest)).outcome = .error defect) :
    ((read counted none (counted rest)).shift 1).Course (visible ('(' :: rest)) := by
  obtain ⟨tail, htail⟩ := exists_visible_open_eq rest
  have hbalanced := balanced_visible hclosed
  rw [read_counted_counted] at herror ⊢
  have hinside := position_lt_of_outcome_error herror
  rw [visible_counted] at hinside
  rw [htail] at hbalanced ⊢
  refine .breaksOff (strays_shift_eq_nil (strays_read_of_counts (visible_counted rest)))
    (outcome_shift_of_error herror) ?_
  intro back hback
  exact visible_ne_of_content hbalanced (visible_counted rest) hinside hback

/-- **A group** is passed over, or the reading breaks off in it. -/
theorem course_group (hends : (counted rest).length < rest.length)
    (hclosed : (visible ('(' :: rest)).length < ('(' :: rest).length)
    (hafter : ∀ inner, (visible (rest.drop ((counted rest).length + 1))).length <
        (rest.drop ((counted rest).length + 1)).length →
      (read counted (some (Tree.append branch (.group inner)))
        (rest.drop ((counted rest).length + 1))).Course
      (visible (rest.drop ((counted rest).length + 1)))) :
    (read counted branch ('(' :: rest)).Course (visible ('(' :: rest)) := by
  rw [read_open hends]
  cases hread : (read counted none (counted rest)).outcome with
  | error defect =>
      rw [andThen_of_error (outcome_shift_of_error hread)]
      exact course_content hclosed hread
  | ok found =>
      have hnone : ((read counted none (counted rest)).shift 1).strays = [] := by
        rw [read_counted_counted]
        exact strays_shift_eq_nil (strays_read_of_counts (visible_counted rest))
      rw [andThen_of_ok (outcome_shift_eq_ok.mpr hread), hnone]
      cases found with
      | none =>
          obtain ⟨tail, htail⟩ := exists_visible_open_eq rest
          exact .breaksOff rfl rfl (by simp [htail])
      | some inner =>
          -- what has been read is balanced, so it has not been cut short
          rw [read_counted_counted] at hread
          have hcontent := balanced_of_outcome_ok hread
          rw [visible_counted] at hcontent
          have hshallow : nesting rest + 1 < counterLimit :=
            Nat.lt_of_not_le fun hfull => not_balanced_counted hfull hcontent
          have hvisible := counted_eq_visible hshallow
          have hgroup : Balanced ('(' :: (counted rest ++ [')'])) := .nested hcontent .nil
          have hbehind := visible_open (hvisible ▸ hends)
          rw [hbehind] at hclosed ⊢
          rw [← hvisible] at hclosed ⊢
          have hcourse := (hafter inner (by simp at hclosed ⊢; omega)).shift hgroup
          simpa using hcourse

/-- **A bar** is passed over.  It is checked last, when the closer has been met. -/
theorem course_bar (hright : (read counted none rest).Course (visible rest)) :
    (read counted branch ('|' :: rest)).Course (visible ('|' :: rest)) := by
  have hcourse := hright.shift (.plain (by decide) (by decide) .nil : Balanced ['|'])
  rw [read_bar, visible_cons rest (by decide) (by decide)]
  cases hread : (read counted none rest).outcome with
  | error defect =>
      rw [andThen_of_error (outcome_shift_of_error hread)]
      exact hcourse
  | ok right =>
      cases hcourse with
      | breaksOff _ herror _ =>
          rw [outcome_shift_eq_ok.mpr hread] at herror
          cases herror
      | meets hstrays _ =>
          refine .meets ?_ ?_
          · rw [strays_andThen]
            · exact hstrays
            · intro found _
              cases branch <;> cases found <;> rfl
          · intro defect hdefect
            rw [outcome_andThen_of_ok (outcome_shift_eq_ok.mpr hread)] at hdefect
            have hempty : defect = ⟨.emptyExpression, 0⟩ := by
              cases branch <;> cases right <;> cases hdefect <;> rfl
            rw [hempty]
            exact ⟨rfl, [], visible rest, rfl, .nil, rfl⟩

/-- **Every reading of a closed stretch** breaks off in front of the closer or meets it. -/
theorem course_read (branch : Option Tree) {cs : List Char}
    (hclosed : (visible cs).length < cs.length) : (read counted branch cs).Course (visible cs) := by
  induction branch, cs using read.induct counted with
  | case1 branch => cases hclosed
  | case2 branch rest hends _ ihafter => exact course_group hends hclosed ihafter
  | case3 branch rest hopen =>
      have hcounts : counted rest = rest :=
        (counted_isPrefix rest).eq_of_length_le (Nat.not_lt.mp hopen)
      have hvisible : visible rest = rest := by
        rw [← hcounts, visible_counted]
      rw [visible_open_unclosed (by rw [hvisible]; exact Nat.lt_irrefl _)] at hclosed
      exact absurd hclosed (Nat.lt_irrefl _)
  | case4 branch rest _ =>
      rw [read_closer, visible_closer]
      exact .meets rfl (by simp)
  | case5 branch rest hopen hclose ih =>
      rw [visible_cons rest hopen hclose] at hclosed
      exact course_bar (ih (Nat.lt_of_succ_lt_succ hclosed))
  | case6 branch rest hnone hopen hclose _ =>
      rw [read_star_none hnone, visible_cons rest hopen hclose]
      exact .breaksOff rfl rfl (by simp)
  | case7 branch rest repeated hrepeat hopen hclose _ ih =>
      rw [visible_cons rest hopen hclose] at hclosed ⊢
      rw [read_star hrepeat]
      exact (ih (Nat.lt_of_succ_lt_succ hclosed)).shift (.plain hopen hclose .nil)
  | case8 branch c rest hopen hclose hbar hstar ih =>
      rw [visible_cons rest hopen hclose] at hclosed ⊢
      rw [read_char hopen hclose hbar hstar]
      exact (ih (Nat.lt_of_succ_lt_succ hclosed)).shift (.plain hopen hclose .nil)

end Steps

/-- A bar outside all groups shows its fault at the end of the text. -/
theorem shown_of_outerBar {w : List Char} {defect : Defect} {shown : Nat} (hw : visible w = w)
    (hfault : Fault w defect shown) (hbar : OuterBar w defect.position) : shown = w.length := by
  obtain ⟨front, back, rfl, hbalanced, hposition⟩ := hbar
  obtain ⟨flaw, position⟩ := defect
  dsimp only at hposition
  subst hposition
  rw [fault_iff, hbalanced.counts_behind_bar hw] at hfault
  rw [List.length_append, List.length_cons]
  grind

/-- A fault shows at the end of the text only at a bar behind which all of it counts. -/
theorem shown_lt_of_early {w : List Char} {defect : Defect} {shown : Nat}
    (hfault : Fault w defect shown)
    (hearly : ∀ back, w.drop defect.position = '|' :: back → visible back ≠ back) :
    shown < w.length := by
  have hinside := hfault.position_lt_length
  cases hfault with
  | unclosed => exact hinside
  | leadingStar => exact hinside
  | secondStar => exact hinside
  | emptyGroup hhere => simp [hhere]
  | @emptyAlternative front back hhere _ =>
      have hshort : ¬ back.length ≤ (visible back).length := by
        intro hlong
        refine hearly back ?_ ((visibleFrom_isPrefix 0 back).eq_of_length_le hlong)
        simp [hhere]
      rw [hhere, List.length_append, List.length_cons]
      omega

/-- No closer is met where all that is read counts, with a counter either. -/
theorem strays_read_counted_of_counts {cs : List Char} (hcounts : visible cs = cs) :
    (read counted none cs).strays = [] := by
  by_cases hshallow : nesting cs < counterLimit
  · rw [read_counted_eq hshallow]
    exact strays_read_of_counts hcounts
  · obtain ⟨defect, herror, -⟩ :=
      exists_read_counted_visible_eq_error none (Nat.not_lt.mp hshallow)
    rw [herror]

/-- A closer that is met is there, and is noted once, with its index. -/
theorem strays_read_eq {cs : List Char} (hmet : (read counted none cs).strays ≠ []) :
    (visible cs).length < cs.length ∧ (read counted none cs).strays = [(visible cs).length] := by
  by_cases hclosed : (visible cs).length < cs.length
  · cases course_read none hclosed with
    | breaksOff hstrays _ _ => exact absurd hstrays hmet
    | meets hstrays _ => exact ⟨hclosed, hstrays⟩
  · exact absurd (strays_read_counted_of_counts (visible_eq_self_of_not_closed hclosed)) hmet

/-- **The closer is met** exactly if there is one, a word can count the parentheses in front of
it, and no fault shows before it. -/
theorem strays_read_ne_nil_iff (cs : List Char) :
    (read counted none cs).strays ≠ [] ↔
      (visible cs).length < cs.length ∧ nesting cs < counterLimit ∧
        ∀ defect shown, Fault (visible cs) defect shown → (visible cs).length ≤ shown := by
  by_cases hshallow : nesting cs < counterLimit
  · by_cases hclosed : (visible cs).length < cs.length
    · have hcourse := course_read none hclosed
      rw [read_counted_eq hshallow] at hcourse ⊢
      cases hcourse with
      | breaksOff hstrays herror hearly =>
          obtain ⟨shown, hfault, -⟩ := firstFault_of_outcome_error herror
          have hbefore := shown_lt_of_early hfault hearly
          refine iff_of_false (fun hmet => hmet hstrays) ?_
          intro ⟨_, _, hlate⟩
          exact absurd (hlate _ shown hfault) (Nat.not_le.mpr hbefore)
      | meets hstrays hlate =>
          refine iff_of_true (by simp [hstrays]) ⟨hclosed, hshallow, ?_⟩
          intro defect shown hfault
          obtain ⟨found, herror⟩ := (exists_error_iff cs).mpr ⟨defect, shown, hfault⟩
          obtain ⟨first, hfound, hfirst⟩ := firstFault_of_outcome_error herror
          have hend := shown_of_outerBar (visible_visible cs) hfound (hlate found herror).2
          have hlater := hfirst defect shown hfault
          omega
    · exact iff_of_false (fun hmet => hclosed (strays_read_eq hmet).1) fun h => hclosed h.1
  · obtain ⟨defect, herror, -⟩ :=
      exists_read_counted_visible_eq_error none (Nat.not_lt.mp hshallow)
    exact iff_of_false (by simp [herror]) fun h => hshallow h.2.1

/-- **A defect is found behind the closer** exactly if it is a bar outside all groups. -/
theorem strays_read_ne_nil_iff_late {cs : List Char}
    (hclosed : (visible cs).length < cs.length) :
    (read counted none cs).strays ≠ [] ↔
      ∀ defect, (read counted none cs).outcome = .error defect →
        defect.flaw = .emptyExpression ∧ OuterBar (visible cs) defect.position := by
  cases course_read none hclosed with
  | breaksOff hstrays herror hearly =>
      refine iff_of_false (fun hmet => hmet hstrays) ?_
      intro hlate
      obtain ⟨front, back, hsplit, hbalanced, hposition⟩ := (hlate _ herror).2
      refine hearly back ?_ (hbalanced.counts_behind_bar ?_)
      · rw [hsplit, hposition, List.drop_left]
      · rw [← hsplit, visible_visible]
  | meets hstrays hlate => exact iff_of_true (by simp [hstrays]) hlate

/-- What stands behind a closer has no part in the outcome. -/
theorem outcome_read_append_closer {cs : List Char} (hbalanced : Balanced cs) (rest : List Char) :
    (read counted none (cs ++ ')' :: rest)).outcome = (read counted none cs).outcome := by
  rw [← outcome_read_counted_visible, hbalanced.visible_append_closer]

end Excerpt

theorem Reading.strays_ofPattern (pattern : String) :
    (Reading.ofPattern pattern).strays =
      (Excerpt.read counted none pattern.toList).strays.map fun i =>
        ⟨i, String.ofList (pattern.toList.drop (i + 1))⟩ := by
  rw [Reading.ofPattern_eq_place, Excerpt.place]
  simp

/-- **A stray closer hides everything after it.**  A pattern that goes on behind a balanced
one with a `)` is read as the balanced one, with the same tree or the same defect, whatever
follows.  The reading of any pattern notes one stray closer at most, with its index and the
text behind it.  It notes one exactly if there is one, a word can count the parentheses that
are open in front of it, and no fault of what stands before it shows before it is met; and
that is so exactly if the pattern has no defect, or has an empty alternative at a `|` outside
all groups, which is found only then. -/
theorem stray_closer_hides_the_rest :
    (∀ q s : String, Balanced q.toList →
      Tree.ofPattern (q ++ ")" ++ s) =
        match Tree.ofPattern q with
        | .ok tree => .ok tree
        | .error e => .error ⟨e.toDefect, q ++ ")" ++ s⟩) ∧
    ∀ pattern : String,
      ((Reading.ofPattern pattern).strays = [] ∨
        ∃ rest, pattern.toList = visible pattern.toList ++ ')' :: rest ∧
          (Reading.ofPattern pattern).strays =
            [⟨(visible pattern.toList).length, String.ofList rest⟩]) ∧
      ((Reading.ofPattern pattern).strays ≠ [] ↔
        (visible pattern.toList).length < pattern.toList.length ∧
          nesting pattern.toList < counterLimit ∧
          ∀ defect shown, Fault (visible pattern.toList) defect shown →
            (visible pattern.toList).length ≤ shown) ∧
      ((Reading.ofPattern pattern).strays ≠ [] ↔
        (visible pattern.toList).length < pattern.toList.length ∧
          ∀ e, Tree.ofPattern pattern = .error e →
            e.flaw = .emptyExpression ∧ OuterBar (visible pattern.toList) e.position) := by
  refine ⟨?_, ?_⟩
  · intro q s hbalanced
    have hsame := Excerpt.outcome_read_append_closer hbalanced s.toList
    have hlist : (q ++ ")" ++ s).toList = q.toList ++ ')' :: s.toList := by simp
    rw [Tree.ofPattern_eq, Tree.ofPattern_eq, hlist, hsame]
    cases (Excerpt.read counted none q.toList).outcome with
    | ok tree => rfl
    | error defect => rfl
  · intro pattern
    have hmap : (Reading.ofPattern pattern).strays ≠ [] ↔
        (Excerpt.read counted none pattern.toList).strays ≠ [] := by
      rw [Reading.strays_ofPattern, ne_eq, List.map_eq_nil_iff]
    refine ⟨?_, hmap.trans (Excerpt.strays_read_ne_nil_iff _), ?_⟩
    · by_cases hnone : (Reading.ofPattern pattern).strays = []
      · exact Or.inl hnone
      · obtain ⟨hclosed, hstrays⟩ := Excerpt.strays_read_eq (hmap.mp hnone)
        refine Or.inr ⟨_, (visible_append_drop hclosed).symm, ?_⟩
        rw [Reading.strays_ofPattern, hstrays]
        rfl
    · by_cases hclosed : (visible pattern.toList).length < pattern.toList.length
      · rw [hmap, Excerpt.strays_read_ne_nil_iff_late hclosed]
        simp only [hclosed, true_and, Tree.ofPattern_eq_error_iff]
        constructor
        · intro hlate e herror
          exact hlate e.toDefect herror.1
        · intro hlate defect herror
          exact hlate ⟨defect, pattern⟩ ⟨herror, rfl⟩
      · exact iff_of_false (fun hmet => hclosed (Excerpt.strays_read_eq (hmap.mp hmet)).1)
          fun h => hclosed h.1

/-- The closer is noted, and the bar in front of it is at fault; what follows would not even
be a pattern. -/
theorem stray_closer_hides_the_rest_bar :
    let pattern := "a|" ++ ")" ++ "(*"
    Tree.ofPattern pattern = .error ⟨⟨.emptyExpression, 1⟩, pattern⟩ ∧
      (Reading.ofPattern pattern).strays ≠ [] ∧ OuterBar (visible pattern.toList) 1 := by
  intro pattern
  obtain ⟨hhidden, hnoted⟩ := stray_closer_hides_the_rest
  have hbalanced : Balanced "a|".toList := .plain (by decide) (by decide)
    (.plain (by decide) (by decide) .nil)
  have hread : Tree.ofPattern "a|" = .error ⟨⟨.emptyExpression, 1⟩, "a|"⟩ := by
    cbv
  have hmet : (Reading.ofPattern pattern).strays ≠ [] := by
    decide +kernel
  have herror := hhidden "a|" "(*" hbalanced
  rw [hread] at herror
  exact ⟨herror, hmet, (((hnoted pattern).2.2.mp hmet).2 _ herror).2⟩

end PatternAutomata
