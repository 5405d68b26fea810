import PatternAutomata.Proofs.PrintedForms

/-!
# Reading with a counter

The content of a group is found by counting parentheses, and the count is kept in a word.
While a word can count the parentheses that are open, this makes no difference
(`Excerpt.read_counted_eq`).

Otherwise some group is cut short at one of the parentheses in it.  Nothing can be read
from such a content, since not all that is opened in it is closed, and so the reading ends
with a defect (`Excerpt.fails_of_overfull`).  A pattern is therefore read exactly
if it could be read with a counter without bounds, and is not nested deeper than a word can
count (`Tree.ofPattern_eq_ok_iff_nesting`).
-/

namespace PatternAutomata

namespace Excerpt

variable {branch : Option Tree} {rest w : List Char}

/-- What has been read as a tree, or as none, has parentheses that pair up. -/
theorem balanced_of_outcome_ok {cs : List Char} {tree : Option Tree}
    (hok : (read visible none cs).outcome = .ok tree) : Balanced (visible cs) := by
  obtain ⟨hwritten, hshape⟩ := shaped_of_read hok (by simp)
  rw [Tree.written, List.nil_append] at hwritten
  rw [← hwritten]
  cases tree with
  | none => exact .nil
  | some t => exact (hshape t rfl).balanced

/-- What the search for a closer passes over is read with the contents that the parentheses
give. -/
theorem read_counted_counted (rest : List Char) :
    read counted branch (counted rest) = read visible branch (counted rest) :=
  read_counted_eq (Nat.lt_of_succ_lt (nesting_counted_lt rest))

/-- **A content that has been cut short cannot be read.** -/
theorem exists_read_counted_of_overfull (hfull : counterLimit ≤ nesting rest + 1) :
    ∃ defect, read counted none (counted rest) = ⟨[], .error defect⟩ := by
  rw [read_counted_counted]
  have hstrays : (read visible none (counted rest)).strays = [] :=
    strays_read_of_counts (visible_counted rest)
  cases hread : (read visible none (counted rest)).outcome with
  | ok tree =>
      have hbalanced := balanced_of_outcome_ok hread
      rw [visible_counted] at hbalanced
      exact absurd hbalanced (not_balanced_counted hfull)
  | error defect => exact ⟨defect, by rw [← hstrays, ← hread]⟩

/-- A text is read with one defect, whatever follows that does not count, and its reading meets
no closer. -/
def Fails (branch : Option Tree) (w : List Char) : Prop :=
  ∃ defect, ∀ more, visible more = [] → read counted branch (w ++ more) = ⟨[], .error defect⟩

/-- A text fails where its first character is passed over and what follows fails. -/
theorem fails_of_step {later : Option Tree} {c : Char} (h : Fails later rest)
    (hstep : ∀ defect back, read counted later back = ⟨[], .error defect⟩ →
      read counted branch (c :: back) = ⟨[], .error ⟨defect.flaw, 1 + defect.position⟩⟩) :
    Fails branch (c :: rest) := by
  obtain ⟨defect, herror⟩ := h
  exact ⟨_, fun more hmore => hstep defect (rest ++ more) (herror more hmore)⟩

/-- A group that is nested too deep is cut short, whatever follows. -/
theorem fails_open_of_overfull (branch : Option Tree) (hfull : counterLimit ≤ nesting rest + 1) :
    Fails branch ('(' :: rest) := by
  obtain ⟨defect, herror⟩ := exists_read_counted_of_overfull hfull
  have hlength := length_counted_lt hfull
  refine ⟨⟨defect.flaw, 1 + defect.position⟩, fun more _ => ?_⟩
  refine read_open_of_error (length_counted_append_lt more hlength) ?_
  rw [counted_append more hlength]
  exact herror

/-- A group that is not nested too deep is passed over, or has a defect; so it fails if what
follows it fails. -/
theorem fails_open_of_after (branch : Option Tree)
    (hclosed : (visible rest).length < rest.length)
    (hshallow : nesting rest + 1 < counterLimit)
    (hafter : ∀ inner, Fails (some (Tree.append branch (.group inner)))
      (rest.drop ((visible rest).length + 1))) : Fails branch ('(' :: rest) := by
  rw [← counted_eq_visible hshallow] at hclosed hafter
  have hcontent : ∀ more, counted (rest ++ more) = counted rest :=
    fun more => counted_append more hclosed
  have hclosed' : ∀ more, (counted (rest ++ more)).length < (rest ++ more).length :=
    fun more => length_counted_append_lt more hclosed
  have hstrays : (read counted none (counted rest)).strays = [] := by
    rw [read_counted_counted, counted_eq_visible hshallow]
    exact strays_read_of_counts (visible_visible rest)
  cases hread : (read counted none (counted rest)).outcome with
  | error defect =>
      refine ⟨⟨defect.flaw, 1 + defect.position⟩, fun more _ => ?_⟩
      refine read_open_of_error (hclosed' more) ?_
      rw [hcontent, ← hstrays, ← hread]
  | ok found =>
      have hfound : ∀ more, read counted none (counted (rest ++ more)) = ⟨[], .ok found⟩ := by
        intro more
        rw [hcontent, ← hstrays, ← hread]
      cases found with
      | none =>
          exact ⟨⟨.emptyExpression, 0⟩, fun more _ =>
            read_open_of_none (hclosed' more) (hfound more)⟩
      | some inner =>
          obtain ⟨defect, herror⟩ := hafter inner
          refine ⟨⟨defect.flaw, (counted rest).length + 2 + defect.position⟩, fun more hmore => ?_⟩
          rw [List.cons_append, read_open_of_some (hclosed' more) (hfound more), hcontent,
            List.drop_append_of_le_length hclosed]
          exact congrArg (shift _) (herror more hmore)

/-- **A text that is nested too deep fails.** -/
theorem fails_of_overfull (branch : Option Tree) (hcounts : visible w = w)
    (hdeep : counterLimit ≤ nesting w) : Fails branch w := by
  -- the contents of groups are not followed: they are nested less deep than what is cut short
  induction branch, w using read.induct visible with
  | case1 branch => cases hdeep
  | case2 branch rest hclosed _ ihafter =>
      by_cases hfull : counterLimit ≤ nesting rest + 1
      · exact fails_open_of_overfull branch hfull
      · rw [visible_open hclosed] at hcounts
        have hsame := (List.cons.inj hcounts).2.trans (visible_append_drop hclosed).symm
        have hafter := (List.cons.inj (List.append_cancel_left hsame)).2
        rw [nesting_open hclosed] at hdeep
        exact fails_open_of_after branch hclosed (by omega) fun inner =>
          ihafter inner hafter (by omega)
  | case3 branch rest hopen =>
      rw [nesting_open_unclosed hopen] at hdeep
      exact fails_open_of_overfull branch hdeep
  | case4 branch rest _ =>
      rw [visible_closer] at hcounts
      cases hcounts
  | case5 branch rest hopen hclose ih =>
      rw [visible_cons rest hopen hclose] at hcounts
      rw [nesting_cons rest hopen hclose] at hdeep
      refine fails_of_step (ih (List.cons.inj hcounts).2 hdeep) fun defect back herror => ?_
      rw [read_bar, herror]
      rfl
  | case6 branch rest hnone _ _ _ =>
      exact ⟨⟨.nothingToRepeat, 0⟩, fun more _ => read_star_none hnone⟩
  | case7 branch rest repeated hrepeat hopen hclose _ ih =>
      rw [visible_cons rest hopen hclose] at hcounts
      rw [nesting_cons rest hopen hclose] at hdeep
      refine fails_of_step (ih (List.cons.inj hcounts).2 hdeep) fun defect back herror => ?_
      rw [read_star hrepeat, herror]
      rfl
  | case8 branch c rest hopen hclose hbar hstar ih =>
      rw [visible_cons rest hopen hclose] at hcounts
      rw [nesting_cons rest hopen hclose] at hdeep
      refine fails_of_step (ih (List.cons.inj hcounts).2 hdeep) fun defect back herror => ?_
      rw [read_char hopen hclose hbar hstar, herror]
      rfl

/-- A stretch that is nested too deep has the defect of the part that counts, and its reading
meets no closer. -/
theorem exists_read_counted_visible_eq_error (branch : Option Tree) {cs : List Char}
    (hdeep : counterLimit ≤ nesting cs) :
    ∃ defect, read counted branch cs = ⟨[], .error defect⟩ ∧
      read counted branch (visible cs) = ⟨[], .error defect⟩ := by
  obtain ⟨back, hback, hrest⟩ := exists_visible_append cs
  rw [← nesting_visible] at hdeep
  obtain ⟨defect, herror⟩ := fails_of_overfull branch (visible_visible cs) hdeep
  have hwhole := herror back hrest
  have hfront := herror [] rfl
  rw [← hback] at hwhole
  rw [List.append_nil] at hfront
  exact ⟨defect, hwhole, hfront⟩

/-- **What does not count has no part in the outcome**, with a counter either. -/
theorem outcome_read_counted_visible (branch : Option Tree) (cs : List Char) :
    (read counted branch (visible cs)).outcome = (read counted branch cs).outcome := by
  by_cases hshallow : nesting cs < counterLimit
  · rw [read_counted_eq hshallow, read_counted_eq (by rwa [nesting_visible]),
      outcome_read_visible]
  · obtain ⟨defect, hwhole, hfront⟩ :=
      exists_read_counted_visible_eq_error branch (Nat.not_lt.mp hshallow)
    rw [hwhole, hfront]

/-- **What is read with a counter** is what is read without bounds and is not nested too
deep. -/
theorem outcome_read_counted_eq_ok_iff {cs : List Char} {tree : Option Tree} :
    (read counted branch cs).outcome = .ok tree ↔
      (read visible branch cs).outcome = .ok tree ∧ nesting cs < counterLimit := by
  by_cases hshallow : nesting cs < counterLimit
  · rw [read_counted_eq hshallow]
    simp [hshallow]
  · obtain ⟨defect, herror, -⟩ :=
      exists_read_counted_visible_eq_error branch (Nat.not_lt.mp hshallow)
    simp [herror, hshallow]

/-- The first of some opening parentheses is not closed. -/
theorem read_visible_replicate_open (branch : Option Tree) (n : Nat) :
    read visible branch (List.replicate (n + 1) '(') =
      ⟨[], .error ⟨.unmatchedParenthesis, 0⟩⟩ := by
  rw [List.replicate_succ]
  apply read_open_unclosed
  rw [visible_replicate_open]
  exact Nat.lt_irrefl _

/-- So it is in the content that is cut short. -/
theorem read_counted_row {n : Nat} (hn : n + 1 + 2 = counterLimit) :
    read counted none (List.replicate (n + 1) '(') = ⟨[], .error ⟨.unmatchedParenthesis, 0⟩⟩ := by
  rw [← counted_replicate_open hn [], read_counted_counted, counted_replicate_open hn]
  exact read_visible_replicate_open none n

/-- **As many parentheses as a word cannot count**, opened right behind each other, have the
second one for a defect, whatever follows: the content of the first is cut short. -/
theorem read_counted_replicate_open (branch : Option Tree) (back : List Char) :
    read counted branch (List.replicate counterLimit '(' ++ back) =
      ⟨[], .error ⟨.unmatchedParenthesis, 1⟩⟩ := by
  obtain ⟨n, hn⟩ : ∃ n, n + 1 + 2 = counterLimit := ⟨counterLimit - 3, rfl⟩
  have hrow : List.replicate counterLimit '(' ++ back =
      '(' :: (List.replicate (n + 1) '(' ++ '(' :: back) := by
    rw [← hn, List.replicate_succ, List.replicate_succ', List.cons_append, List.append_assoc]
    rfl
  have hcontent : counted (List.replicate (n + 1) '(' ++ '(' :: back) =
      List.replicate (n + 1) '(' := counted_replicate_open hn back
  rw [hrow]
  refine read_open_of_error ?_ (hcontent.symm ▸ read_counted_row hn)
  rw [hcontent, List.length_append, List.length_cons]
  omega

end Excerpt

namespace Tree

variable {pattern : String}

theorem ofPattern_eq_ok_iff_nesting (pattern : String) (tree : Option Tree) :
    ofPattern pattern = .ok tree ↔
      (Excerpt.read visible none pattern.toList).outcome = .ok tree ∧
        nesting pattern.toList < counterLimit := by
  rw [ofPattern_eq_ok_iff, Excerpt.outcome_read_counted_eq_ok_iff]

/-- The defect of a pattern that is not nested too deep is the one of its characters. -/
theorem ofPattern_eq_error_iff_of_shallow (hshallow : nesting pattern.toList < counterLimit)
    (e : PatternError) :
    ofPattern pattern = .error e ↔
      (Excerpt.read visible none pattern.toList).outcome = .error e.toDefect ∧
        e.pattern = pattern := by
  rw [ofPattern_eq_error_iff, Excerpt.read_counted_eq hshallow]

/-- A pattern that is nested too deep cannot be read. -/
theorem exists_ofPattern_eq_error (hdeep : counterLimit ≤ nesting pattern.toList) :
    ∃ e, ofPattern pattern = .error e := by
  obtain ⟨defect, herror, -⟩ := Excerpt.exists_read_counted_visible_eq_error none hdeep
  exact ⟨⟨defect, pattern⟩, (ofPattern_eq_error_iff pattern _).mpr ⟨by rw [herror], rfl⟩⟩

theorem ofPattern_of_replicate_open
    (hpattern : List.replicate counterLimit '(' <+: pattern.toList) :
    ofPattern pattern = .error ⟨⟨.unmatchedParenthesis, 1⟩, pattern⟩ := by
  obtain ⟨back, hback⟩ := hpattern
  rw [ofPattern_eq_error_iff, ← hback, Excerpt.read_counted_replicate_open]
  exact ⟨rfl, rfl⟩

/-- A pattern is read as a tree exactly if the tree is shaped and printed as the part of
the pattern that counts, and the pattern is not nested too deep. -/
theorem ofPattern_eq_some_iff (pattern : String) (t : Tree) :
    ofPattern pattern = .ok (some t) ↔
      Shaped .expression t ∧ t.text.toList = visible pattern.toList ∧
        nesting pattern.toList < counterLimit := by
  rw [ofPattern_eq_ok_iff_nesting, Excerpt.outcome_read_eq_some_iff, toList_text, and_assoc]

/-- A pattern has no tree exactly if nothing of it counts. -/
theorem ofPattern_eq_none_iff (pattern : String) :
    ofPattern pattern = .ok none ↔ visible pattern.toList = [] := by
  rw [ofPattern_eq_ok_iff_nesting, Excerpt.outcome_read_eq_none_iff, and_iff_left_iff_imp]
  intro hnone
  rw [← nesting_visible, hnone]
  decide

end Tree

end PatternAutomata
