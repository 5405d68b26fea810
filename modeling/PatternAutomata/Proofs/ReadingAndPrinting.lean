import PatternAutomata.Proofs.CountedReading

/-!
# Which patterns are read, and as which trees

A tree that is read is shaped and printed as the part of the pattern that counts, and a
shaped tree is read from its printed form, if a word can count the parentheses of that.
How deep they are nested is seen from the tree: as deep as its groups
(`Tree.nesting_spelling`).

`Tree.reading_inverts_printing` is the exact statement.  Where the groups are nested too
deep, a shaped tree is not recovered from its printed form, which is reported as defective
(`Tree.deep_groups_are_not_recovered`).
-/

namespace PatternAutomata

namespace Tree

/-- A tree is printed with its parentheses nested as deep as its groups. -/
theorem nesting_spelling {t : Tree} (hplain : t.IsPlain) : nesting t.spelling = t.groupDepth := by
  induction t with
  | char c =>
      obtain ⟨hopen, hclose, -⟩ := isReserved_eq_false_iff.mp (hplain c List.mem_cons_self)
      rw [spelling, nesting_cons [] hopen hclose]
      rfl
  | union left right ihl ihr =>
      obtain ⟨hleft, hright⟩ := List.forall_mem_append.mp hplain
      rw [spelling, nesting, (balanced_spelling hleft).crest_append,
        crest_cons _ _ (by decide) (by decide)]
      exact congr (congrArg max (ihl hleft)) (ihr hright)
  | concat left right ihl ihr =>
      obtain ⟨hleft, hright⟩ := List.forall_mem_append.mp hplain
      rw [spelling, nesting, (balanced_spelling hleft).crest_append]
      exact congr (congrArg max (ihl hleft)) (ihr hright)
  | star inner ih =>
      have hinner : Balanced inner.spelling := balanced_spelling hplain
      rw [spelling, nesting, hinner.crest_append,
        crest_cons _ _ (by decide) (by decide), crest_nil, Nat.max_zero]
      exact ih hplain
  | group inner ih =>
      have hinner : Balanced inner.spelling := balanced_spelling hplain
      rw [spelling, nesting, crest_open, hinner.crest_append,
        crest_succ_of_eq_self hinner.visible_eq, crest_close_succ, crest_nil, groupDepth,
        ← ih hplain]
      exact Nat.max_eq_left (Nat.succ_le_succ (Nat.zero_le _))

/-- The pattern of which a shaped tree is the printed form is nested as deep as the groups of
the tree. -/
theorem Shaped.nesting_eq {t : Tree} {pattern : String} (hshape : Shaped .expression t)
    (htext : t.text.toList = visible pattern.toList) :
    nesting pattern.toList = t.groupDepth := by
  rw [← nesting_visible, ← htext, toList_text, nesting_spelling hshape.isPlain]

/-- A pattern is read as a tree exactly if the tree is shaped, has not too many groups inside
each other, and is printed as the part of the pattern that counts. -/
theorem ofPattern_eq_some_iff_groupDepth (pattern : String) (t : Tree) :
    ofPattern pattern = .ok (some t) ↔
      Shaped .expression t ∧ t.text.toList = visible pattern.toList ∧
        t.groupDepth < counterLimit := by
  rw [ofPattern_eq_some_iff]
  refine and_congr_right fun hshape => and_congr_right fun htext => ?_
  rw [hshape.nesting_eq htext]

/-- A printed form is read as its tree exactly if the tree is shaped and has not too many groups
inside each other. -/
theorem ofPattern_text_iff (t : Tree) :
    ofPattern t.text = .ok (some t) ↔ Shaped .expression t ∧ t.groupDepth < counterLimit := by
  rw [ofPattern_eq_some_iff_groupDepth, toList_text]
  refine and_congr_right fun hshape => and_iff_right hshape.balanced.visible_eq.symm

/-- **Reading and printing are inverse** as far as a word can count parentheses.  The trees that
are read are the shaped ones with fewer than `2 ^ 31` groups inside each other, each from
exactly those patterns of which its printed form is the part that counts. -/
theorem reading_inverts_printing (pattern : String) (t : Tree) :
    (ofPattern pattern = .ok (some t) ↔
      Shaped .expression t ∧ t.text.toList = visible pattern.toList ∧
        t.groupDepth < counterLimit) ∧
    (ofPattern pattern = .ok none ↔ visible pattern.toList = []) ∧
    (ofPattern t.text = .ok (some t) ↔ Shaped .expression t ∧ t.groupDepth < counterLimit) :=
  ⟨ofPattern_eq_some_iff_groupDepth pattern t, ofPattern_eq_none_iff pattern,
    ofPattern_text_iff t⟩

section Deep

variable {t : Tree} {n : Nat}

theorem spelling_repeat_group (n : Nat) (t : Tree) :
    (Nat.repeat group n t).spelling =
      List.replicate n '(' ++ (t.spelling ++ List.replicate n ')') := by
  induction n with
  | zero => simp [Nat.repeat]
  | succ n ih =>
      rw [Nat.repeat, spelling, ih, List.replicate_succ, List.replicate_succ' (a := ')')]
      simp

theorem shaped_repeat_group (hshape : Shaped .expression t) (n : Nat) :
    Shaped .expression (Nat.repeat group n t) := by
  induction n with
  | zero => exact hshape
  | succ n ih => exact .ofBranch (.first (.group ih))

/-- The printed form of a tree in as many groups as a word cannot count is not read. -/
theorem ofPattern_text_repeat_group (t : Tree) :
    ofPattern (Nat.repeat group counterLimit t).text =
      .error ⟨⟨.unmatchedParenthesis, 1⟩, (Nat.repeat group counterLimit t).text⟩ := by
  apply ofPattern_of_replicate_open
  rw [toList_text, spelling_repeat_group]
  exact List.prefix_append _ _

/-- **Deep groups are not recovered.**  A literal in `2 ^ 31` groups is a shaped tree, and its
printed form counts in full, but it is not read as that tree: the second parenthesis is
reported as unmatched. -/
theorem deep_groups_are_not_recovered :
    ∃ t pattern, t = Nat.repeat group counterLimit (char 'a') ∧
      pattern.toList =
        List.replicate counterLimit '(' ++ (['a'] ++ List.replicate counterLimit ')') ∧
      Shaped .expression t ∧ t.text.toList = visible pattern.toList ∧
      ofPattern pattern = .error ⟨⟨.unmatchedParenthesis, 1⟩, pattern⟩ := by
  have hshape : Shaped .expression (Nat.repeat group counterLimit (char 'a')) :=
    shaped_repeat_group (.ofBranch (.first (.char rfl))) counterLimit
  refine ⟨_, (Nat.repeat group counterLimit (char 'a')).text, rfl, ?_, hshape, ?_, ?_⟩
  · rw [toList_text]
    exact spelling_repeat_group counterLimit (char 'a')
  · rw [toList_text]
    exact hshape.balanced.visible_eq.symm
  · exact ofPattern_text_repeat_group (char 'a')

end Deep

end Tree

end PatternAutomata
