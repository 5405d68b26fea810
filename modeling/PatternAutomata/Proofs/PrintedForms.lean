import PatternAutomata.Pattern.Balanced
import PatternAutomata.Pattern.Shape
import PatternAutomata.Proofs.StretchReading

/-!
# Printed forms

A tree that has been read, with contents of groups as the parentheses give them, is
shaped, and it is printed as the part of the pattern that counts
(`Excerpt.shaped_of_read`): the branch read so far, printed, always stands before
what is left to read.

Conversely the printed form of a shaped tree is read as that tree.  What this
means differs from rank to rank (`Excerpt.Recovers`).  A unit is added to any
branch whatever follows it, a repeated part only to a branch that is there, and
an expression ends where its scope ends.  The parentheses of a printed form pair
up, so the content of a group is cut out unharmed.
-/

namespace PatternAutomata

namespace Tree

/-- The characters of a branch that may be missing. -/
def written : Option Tree → List Char
  | none => []
  | some t => t.spelling

@[simp] theorem spelling_append (branch : Option Tree) (last : Tree) :
    (append branch last).spelling = written branch ++ last.spelling := by
  cases branch with
  | none => rfl
  | some front => rfl

theorem shaped_append {branch : Option Tree} {last : Tree}
    (hbranch : ∀ front, branch = some front → Shaped .branch front) (hlast : Shaped .unit last) :
    Shaped .branch (append branch last) := by
  cases branch with
  | none => exact .first hlast
  | some front => exact .concat (hbranch front rfl) (.ofUnit hlast)

theorem spelling_repeatLast {branch : Option Tree} {repeated : Tree}
    (hrepeat : repeatLast branch = some repeated) :
    repeated.spelling = written branch ++ ['*'] := by
  unfold repeatLast at hrepeat
  split at hrepeat
  · cases hrepeat
  · cases hrepeat
  · cases hrepeat
    simp [written, spelling]
  · cases hrepeat
    rfl

theorem repeatLast_unit {u : Tree} (hunit : Shaped .unit u) :
    repeatLast (some u) = some (.star u) := by
  cases hunit with
  | char hliteral => rfl
  | group inner => rfl

/-- The star goes to the last unit of a branch. -/
theorem shaped_repeatLast {branch : Option Tree} {repeated : Tree}
    (hbranch : ∀ front, branch = some front → Shaped .branch front)
    (hrepeat : repeatLast branch = some repeated) : Shaped .branch repeated := by
  cases branch with
  | none => cases hrepeat
  | some front =>
      cases hbranch front rfl with
      | first hunit =>
          rw [repeatLast_unit hunit] at hrepeat
          cases hrepeat
          exact .firstStar hunit
      | firstStar hunit => cases hrepeat
      | concat hleft hright =>
          cases hrepeat
          exact .concat hleft (.again hright)

/-- The parentheses of a printed form pair up, if none of them is a literal. -/
theorem balanced_spelling {t : Tree} (hplain : t.IsPlain) : Balanced t.spelling := by
  induction t with
  | char c =>
      obtain ⟨hopen, hclose, -⟩ := isReserved_eq_false_iff.mp (hplain c List.mem_cons_self)
      exact .plain hopen hclose .nil
  | union left right ihl ihr =>
      obtain ⟨hleft, hright⟩ := List.forall_mem_append.mp hplain
      exact (ihl hleft).append (.plain (by decide) (by decide) (ihr hright))
  | concat left right ihl ihr =>
      obtain ⟨hleft, hright⟩ := List.forall_mem_append.mp hplain
      exact (ihl hleft).append (ihr hright)
  | star inner ih => exact (ih hplain).append (.plain (by decide) (by decide) .nil)
  | group inner ih => exact .nested (ih hplain) .nil

/-- The literals of a shaped tree have no meaning of their own. -/
theorem Shaped.isPlain {rank : Rank} {t : Tree} (h : Shaped rank t) : t.IsPlain := by
  induction h with
  | char hliteral => simpa [IsPlain, letters] using hliteral
  | group _ ih => exact ih
  | ofUnit _ ih => exact ih
  | again _ ih => exact ih
  | first _ ih => exact ih
  | firstStar _ ih => exact ih
  | concat _ _ ihfront ihlast => exact List.forall_mem_append.mpr ⟨ihfront, ihlast⟩
  | ofBranch _ ih => exact ih
  | union _ _ ihfront ihothers => exact List.forall_mem_append.mpr ⟨ihfront, ihothers⟩

/-- The parentheses of a shaped tree pair up. -/
theorem Shaped.balanced {rank : Rank} {t : Tree} (h : Shaped rank t) : Balanced t.spelling :=
  balanced_spelling h.isPlain

end Tree

namespace Excerpt

/-- A successful reading prints as what was read before it and the part of the stretch
that counts. -/
theorem shaped_of_read {branch : Option Tree} {cs : List Char} {tree : Option Tree}
    (hok : (read visible branch cs).outcome = .ok tree)
    (hbranch : ∀ front, branch = some front → Tree.Shaped .branch front) :
    Tree.written tree = Tree.written branch ++ visible cs ∧
      ∀ t, tree = some t → Tree.Shaped .expression t := by
  fun_induction read visible branch cs generalizing tree with
  | case1 branch =>
      cases hok
      refine ⟨by simp, ?_⟩
      intro t ht
      exact .ofBranch (hbranch t ht)
  | case2 branch rest hclosed ihinner ihrest =>
      obtain ⟨found, hinner, hrest⟩ := outcome_andThen_eq_ok.mp hok
      rw [outcome_shift_eq_ok] at hinner
      obtain ⟨hspelling, hshape⟩ := ihinner hinner (by simp)
      cases found with
      | none => cases hrest
      | some inner =>
          have hgroup := Tree.Shaped.group (hshape inner rfl)
          dsimp only at hrest
          rw [outcome_shift_eq_ok] at hrest
          obtain ⟨hwritten, htree⟩ := ihrest inner hrest (by
            intro front hfront
            cases hfront
            exact Tree.shaped_append hbranch hgroup)
          refine ⟨?_, htree⟩
          have hcontent : inner.spelling = visible rest := by
            rw [visible, ← visibleFrom_visibleFrom]
            simpa [Tree.written, visible] using hspelling
          rw [hwritten, visible_open hclosed]
          simp [Tree.written, Tree.spelling, hcontent]
  | case3 branch rest hopen => cases hok
  | case4 branch rest hopen =>
      cases hok
      refine ⟨by simp, ?_⟩
      intro t ht
      exact .ofBranch (hbranch t ht)
  | case5 branch rest _ _ ih =>
      obtain ⟨found, hright, hunion⟩ := outcome_andThen_eq_ok.mp hok
      rw [outcome_shift_eq_ok] at hright
      obtain ⟨hwritten, hshape⟩ := ih hright (by simp)
      cases branch with
      | none => cases hunion
      | some left =>
          cases found with
          | none => cases hunion
          | some right =>
              cases hunion
              rw [Tree.written, Tree.written, List.nil_append] at hwritten
              refine ⟨?_, ?_⟩
              · rw [visible_cons rest (by decide) (by decide), ← hwritten]
                rfl
              · intro t ht
                cases ht
                exact .union (hbranch left rfl) (hshape right rfl)
  | case6 branch rest => cases hok
  | case7 branch rest repeated hstar _ _ _ ih =>
      rw [outcome_shift_eq_ok] at hok
      obtain ⟨hwritten, hshape⟩ := ih hok (by
        intro front hfront
        cases hfront
        exact Tree.shaped_repeatLast hbranch hstar)
      refine ⟨?_, hshape⟩
      rw [hwritten, Tree.written, Tree.spelling_repeatLast hstar,
        visible_cons rest (by decide) (by decide)]
      simp
  | case8 branch c rest hopen hclose hbar hstar ih =>
      rw [outcome_shift_eq_ok] at hok
      have hliteral := isReserved_eq_false_iff.mpr ⟨hopen, hclose, hbar, hstar⟩
      obtain ⟨hwritten, hshape⟩ := ih hok (by
        intro front hfront
        cases hfront
        exact Tree.shaped_append hbranch (.char hliteral))
      refine ⟨?_, hshape⟩
      rw [hwritten, visible_cons rest hopen hclose]
      simp [Tree.written, Tree.spelling]

/-- What reading makes of the printed form of a tree, rank by rank.  What is read before
it and what follows it are arbitrary, but an expression extends to the end of its scope. -/
def Recovers : Rank → Tree → Prop
  | .unit, u => ∀ branch rest tree,
      (read visible (some (Tree.append branch u)) rest).outcome = .ok tree →
      (read visible branch (u.spelling ++ rest)).outcome = .ok tree
  | .repeated, s => ∀ front rest tree,
      (read visible (some (.concat front s)) rest).outcome = .ok tree →
      (read visible (some front) (s.spelling ++ rest)).outcome = .ok tree
  | .branch, b => ∀ rest tree, (read visible (some b) rest).outcome = .ok tree →
      (read visible none (b.spelling ++ rest)).outcome = .ok tree
  | .expression, e => ∀ rest, visible rest = [] →
      (read visible none (e.spelling ++ rest)).outcome = .ok (some e)

/-- Where nothing counts, the branch read so far is all there is. -/
theorem outcome_read_of_visible_eq_nil {branch : Option Tree} {rest : List Char}
    (hrest : visible rest = []) : (read visible branch rest).outcome = .ok branch := by
  rcases visible_eq_nil_iff.mp hrest with hnil | ⟨others, hcloser⟩
  · rw [hnil, read_nil]
  · rw [hcloser, read_closer]

theorem recovers_group {e : Tree} (hshape : Tree.Shaped .expression e)
    (hinner : Recovers .expression e) : Recovers .unit (.group e) := by
  intro branch rest tree hrest
  have hcontent : visible (e.spelling ++ ')' :: rest) = e.spelling :=
    hshape.balanced.visible_append_closer rest
  have hclosed : (visible (e.spelling ++ ')' :: rest)).length
      < (e.spelling ++ ')' :: rest).length := by
    rw [hcontent]
    simp
  have hself : (read visible none e.spelling).outcome = .ok (some e) := by
    have hread := hinner [] rfl
    rwa [List.append_nil] at hread
  have hdrop : (e.spelling ++ ')' :: rest).drop (e.spelling.length + 1) = rest := by
    simp
  have hcons : (Tree.group e).spelling ++ rest = '(' :: (e.spelling ++ ')' :: rest) := by
    simp [Tree.spelling]
  rw [hcons, read_open hclosed, hcontent, hdrop, outcome_andThen_eq_ok]
  exact ⟨some e, outcome_shift_eq_ok.mpr hself, outcome_shift_eq_ok.mpr hrest⟩

/-- The printed form of a shaped tree is read as that tree. -/
theorem recovers {rank : Rank} {t : Tree} (hshape : Tree.Shaped rank t) : Recovers rank t := by
  induction hshape with
  | char hliteral =>
      intro branch rest tree hrest
      obtain ⟨hopen, hclose, hbar, hstar⟩ := isReserved_eq_false_iff.mp hliteral
      rw [Tree.spelling, List.singleton_append, read_char hopen hclose hbar hstar]
      exact outcome_shift_eq_ok.mpr hrest
  | group inner ih => exact recovers_group inner ih
  | ofUnit _ ih =>
      intro front rest tree hrest
      exact ih (some front) rest tree hrest
  | again _ ih =>
      intro front rest tree hrest
      rw [Tree.spelling, List.append_assoc]
      apply ih
      rw [List.singleton_append, read_star rfl]
      exact outcome_shift_eq_ok.mpr hrest
  | first _ ih =>
      intro rest tree hrest
      exact ih none rest tree hrest
  | @firstStar u hunit ih =>
      intro rest tree hrest
      have hstar : Tree.repeatLast (some (Tree.append none u)) = some (.star u) :=
        Tree.repeatLast_unit hunit
      rw [Tree.spelling, List.append_assoc]
      apply ih
      rw [List.singleton_append, read_star hstar]
      exact outcome_shift_eq_ok.mpr hrest
  | concat _ _ ihfront ihlast =>
      intro rest tree hrest
      rw [Tree.spelling, List.append_assoc]
      apply ihfront
      exact ihlast _ rest tree hrest
  | ofBranch _ ih =>
      intro rest hrest
      exact ih rest _ (outcome_read_of_visible_eq_nil hrest)
  | union _ _ ihfront ihothers =>
      intro rest hrest
      rw [Tree.spelling, List.append_assoc]
      apply ihfront
      rw [List.cons_append, read_bar, outcome_andThen_eq_ok]
      exact ⟨_, outcome_shift_eq_ok.mpr (ihothers rest hrest), rfl⟩

theorem outcome_read_eq_some_iff (cs : List Char) (t : Tree) :
    (read visible none cs).outcome = .ok (some t) ↔
      Tree.Shaped .expression t ∧ t.spelling = visible cs := by
  refine ⟨?_, ?_⟩
  · intro hread
    obtain ⟨hwritten, hshape⟩ := shaped_of_read hread (by simp)
    exact ⟨hshape t rfl, hwritten⟩
  · intro ⟨hshape, hspelling⟩
    obtain ⟨back, hback, hrest⟩ := exists_visible_append cs
    rw [hback, ← hspelling]
    exact recovers hshape back hrest

theorem outcome_read_eq_none_iff (cs : List Char) :
    (read visible none cs).outcome = .ok none ↔ visible cs = [] := by
  refine ⟨?_, outcome_read_of_visible_eq_nil⟩
  intro hread
  obtain ⟨hwritten, -⟩ := shaped_of_read hread (by simp)
  exact hwritten.symm

end Excerpt

end PatternAutomata
