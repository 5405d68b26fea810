import PatternAutomata.Pattern.Tree
import PatternAutomata.Proofs.BlockShape

/-!
# Chains are built alike however they are nested

Three parts can be joined by joining the first two first, or the last two.  The parts are
built in the same order either way, with the same numbers; only the silent edges that join
them are added in another order.  That does not show, since these edges leave different
states (`connect_comm`), and an edge between old states can be added before or after a
tree is built (`build_connect`).

So the automaton of a tree is also that of the tree without parentheses, and of the tree
whose chains are nested to the left (`build_erase`, `build_leftNested`).
-/

namespace PatternAutomata

namespace Automaton

variable {A B : Automaton} {s t : Nat} {e f : Edge}

/-- **Edges of different states can be added in either order.** -/
theorem connect_comm (hst : s ≠ t) :
    (A.connect s e).connect t f = (A.connect t f).connect s e := by
  apply ext_edgesFrom
  · simp only [start_connect]
  · simp only [accept_connect]
  · simp only [size_connect]
  · intro u
    simp only [edgesFrom_connect, size_connect]
    grind

/-- An edge can be added to a state before others are put behind it, or afterwards. -/
theorem beside_connect (hs : s < A.size) :
    (A.connect s e).beside B = (A.beside B).connect s e := by
  apply ext_edgesFrom
  · simp only [beside, start_connect]
  · simp only [beside, accept_connect]
  · simp only [size_beside, size_connect]
  · intro u
    rcases Nat.lt_or_ge u A.size with hu | hu
    · have hu' : u < (A.connect s e).size := by rwa [size_connect]
      rw [edgesFrom_beside_of_lt _ _ hu', edgesFrom_connect, edgesFrom_connect,
        edgesFrom_beside_of_lt A B hs, edgesFrom_beside_of_lt A B hu, size_beside]
      grind
    · obtain ⟨n, rfl⟩ := Nat.exists_eq_add_of_le' hu
      have hbehind := edgesFrom_beside (A.connect s e) B n
      rw [size_connect] at hbehind
      rw [hbehind, edgesFrom_connect, if_neg (by omega), edgesFrom_beside]

/-- **An edge between old states can be added before a tree is built or afterwards.** -/
theorem build_connect (tree : Tree) (hs : s < A.size) :
    (A.connect s e).build tree = ((A.build tree).1, (A.build tree).2.connect s e) := by
  rw [build_eq_beside, build_eq_beside, size_connect, beside_connect hs]

/-- **Three trees are joined alike from either side.** -/
theorem build_concat_assoc (A : Automaton) (first second third : Tree) :
    A.build (.concat first (.concat second third)) =
      A.build (.concat (.concat first second) third) := by
  have hfirst := (built_build A first).bounds
  have hsecond := (built_build (A.build first).2 second).bounds
  have hearly : (A.build first).1.exit < ((A.build first).2.build second).2.size := by omega
  have hapart : ((A.build first).2.build second).1.exit ≠ (A.build first).1.exit := by omega
  simp only [build, chain, bridge, build_connect third hearly, connect_comm hapart]

theorem build_concat_congr {left left' : Tree} (right : Tree)
    (hleft : A.build left = A.build left') :
    A.build (.concat left right) = A.build (.concat left' right) := by
  simp only [build, hleft]

/-- A tree is joined with the parts of another as it is joined with the whole. -/
theorem build_joinLeft (A : Automaton) (left right : Tree) :
    A.build (left.joinLeft right) = A.build (.concat left right) := by
  induction right with
  | concat front last ih _ =>
      rw [Tree.joinLeft, build_concat_congr last ih, build_concat_assoc]
  | _ => rfl

/-- Nesting the chains of a tree to the left does not change what is built. -/
theorem build_leftNested (A : Automaton) (tree : Tree) :
    A.build tree.leftNested = A.build tree := by
  induction tree generalizing A with
  | char c => rfl
  | union left right ihl ihr => simp only [Tree.leftNested, build, ihl, ihr]
  | concat left right ihl ihr =>
      rw [Tree.leftNested, build_joinLeft]
      simp only [build, ihl, ihr]
  | star inner ih => simp only [Tree.leftNested, build, ih]
  | group inner ih => exact ih A

/-- Nothing is built for parentheses. -/
theorem build_erase (A : Automaton) (tree : Tree) : A.build tree.erase = A.build tree := by
  induction tree generalizing A with
  | char c => rfl
  | union left right ihl ihr => simp only [Tree.erase, build, ihl, ihr]
  | concat left right ihl ihr => simp only [Tree.erase, build, ihl, ihr]
  | star inner ih => simp only [Tree.erase, build, ih]
  | group inner ih => exact ih A

end Automaton

end PatternAutomata
