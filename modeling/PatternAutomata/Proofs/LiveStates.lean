import PatternAutomata.Proofs.ThompsonLanguage

/-!
# No state of a tree's automaton is a dead end

Every state of a block can reach the exit of the block (`Block.Drains`).  This
holds of a literal, and each way of putting blocks together keeps it: from a
state of a part the exit of the part is reached as before, and a way leads on
from there.

So wherever a path from the start has come in the automaton of a tree, it can be
continued to the accepting state (`live_ofTree`).
-/

namespace PatternAutomata

open Automaton

/-- From every state of a block, built in `B` behind the states of `A`, some path
leads to its exit. -/
def Block.Drains (b : Block) (A B : Automaton) : Prop :=
  ∀ s, A.size ≤ s → s < B.size → ∃ w, B.Path s w b.exit

/-- From the states of a block that drains, paths lead on to each of its ways. -/
theorem Block.Drains.exits {b : Block} {A B C : Automaton} {ways : List Nat} {s x : Nat}
    (hdrains : b.Drains A B) (hplaced : b.Placed A B C ways) (hbuilt : b.Built A B)
    (hx : x ∈ ways) (hs : A.size ≤ s) (hs' : s < B.size) : ∃ w, C.Path s w x := by
  obtain ⟨w, hpath⟩ := hdrains s hs hs'
  exact ⟨w, hplaced.exits hbuilt hx hs hpath⟩

namespace Automaton

variable {A B C : Automaton} {lower upper first second body : Block} {s t : Nat}

theorem drains_literal (A : Automaton) (c : Char) :
    Block.Drains ⟨A.size, A.size + 1⟩ A (A.literal c).2 := by
  intro s hs hs'
  rw [size_literal] at hs'
  by_cases hentry : s = A.size
  · rw [hentry]
    exact ⟨[c], path_literal.mpr rfl⟩
  · obtain rfl : s = A.size + 1 := by omega
    exact ⟨[], Path.nil _⟩

theorem drains_alternate (hlower : lower.Built A B) (hupper : upper.Built B C)
    (hlower_drains : lower.Drains A B) (hupper_drains : upper.Drains B C) :
    Block.Drains ⟨C.size, C.size + 1⟩ A (C.alternate lower upper).2 := by
  have hin_lower : ∀ s, A.size ≤ s → s < B.size →
      ∃ w, (C.alternate lower upper).2.Path s w (C.size + 1) := fun s hs hs' =>
    hlower_drains.exits (placed_lower hlower hupper) hlower List.mem_cons_self hs hs'
  have hin_upper : ∀ s, B.size ≤ s → s < C.size →
      ∃ w, (C.alternate lower upper).2.Path s w (C.size + 1) := fun s hs hs' =>
    hupper_drains.exits (placed_upper hlower hupper) hupper List.mem_cons_self hs hs'
  intro s hs hs'
  rw [size_alternate] at hs'
  rcases Nat.lt_or_ge s B.size with hB | hB
  · exact hin_lower s hs hB
  · rcases Nat.lt_or_ge s C.size with hC | hC
    · exact hin_upper s hB hC
    · by_cases hentry : s = C.size
      · -- The new entry leads into a part, and from there the way is known.
        obtain ⟨w, hpath⟩ := hin_upper upper.entry hupper.entry_le hupper.entry_lt
        have hlower_exit := Nat.lt_of_lt_of_le hlower.exit_lt hupper.size_le
        have hedge : ⟨none, upper.entry⟩ ∈ (C.alternate lower upper).2.edgesFrom s :=
          (mem_edgesFrom_alternate hlower_exit hupper.exit_lt).mpr
            (Or.inr (Or.inl ⟨hentry, Or.inr rfl⟩))
        exact ⟨w, Path.silent hedge hpath⟩
      · obtain rfl : s = C.size + 1 := by omega
        exact ⟨[], Path.nil _⟩

theorem drains_chain (hfirst : first.Built A B) (hsecond : second.Built B C)
    (hfirst_drains : first.Drains A B) (hsecond_drains : second.Drains B C) :
    Block.Drains ⟨first.entry, second.exit⟩ A (C.chain first second).2 := by
  have hin_second : ∀ s, B.size ≤ s → s < C.size →
      ∃ w, (C.chain first second).2.Path s w second.exit := by
    intro s hs hs'
    obtain ⟨w, hpath⟩ := hsecond_drains s hs hs'
    exact ⟨w, (placed_second hfirst hsecond.size_le).lift hsecond hpath hs⟩
  intro s hs hs'
  rw [size_chain] at hs'
  rcases Nat.lt_or_ge s B.size with hB | hB
  · obtain ⟨u, hfront⟩ :=
      hfirst_drains.exits (placed_first hfirst hsecond) hfirst List.mem_cons_self hs hB
    obtain ⟨v, hback⟩ := hin_second second.entry hsecond.entry_le hsecond.entry_lt
    exact ⟨u ++ v, hfront.append hback⟩
  · exact hin_second s hB hs'

theorem drains_loop (hbody : body.Built A B) (hbody_drains : body.Drains A B) :
    Block.Drains ⟨B.size, B.size + 1⟩ A (B.loop body).2 := by
  intro s hs hs'
  rw [size_loop] at hs'
  rcases Nat.lt_or_ge s B.size with hB | hB
  · exact hbody_drains.exits (placed_body hbody) hbody (by simp) hs hB
  · by_cases hentry : s = B.size
    · have hskip : ⟨none, B.size + 1⟩ ∈ (B.loop body).2.edgesFrom s :=
        (mem_edgesFrom_loop hbody.exit_lt).mpr (Or.inr ⟨Or.inl hentry, Or.inr rfl⟩)
      exact ⟨[], Path.silent hskip (Path.nil _)⟩
    · obtain rfl : s = B.size + 1 := by omega
      exact ⟨[], Path.nil _⟩

/-- From every state of the block of a tree, some path leads to its exit. -/
theorem drains_build (A : Automaton) (t : Tree) : (A.build t).1.Drains A (A.build t).2 := by
  induction t generalizing A with
  | char c => exact drains_literal A c
  | union left right ihl ihr =>
      exact drains_alternate (built_build A left) (built_build _ right) (ihl A) (ihr _)
  | concat left right ihl ihr =>
      exact drains_chain (built_build A left) (built_build _ right) (ihl A) (ihr _)
  | star inner ih => exact drains_loop (built_build A inner) (ih A)
  | group inner ih => exact ih A

/-- Wherever a path from the start has led, some path leads on to the accepting
state. -/
def Live (A : Automaton) : Prop :=
  ∀ s w, A.Path A.start w s → ∃ v, A.Path s v A.accept

/-- The edges of a block stay among the states there are, so paths do too. -/
theorem path_stays (h : A.Extends B) (hpath : B.Path s w t) (hs : A.size ≤ s)
    (hs' : s < B.size) : A.size ≤ t ∧ t < B.size := by
  induction hpath using Path.induct with
  | nil s => exact ⟨hs, hs'⟩
  | step s e w t hedge _ ih =>
      have hstays := h.stays s e hs hedge
      exact ih hstays.1 hstays.2

/-- The automaton of a tree leads nowhere from which it cannot accept. -/
theorem live_ofTree (t : Tree) : (ofTree t).Live := by
  intro s w hpath
  have hbuilt := built_build blank t
  have hinside := path_stays hbuilt.toExtends (path_ofTree_iff_build.mp hpath)
    hbuilt.entry_le hbuilt.entry_lt
  obtain ⟨v, hexit⟩ := drains_build blank t s hinside.1 hinside.2
  exact ⟨v, path_ofTree_iff_build.mpr hexit⟩

/-- The automaton of the empty word has one state only, which accepts. -/
theorem live_ofEmptyWord : ofEmptyWord.Live := by
  intro s w hpath
  have hidle : ofEmptyWord.edgesFrom ofEmptyWord.start = [] := rfl
  obtain ⟨_, rfl⟩ := hpath.eq_of_idle hidle
  exact ⟨[], Path.nil _⟩

end Automaton

end PatternAutomata
