import PatternAutomata.Proofs.FreshEdges
import PatternAutomata.Proofs.LiveStates
import PatternAutomata.Proofs.ShiftedBuild

/-!
# The shape of a tree's automaton

Three things hold of a block besides what is known of its paths.  Every state of it
but the exit has one consuming edge, or one or two silent ones (`Block.Wired`).  No
edge of it ends at the entry (`Block.Sealed`).  And each of its states is reached from
the entry (`Block.Filled`).

They hold of a literal, and each way of putting blocks together keeps them.  Of a part
only the exit gets edges, which had none (`Block.Wired.attach`): one edge where the
part is passed once, two where it can be passed again.
-/

namespace PatternAutomata

open Automaton

/-- The edges of a state that consumes a character, goes on, or chooses. -/
inductive Wiring : List Edge → Prop
  | consuming (c : Char) (t : Nat) : Wiring [⟨some c, t⟩]
  | silent (t : Nat) : Wiring [⟨none, t⟩]
  | fork (t u : Nat) : Wiring [⟨none, t⟩, ⟨none, u⟩]

/-- Every state but the exit of a block, built in `B` behind the states of `A`, has one
consuming edge or one or two silent edges. -/
def Block.Wired (b : Block) (A B : Automaton) : Prop :=
  ∀ s, A.size ≤ s → s < B.size → s ≠ b.exit → Wiring (B.edgesFrom s)

/-- A block ends elsewhere than it begins, and no edge of it ends where it begins. -/
structure Block.Sealed (b : Block) (A B : Automaton) : Prop where
  ends_ne : b.entry ≠ b.exit
  target_ne : ∀ s e, A.size ≤ s → e ∈ B.edgesFrom s → e.target ≠ b.entry

/-- To every state of a block some path leads from its entry. -/
def Block.Filled (b : Block) (A B : Automaton) : Prop :=
  ∀ s, A.size ≤ s → s < B.size → ∃ w, B.Path b.entry w s

/-- A block stays wired when its exit gets edges and its other states get none. -/
theorem Block.Wired.attach {b : Block} {A B : Automaton} {s : Nat} {new : List Edge}
    (hwired : b.Wired A B) (hbuilt : b.Built A B) (hs : A.size ≤ s) (hs' : s < B.size)
    (hexit : s = b.exit → Wiring new) (hother : s ≠ b.exit → new = []) :
    Wiring (B.edgesFrom s ++ new) := by
  by_cases hends : s = b.exit
  · rw [hends, hbuilt.exit_idle]
    exact hexit hends
  · rw [hother hends, List.append_nil]
    exact hwired s hs hs' hends

namespace Automaton

variable {A B C : Automaton} {lower upper first second body : Block} {s : Nat}

/-- Building a tree leaves the edges of the states there are as they are. -/
theorem edgesFrom_build_of_lt (t : Tree) (hs : s < A.size) :
    (A.build t).2.edgesFrom s = A.edgesFrom s := by
  rw [build_eq_beside]
  exact edgesFrom_beside_of_lt A _ hs

/-! ### The edges of each state -/

theorem wired_literal (A : Automaton) (c : Char) :
    Block.Wired ⟨A.size, A.size + 1⟩ A (A.literal c).2 := by
  intro s hs hs' hne
  rw [size_literal] at hs'
  obtain rfl : s = A.size := by
    simp only at hne
    omega
  rw [literal_eq, edgesFrom_connectAll (fresh_literal A c), edgesFrom_addPair,
    edgesFrom_of_size_le (Nat.le_refl _)]
  simpa [literalEdges] using Wiring.consuming c (A.size + 1)

theorem wired_alternate (hlower : lower.Built A B) (hupper : upper.Built B C)
    (hkept : ∀ s < B.size, C.edgesFrom s = B.edgesFrom s)
    (hlower_wired : lower.Wired A B) (hupper_wired : upper.Wired B C) :
    Block.Wired ⟨C.size, C.size + 1⟩ A (C.alternate lower upper).2 := by
  have hlower_bounds := hlower.bounds
  have hupper_bounds := hupper.bounds
  intro s hs hs' hne
  rw [size_alternate] at hs'
  rw [alternate_eq, edgesFrom_connectAll (fresh_alternate hlower hupper), edgesFrom_addPair]
  rcases Nat.lt_or_ge s B.size with hB | hB
  · have hfresh : C.size ≠ s := by omega
    have hupper_exit : upper.exit ≠ s := by omega
    rw [hkept s hB]
    refine hlower_wired.attach hlower hs hB ?_ ?_
    · rintro rfl
      simpa [alternateEdges, hfresh, hupper_exit] using Wiring.silent (C.size + 1)
    · intro hother
      simp [alternateEdges, hfresh, hupper_exit, Ne.symm hother]
  · rcases Nat.lt_or_ge s C.size with hC | hC
    · have hfresh : C.size ≠ s := by omega
      have hlower_exit : lower.exit ≠ s := by omega
      refine hupper_wired.attach hupper hB hC ?_ ?_
      · rintro rfl
        simpa [alternateEdges, hfresh, hlower_exit] using Wiring.silent (C.size + 1)
      · intro hother
        simp [alternateEdges, hfresh, hlower_exit, Ne.symm hother]
    · have hentry : C.size = s := by
        simp only at hne
        omega
      have hlower_exit : lower.exit ≠ s := by omega
      have hupper_exit : upper.exit ≠ s := by omega
      rw [edgesFrom_of_size_le hC]
      simpa [alternateEdges, hentry, hlower_exit, hupper_exit] using
        Wiring.fork lower.entry upper.entry

theorem wired_chain (hfirst : first.Built A B) (hsecond : second.Built B C)
    (hkept : ∀ s < B.size, C.edgesFrom s = B.edgesFrom s)
    (hfirst_wired : first.Wired A B) (hsecond_wired : second.Wired B C) :
    Block.Wired ⟨first.entry, second.exit⟩ A (C.chain first second).2 := by
  have hfirst_bounds := hfirst.bounds
  intro s hs hs' hne
  rw [size_chain] at hs'
  rw [chain_eq, edgesFrom_connectAll (fresh_chain hfirst hsecond)]
  rcases Nat.lt_or_ge s B.size with hB | hB
  · rw [hkept s hB]
    refine hfirst_wired.attach hfirst hs hB ?_ ?_
    · rintro rfl
      simpa [chainEdges] using Wiring.silent second.entry
    · intro hother
      simp [chainEdges, Ne.symm hother]
  · have hfirst_exit : first.exit ≠ s := by omega
    simpa [chainEdges, hfirst_exit] using hsecond_wired s hB hs' hne

theorem wired_loop (hbody : body.Built A B) (hbody_wired : body.Wired A B) :
    Block.Wired ⟨B.size, B.size + 1⟩ A (B.loop body).2 := by
  have hbounds := hbody.bounds
  intro s hs hs' hne
  rw [size_loop] at hs'
  rw [loop_eq, edgesFrom_connectAll (fresh_loop hbody), edgesFrom_addPair]
  rcases Nat.lt_or_ge s B.size with hB | hB
  · have hfresh : B.size ≠ s := by omega
    refine hbody_wired.attach hbody hs hB ?_ ?_
    · rintro rfl
      simpa [loopEdges, hfresh] using Wiring.fork body.entry (B.size + 1)
    · intro hother
      simp [loopEdges, hfresh, Ne.symm hother]
  · have hentry : B.size = s := by
      simp only at hne
      omega
    have hexit : body.exit ≠ s := by omega
    rw [edgesFrom_of_size_le hB]
    simpa [loopEdges, hentry, hexit] using Wiring.fork body.entry (B.size + 1)

theorem wired_build (A : Automaton) (t : Tree) : (A.build t).1.Wired A (A.build t).2 := by
  induction t generalizing A with
  | char c => exact wired_literal A c
  | union left right ihl ihr =>
      exact wired_alternate (built_build A left) (built_build _ right)
        (fun s hs => edgesFrom_build_of_lt right hs) (ihl A) (ihr _)
  | concat left right ihl ihr =>
      exact wired_chain (built_build A left) (built_build _ right)
        (fun s hs => edgesFrom_build_of_lt right hs) (ihl A) (ihr _)
  | star inner ih => exact wired_loop (built_build A inner) (ih A)
  | group inner ih => exact ih A

/-! ### Nothing ends at the entry -/

theorem sealed_literal (A : Automaton) (c : Char) :
    Block.Sealed ⟨A.size, A.size + 1⟩ A (A.literal c).2 where
  ends_ne := Nat.ne_of_lt (Nat.lt_succ_self _)
  target_ne s e hs hedge := by
    rcases mem_edgesFrom_literal.mp hedge with hold | ⟨_, rfl⟩
    · exact absurd hold (not_mem_edgesFrom hs)
    · exact Nat.succ_ne_self _

/-- The entry of the block around two others is new, and the edges of a part stay in it. -/
theorem sealed_alternate (hlower : lower.Built A B) (hupper : upper.Built B C) :
    Block.Sealed ⟨C.size, C.size + 1⟩ A (C.alternate lower upper).2 where
  ends_ne := Nat.ne_of_lt (Nat.lt_succ_self _)
  target_ne s e hs hedge := by
    have hlower_bounds := hlower.bounds
    have hupper_bounds := hupper.bounds
    rcases (mem_edgesFrom_alternate (by omega) hupper.exit_lt).mp hedge with
      hold | ⟨_, rfl | rfl⟩ | ⟨_, rfl⟩
    · exact Nat.ne_of_lt ((hlower.toExtends.trans hupper.toExtends).stays s e hs hold).2
    · exact Nat.ne_of_lt (Nat.lt_of_lt_of_le hlower.entry_lt hupper.size_le)
    · exact Nat.ne_of_lt hupper.entry_lt
    · exact Nat.succ_ne_self _

/-- A chain is entered by the entry of its first part, and no edge leads back there. -/
theorem sealed_chain (hfirst : first.Built A B) (hsecond : second.Built B C)
    (hfirst_sealed : first.Sealed A B) :
    Block.Sealed ⟨first.entry, second.exit⟩ A (C.chain first second).2 where
  ends_ne := Nat.ne_of_lt (Nat.lt_of_lt_of_le hfirst.entry_lt hsecond.exit_le)
  target_ne s e hs hedge := by
    have hfirst_bounds := hfirst.bounds
    have hsecond_bounds := hsecond.bounds
    rcases (mem_edgesFrom_chain (by omega)).mp hedge with hold | ⟨_, rfl⟩
    · rcases Nat.lt_or_ge s B.size with hB | hB
      · exact hfirst_sealed.target_ne s e hs ((hsecond.old s e hB).mp hold)
      · have hstays := hsecond.stays s e hB hold
        simp only
        omega
    · simp only
      omega

theorem sealed_loop (hbody : body.Built A B) :
    Block.Sealed ⟨B.size, B.size + 1⟩ A (B.loop body).2 where
  ends_ne := Nat.ne_of_lt (Nat.lt_succ_self _)
  target_ne s e hs hedge := by
    rcases (mem_edgesFrom_loop hbody.exit_lt).mp hedge with hold | ⟨_, rfl | rfl⟩
    · exact Nat.ne_of_lt (hbody.stays s e hs hold).2
    · exact Nat.ne_of_lt hbody.entry_lt
    · exact Nat.succ_ne_self _

theorem sealed_build (A : Automaton) (t : Tree) : (A.build t).1.Sealed A (A.build t).2 := by
  induction t generalizing A with
  | char c => exact sealed_literal A c
  | union left right =>
      exact sealed_alternate (built_build A left) (built_build _ right)
  | concat left right ihl =>
      exact sealed_chain (built_build A left) (built_build _ right) (ihl A)
  | star inner => exact sealed_loop (built_build A inner)
  | group inner ih => exact ih A

/-! ### Every state is reached -/

theorem filled_literal (A : Automaton) (c : Char) :
    Block.Filled ⟨A.size, A.size + 1⟩ A (A.literal c).2 := by
  intro s hs hs'
  rw [size_literal] at hs'
  by_cases hentry : s = A.size
  · rw [hentry]
    exact ⟨[], Path.nil _⟩
  · obtain rfl : s = A.size + 1 := by omega
    exact ⟨[c], path_literal.mpr rfl⟩

theorem filled_alternate (hlower : lower.Built A B) (hupper : upper.Built B C)
    (hlower_filled : lower.Filled A B) (hupper_filled : upper.Filled B C) :
    Block.Filled ⟨C.size, C.size + 1⟩ A (C.alternate lower upper).2 := by
  have hlower_exit := Nat.lt_of_lt_of_le hlower.exit_lt hupper.size_le
  have hto_lower : ⟨none, lower.entry⟩ ∈ (C.alternate lower upper).2.edgesFrom C.size :=
    (mem_edgesFrom_alternate hlower_exit hupper.exit_lt).mpr
      (Or.inr (Or.inl ⟨rfl, Or.inl rfl⟩))
  have hto_upper : ⟨none, upper.entry⟩ ∈ (C.alternate lower upper).2.edgesFrom C.size :=
    (mem_edgesFrom_alternate hlower_exit hupper.exit_lt).mpr
      (Or.inr (Or.inl ⟨rfl, Or.inr rfl⟩))
  intro s hs hs'
  rw [size_alternate] at hs'
  rcases Nat.lt_or_ge s B.size with hB | hB
  · obtain ⟨w, hpath⟩ := hlower_filled s hs hB
    have hinner := (placed_lower hlower hupper).lift hlower hpath hlower.entry_le
    exact ⟨w, Path.silent hto_lower hinner⟩
  · rcases Nat.lt_or_ge s C.size with hC | hC
    · obtain ⟨w, hpath⟩ := hupper_filled s hB hC
      have hinner := (placed_upper hlower hupper).lift hupper hpath hupper.entry_le
      exact ⟨w, Path.silent hto_upper hinner⟩
    · by_cases hentry : s = C.size
      · rw [hentry]
        exact ⟨[], Path.nil _⟩
      · obtain rfl : s = C.size + 1 := by omega
        obtain ⟨w, hpath⟩ := hlower_filled lower.exit hlower.exit_le hlower.exit_lt
        have hout := (placed_lower hlower hupper).exits hlower List.mem_cons_self
          hlower.entry_le hpath
        exact ⟨w, Path.silent hto_lower hout⟩

theorem filled_chain (hfirst : first.Built A B) (hsecond : second.Built B C)
    (hfirst_filled : first.Filled A B) (hsecond_filled : second.Filled B C) :
    Block.Filled ⟨first.entry, second.exit⟩ A (C.chain first second).2 := by
  intro s hs hs'
  rw [size_chain] at hs'
  rcases Nat.lt_or_ge s B.size with hB | hB
  · obtain ⟨w, hpath⟩ := hfirst_filled s hs hB
    exact ⟨w, (placed_first hfirst hsecond).lift hfirst hpath hfirst.entry_le⟩
  · obtain ⟨u, hfront⟩ := hfirst_filled first.exit hfirst.exit_le hfirst.exit_lt
    have hcross := (placed_first hfirst hsecond).exits hfirst List.mem_cons_self
      hfirst.entry_le hfront
    obtain ⟨v, hpath⟩ := hsecond_filled s hB hs'
    have hinner := (placed_second hfirst hsecond.size_le).lift hsecond hpath hsecond.entry_le
    exact ⟨u ++ v, hcross.append hinner⟩

theorem filled_loop (hbody : body.Built A B) (hbody_filled : body.Filled A B) :
    Block.Filled ⟨B.size, B.size + 1⟩ A (B.loop body).2 := by
  have hto_body : ⟨none, body.entry⟩ ∈ (B.loop body).2.edgesFrom B.size :=
    (mem_edgesFrom_loop hbody.exit_lt).mpr (Or.inr ⟨Or.inl rfl, Or.inl rfl⟩)
  have hpast_body : ⟨none, B.size + 1⟩ ∈ (B.loop body).2.edgesFrom B.size :=
    (mem_edgesFrom_loop hbody.exit_lt).mpr (Or.inr ⟨Or.inl rfl, Or.inr rfl⟩)
  intro s hs hs'
  rw [size_loop] at hs'
  rcases Nat.lt_or_ge s B.size with hB | hB
  · obtain ⟨w, hpath⟩ := hbody_filled s hs hB
    have hinner := (placed_body hbody).lift hbody hpath hbody.entry_le
    exact ⟨w, Path.silent hto_body hinner⟩
  · by_cases hentry : s = B.size
    · rw [hentry]
      exact ⟨[], Path.nil _⟩
    · obtain rfl : s = B.size + 1 := by omega
      exact ⟨[], Path.silent hpast_body (Path.nil _)⟩

/-- To every state of the block of a tree, some path leads from its entry. -/
theorem filled_build (A : Automaton) (t : Tree) : (A.build t).1.Filled A (A.build t).2 := by
  induction t generalizing A with
  | char c => exact filled_literal A c
  | union left right ihl ihr =>
      exact filled_alternate (built_build A left) (built_build _ right) (ihl A) (ihr _)
  | concat left right ihl ihr =>
      exact filled_chain (built_build A left) (built_build _ right) (ihl A) (ihr _)
  | star inner ih => exact filled_loop (built_build A inner) (ih A)
  | group inner ih => exact ih A

/-- **The shape of a tree's automaton.**  The parts of the tree say how many states, edges
and silent edges there are, and no edge was left out because it was there already.  No
edge enters the start, which is not the accepting state, and none leaves that one.  All
other states have one consuming edge or one or two silent edges, and each state is on a
path from the start to the accepting state. -/
theorem ofTree_shape (t : Tree) :
    (ofTree t).size = 2 * (t.count .char + t.count .union + t.count .star) ∧
    (ofTree t).edgeCount =
      t.count .char + t.count .concat + 4 * (t.count .union + t.count .star) ∧
    (ofTree t).silentCount = t.count .concat + 4 * (t.count .union + t.count .star) ∧
    blank.buildBlindly t = blank.build t ∧
    (ofTree t).start ≠ (ofTree t).accept ∧
    (ofTree t).start < (ofTree t).size ∧ (ofTree t).accept < (ofTree t).size ∧
    (∀ s, ∀ e ∈ (ofTree t).edgesFrom s,
      e.target < (ofTree t).size ∧ e.target ≠ (ofTree t).start) ∧
    (ofTree t).edgesFrom (ofTree t).accept = [] ∧
    ∀ s < (ofTree t).size,
      (s ≠ (ofTree t).accept → Wiring ((ofTree t).edgesFrom s)) ∧
      (∃ w, (ofTree t).Path (ofTree t).start w s) ∧
      ∃ w, (ofTree t).Path s w (ofTree t).accept := by
  have hbuilt := built_build blank t
  have hsealed := sealed_build blank t
  refine ⟨?_, ?_, ?_, buildBlindly_eq_build blank t, hsealed.ends_ne, hbuilt.entry_lt,
    hbuilt.exit_lt, ?_, hbuilt.exit_idle, ?_⟩
  · exact (size_build blank t).trans (Nat.zero_add _)
  · exact (edgeCount_build blank t).trans (Nat.zero_add _)
  · exact (silentCount_build blank t).trans (Nat.zero_add _)
  · intro s e hedge
    exact ⟨(hbuilt.stays s e (Nat.zero_le s) hedge).2,
      hsealed.target_ne s e (Nat.zero_le s) hedge⟩
  · intro s hs
    obtain ⟨v, hreached⟩ := filled_build blank t s (Nat.zero_le s) hs
    obtain ⟨w, hleft⟩ := drains_build blank t s (Nat.zero_le s) hs
    exact ⟨wired_build blank t s (Nat.zero_le s) hs,
      ⟨v, path_ofTree_iff_build.mpr hreached⟩, ⟨w, path_ofTree_iff_build.mpr hleft⟩⟩

/-- The exit of what stands under a star leads back and on, but not to the start. -/
theorem ofTree_shape_star :
    let A := ofTree (.star (.char 'a'))
    A.edges = #[[⟨some 'a', 1⟩], [⟨none, 0⟩, ⟨none, 3⟩], [⟨none, 0⟩, ⟨none, 3⟩], []] ∧
      Wiring (A.edgesFrom 1) ∧ (3 < A.size ∧ 3 ≠ A.start) ∧ ∃ w, A.Path A.start w 1 := by
  intro A
  obtain ⟨_, _, _, _, _, _, _, htargets, _, hstates⟩ := ofTree_shape (.star (.char 'a'))
  have hfork := hstates 1 (by decide +kernel)
  exact ⟨by decide +kernel, hfork.1 (by decide +kernel),
    htargets 1 ⟨none, 3⟩ (by decide +kernel), hfork.2.1⟩

end Automaton

end PatternAutomata
