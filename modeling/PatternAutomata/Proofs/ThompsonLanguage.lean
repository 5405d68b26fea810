import PatternAutomata.Automaton.Thompson
import PatternAutomata.Pattern.Language
import PatternAutomata.Proofs.BlockPaths
import PatternAutomata.Proofs.PathSimulation

/-!
# The automaton of a tree accepts its language

Each way of building a block has three facts.  The first lists the edges it
adds.  The second says that it gives a block that is closed again
(`Block.Built`), whatever stood in the automaton before.  The third says which
words are spelled by paths from its entry to its exit, in terms of the paths
through its parts.

The induction over trees then only puts these facts together
(`built_build`, `path_build`).
-/

namespace PatternAutomata

namespace Automaton

variable {A B C : Automaton} {lower upper first second body : Block}
variable {s t : Nat} {w : List Char} {e : Edge} {c : Char}

theorem not_mem_edgesFrom (hs : A.size ≤ s) : e ∉ A.edgesFrom s := by
  intro hedge
  have hlt := lt_size_of_mem_edgesFrom hedge
  omega

/-! ### Literals -/

@[simp] theorem size_literal (A : Automaton) (c : Char) : (A.literal c).2.size = A.size + 2 := by
  simp [literal]

theorem mem_edgesFrom_literal :
    e ∈ (A.literal c).2.edgesFrom s ↔
      e ∈ A.edgesFrom s ∨ s = A.size ∧ e = ⟨some c, A.size + 1⟩ := by
  simp [literal, mem_edgesFrom_connect]

theorem built_literal (A : Automaton) (c : Char) :
    Block.Built ⟨A.size, A.size + 1⟩ A (A.literal c).2 where
  toExtends := by
    refine (Extends.refl A).grow (by simp) (fun s e => mem_edgesFrom_literal) ?_
    intro s e hadded
    obtain ⟨rfl, rfl⟩ := hadded
    simp
  entry_le := Nat.le_refl _
  entry_lt := by simp
  exit_le := Nat.le_succ _
  exit_lt := by simp
  exit_idle := by
    rw [List.eq_nil_iff_forall_not_mem]
    intro e hedge
    rcases mem_edgesFrom_literal.mp hedge with hold | ⟨hs, _⟩
    · exact not_mem_edgesFrom (Nat.le_succ _) hold
    · simp at hs

theorem path_literal : (A.literal c).2.Path A.size w (A.size + 1) ↔ w = [c] := by
  constructor
  · intro hpath
    rcases hpath.eq_or_step with ⟨_, ht⟩ | ⟨e, hedge, v, rfl, hrest⟩
    · simp at ht
    · rcases mem_edgesFrom_literal.mp hedge with hold | ⟨_, rfl⟩
      · exact absurd hold (not_mem_edgesFrom (Nat.le_refl _))
      · have hnil := (Path.eq_of_idle (built_literal A c).exit_idle hrest).1
        simp [hnil]
  · intro hw
    have hedge : ⟨some c, A.size + 1⟩ ∈ (A.literal c).2.edgesFrom A.size :=
      mem_edgesFrom_literal.mpr (Or.inr ⟨rfl, rfl⟩)
    rw [hw]
    exact Path.consume hedge (Path.nil _)

/-! ### Alternatives -/

@[simp] theorem size_alternate (A : Automaton) (lower upper : Block) :
    (A.alternate lower upper).2.size = A.size + 2 := by
  simp [alternate]

theorem mem_edgesFrom_alternate (hlower : lower.exit < A.size) (hupper : upper.exit < A.size) :
    e ∈ (A.alternate lower upper).2.edgesFrom s ↔
      e ∈ A.edgesFrom s ∨
        s = A.size ∧ (e = ⟨none, lower.entry⟩ ∨ e = ⟨none, upper.entry⟩) ∨
        (s = lower.exit ∨ s = upper.exit) ∧ e = ⟨none, A.size + 1⟩ := by
  have hlower' : lower.exit < A.size + 2 := by omega
  have hupper' : upper.exit < A.size + 2 := by omega
  simp only [alternate, mem_edgesFrom_bridge, size_bridge, size_addPair, edgesFrom_addPair,
    entry_addPair, exit_addPair, hlower', hupper', Nat.lt_add_of_pos_right, Nat.zero_lt_succ,
    true_and]
  grind

theorem built_alternate (hlower : lower.Built A B) (hupper : upper.Built B C) :
    Block.Built ⟨C.size, C.size + 1⟩ A (C.alternate lower upper).2 where
  toExtends := by
    have hlower_bounds := hlower.bounds
    have hupper_bounds := hupper.bounds
    refine (hlower.toExtends.trans hupper.toExtends).grow (by simp)
      (fun s e => mem_edgesFrom_alternate (by omega) hupper.exit_lt) ?_
    intro s ⟨label, target⟩ hadded
    simp only [Edge.mk.injEq, size_alternate] at hadded ⊢
    omega
  entry_le := Nat.le_trans hlower.size_le hupper.size_le
  entry_lt := by simp
  exit_le := Nat.le_succ_of_le (Nat.le_trans hlower.size_le hupper.size_le)
  exit_lt := by simp
  exit_idle := by
    have hlower_bounds := hlower.bounds
    have hupper_bounds := hupper.bounds
    rw [List.eq_nil_iff_forall_not_mem]
    intro e hedge
    rcases (mem_edgesFrom_alternate (by omega) hupper.exit_lt).mp hedge with hold | hadded
    · exact not_mem_edgesFrom (Nat.le_succ _) hold
    · simp only at hadded
      omega

theorem placed_lower (hlower : lower.Built A B) (hupper : upper.Built B C) :
    lower.Placed A B (C.alternate lower upper).2 [C.size + 1] := by
  intro s e hs hs'
  have hlower_bounds := hlower.bounds
  have hupper_bounds := hupper.bounds
  have hfresh : s ≠ C.size := by omega
  have hother : s ≠ upper.exit := by omega
  rw [mem_edgesFrom_alternate (by omega) hupper.exit_lt, hupper.old s e hs']
  simp [hfresh, hother]

theorem placed_upper (hlower : lower.Built A B) (hupper : upper.Built B C) :
    upper.Placed B C (C.alternate lower upper).2 [C.size + 1] := by
  intro s e hs hs'
  have hlower_bounds := hlower.bounds
  have hupper_bounds := hupper.bounds
  have hfresh : s ≠ C.size := by omega
  have hother : s ≠ lower.exit := by omega
  rw [mem_edgesFrom_alternate (by omega) hupper.exit_lt]
  simp [hfresh, hother]

/-- A block around two others is passed by passing one of them. -/
theorem path_alternate (hlower : lower.Built A B) (hupper : upper.Built B C) :
    (C.alternate lower upper).2.Path C.size w (C.size + 1) ↔
      B.Path lower.entry w lower.exit ∨ C.Path upper.entry w upper.exit := by
  have hlower_bounds := hlower.bounds
  have hupper_bounds := hupper.bounds
  have hidle := (built_alternate hlower hupper).exit_idle
  rw [← (placed_lower hlower hupper).crosses hlower (by omega) hidle,
    ← (placed_upper hlower hupper).crosses hupper (by omega) hidle]
  constructor
  · intro hpath
    rcases hpath.eq_or_step with ⟨_, ht⟩ | ⟨e, hedge, w, rfl, hrest⟩
    · simp at ht
    · rcases (mem_edgesFrom_alternate (by omega) hupper.exit_lt).mp hedge with
        hold | ⟨_, rfl | rfl⟩ | ⟨hs, _⟩
      · exact absurd hold (not_mem_edgesFrom (Nat.le_refl _))
      · exact Or.inl hrest
      · exact Or.inr hrest
      · omega
  · intro hrest
    rcases hrest with hrest | hrest
    · have hin : ⟨none, lower.entry⟩ ∈ (C.alternate lower upper).2.edgesFrom C.size :=
        (mem_edgesFrom_alternate (by omega) hupper.exit_lt).mpr (Or.inr (Or.inl ⟨rfl, Or.inl rfl⟩))
      exact Path.silent hin hrest
    · have hin : ⟨none, upper.entry⟩ ∈ (C.alternate lower upper).2.edgesFrom C.size :=
        (mem_edgesFrom_alternate (by omega) hupper.exit_lt).mpr (Or.inr (Or.inl ⟨rfl, Or.inr rfl⟩))
      exact Path.silent hin hrest

/-! ### Chains -/

@[simp] theorem size_chain (A : Automaton) (first second : Block) :
    (A.chain first second).2.size = A.size := by
  simp [chain]

theorem mem_edgesFrom_chain (hfirst : first.exit < A.size) :
    e ∈ (A.chain first second).2.edgesFrom s ↔
      e ∈ A.edgesFrom s ∨ s = first.exit ∧ e = ⟨none, second.entry⟩ := by
  simp [chain, mem_edgesFrom_bridge, hfirst]

theorem built_chain (hfirst : first.Built A B) (hsecond : second.Built B C) :
    Block.Built ⟨first.entry, second.exit⟩ A (C.chain first second).2 where
  toExtends := by
    have hfirst_bounds := hfirst.bounds
    have hsecond_bounds := hsecond.bounds
    refine (hfirst.toExtends.trans hsecond.toExtends).grow (by simp)
      (fun s e => mem_edgesFrom_chain (by omega)) ?_
    intro s ⟨label, target⟩ hadded
    simp only [Edge.mk.injEq, size_chain] at hadded ⊢
    omega
  entry_le := hfirst.entry_le
  entry_lt := by
    rw [size_chain]
    exact Nat.lt_of_lt_of_le hfirst.entry_lt hsecond.size_le
  exit_le := Nat.le_trans hfirst.size_le hsecond.exit_le
  exit_lt := by
    rw [size_chain]
    exact hsecond.exit_lt
  exit_idle := by
    have hfirst_bounds := hfirst.bounds
    have hsecond_bounds := hsecond.bounds
    rw [List.eq_nil_iff_forall_not_mem]
    intro e hedge
    rcases (mem_edgesFrom_chain (by omega)).mp hedge with hold | ⟨hs, _⟩
    · rw [hsecond.exit_idle] at hold
      cases hold
    · simp only at hs
      omega

theorem placed_first (hfirst : first.Built A B) (hsecond : second.Built B C) :
    first.Placed A B (C.chain first second).2 [second.entry] := by
  intro s e hs hs'
  have hsecond_bounds := hsecond.bounds
  have hfirst_bounds := hfirst.bounds
  rw [mem_edgesFrom_chain (by omega), hsecond.old s e hs']
  simp

theorem placed_second (hfirst : first.Built A B) (hsize : B.size ≤ C.size) :
    second.Placed B C (C.chain first second).2 [] := by
  intro s e hs hs'
  have hfirst_exit := hfirst.exit_lt
  have hother : s ≠ first.exit := by omega
  rw [mem_edgesFrom_chain (Nat.lt_of_lt_of_le hfirst_exit hsize)]
  simp [hother]

/-- Two blocks are passed in a chain by passing one after the other. -/
theorem path_chain (hfirst : first.Built A B) (hsecond : second.Built B C) :
    (C.chain first second).2.Path first.entry w second.exit ↔
      ∃ u v, w = u ++ v ∧ B.Path first.entry u first.exit ∧
        C.Path second.entry v second.exit := by
  have hfirst_bounds := hfirst.bounds
  have hsecond_bounds := hsecond.bounds
  constructor
  · intro hpath
    obtain ⟨u, v, x, rfl, hinner, hx, hleft⟩ :=
      (placed_first hfirst hsecond).leaves hfirst (by simp; omega) hpath (by omega)
    rw [List.mem_singleton] at hx
    subst hx
    have hrest := (placed_second hfirst hsecond.size_le).confined hsecond hleft (by omega)
    exact ⟨u, v, rfl, hinner, hrest⟩
  · intro hparts
    obtain ⟨u, v, rfl, hinner, hrest⟩ := hparts
    have hpass := (placed_first hfirst hsecond).exits hfirst List.mem_cons_self
      hfirst.entry_le hinner
    have hrest := (placed_second hfirst hsecond.size_le).lift hsecond hrest hsecond.entry_le
    exact hpass.append hrest

/-! ### Loops -/

@[simp] theorem size_loop (A : Automaton) (body : Block) :
    (A.loop body).2.size = A.size + 2 := by
  simp [loop]

theorem mem_edgesFrom_loop (hbody : body.exit < A.size) :
    e ∈ (A.loop body).2.edgesFrom s ↔
      e ∈ A.edgesFrom s ∨
        (s = A.size ∨ s = body.exit) ∧ (e = ⟨none, body.entry⟩ ∨ e = ⟨none, A.size + 1⟩) := by
  have hbody' : body.exit < A.size + 2 := by omega
  simp only [loop, mem_edgesFrom_bridge, size_bridge, size_addPair, edgesFrom_addPair,
    entry_addPair, exit_addPair, hbody', Nat.lt_add_of_pos_right, Nat.zero_lt_succ, true_and]
  grind

theorem built_loop (hbody : body.Built A B) :
    Block.Built ⟨B.size, B.size + 1⟩ A (B.loop body).2 where
  toExtends := by
    have hbounds := hbody.bounds
    refine hbody.toExtends.grow (by simp) (fun s e => mem_edgesFrom_loop hbody.exit_lt) ?_
    intro s ⟨label, target⟩ hadded
    simp only [Edge.mk.injEq, size_loop] at hadded ⊢
    omega
  entry_le := hbody.size_le
  entry_lt := by simp
  exit_le := Nat.le_succ_of_le hbody.size_le
  exit_lt := by simp
  exit_idle := by
    have hbounds := hbody.bounds
    rw [List.eq_nil_iff_forall_not_mem]
    intro e hedge
    rcases (mem_edgesFrom_loop hbody.exit_lt).mp hedge with hold | ⟨hs, _⟩
    · exact not_mem_edgesFrom (Nat.le_succ _) hold
    · simp only at hs
      omega

theorem placed_body (hbody : body.Built A B) :
    body.Placed A B (B.loop body).2 [body.entry, B.size + 1] := by
  intro s e hs hs'
  have hfresh : s ≠ B.size := by omega
  rw [mem_edgesFrom_loop hbody.exit_lt]
  simp [hfresh]

/-- A loop is passed by passing its body any number of times. -/
theorem path_loop (hbody : body.Built A B) :
    (B.loop body).2.Path B.size w (B.size + 1) ↔
      ∃ pieces : List (List Char), w = pieces.flatten ∧
        ∀ piece ∈ pieces, B.Path body.entry piece body.exit := by
  have hbounds := hbody.bounds
  have hidle := (built_loop hbody).exit_idle
  have hagain : ∀ w, (B.loop body).2.Path body.entry w (B.size + 1) ↔
      ∃ piece pieces, w = piece ++ List.flatten pieces ∧
        ∀ part ∈ piece :: pieces, B.Path body.entry part body.exit := by
    intro w
    exact (placed_body hbody).crosses_again hbody (by omega) hidle
  constructor
  · intro hpath
    rcases hpath.eq_or_step with ⟨_, ht⟩ | ⟨e, hedge, w, rfl, hrest⟩
    · simp at ht
    · rcases (mem_edgesFrom_loop hbody.exit_lt).mp hedge with hold | ⟨_, rfl | rfl⟩
      · exact absurd hold (not_mem_edgesFrom (Nat.le_refl _))
      · obtain ⟨piece, pieces, rfl, hpieces⟩ := (hagain w).mp hrest
        exact ⟨piece :: pieces, by simp, hpieces⟩
      · obtain ⟨rfl, _⟩ := hrest.eq_of_idle hidle
        exact ⟨[], by simp, by simp⟩
  · intro hparts
    obtain ⟨pieces, rfl, hpieces⟩ := hparts
    cases pieces with
    | nil =>
        have hskip : ⟨none, B.size + 1⟩ ∈ (B.loop body).2.edgesFrom B.size :=
          (mem_edgesFrom_loop hbody.exit_lt).mpr (Or.inr ⟨Or.inl rfl, Or.inr rfl⟩)
        exact Path.silent hskip (Path.nil _)
    | cons piece rest =>
        have hin : ⟨none, body.entry⟩ ∈ (B.loop body).2.edgesFrom B.size :=
          (mem_edgesFrom_loop hbody.exit_lt).mpr (Or.inr ⟨Or.inl rfl, Or.inl rfl⟩)
        have hrest := (hagain _).mpr ⟨piece, rest, rfl, hpieces⟩
        exact Path.silent hin (by simpa using hrest)

/-! ### Trees -/

/-- Every tree becomes a closed block behind the states there are. -/
theorem built_build (A : Automaton) (t : Tree) : (A.build t).1.Built A (A.build t).2 := by
  induction t generalizing A with
  | char c => exact built_literal A c
  | union left right ihl ihr => exact built_alternate (ihl A) (ihr _)
  | concat left right ihl ihr => exact built_chain (ihl A) (ihr _)
  | star inner ih => exact built_loop (ih A)
  | group inner ih => exact ih A

/-- The paths through the block of a tree spell the words of its language. -/
theorem path_build (A : Automaton) (t : Tree) (w : List Char) :
    (A.build t).2.Path (A.build t).1.entry w (A.build t).1.exit ↔ t.Matches w := by
  induction t generalizing A w with
  | char c => exact path_literal
  | union left right ihl ihr =>
      have hlower := built_build A left
      have hupper := built_build (A.build left).2 right
      exact (path_alternate hlower hupper).trans (or_congr (ihl A w) (ihr _ w))
  | concat left right ihl ihr =>
      have hpaths := @path_chain A _ _ _ _ w (built_build A left)
        (built_build (A.build left).2 right)
      simp only [ihl, ihr] at hpaths
      exact hpaths
  | star inner ih =>
      have hpaths := @path_loop A _ _ w (built_build A inner)
      simp only [ih] at hpaths
      exact hpaths
  | group inner ih => exact ih A w

/-- The automaton of a tree has the paths of the block that is built first. -/
theorem path_ofTree_iff_build {tree : Tree} :
    (ofTree tree).Path s w t ↔ (blank.build tree).2.Path s w t :=
  path_congr_edges rfl

/-- From the start to the accepting state, the automaton of a tree spells the
words of its language. -/
theorem path_ofTree (t : Tree) (w : List Char) :
    (ofTree t).Path (ofTree t).start w (ofTree t).accept ↔ t.Matches w :=
  path_ofTree_iff_build.trans (path_build blank t w)

/-- **The automaton of a tree accepts the language of the tree**, whether or not
the tree could have been read from a pattern. -/
theorem accepts_ofTree_iff_matches (t : Tree) (w : List Char) :
    (ofTree t).accepts w = true ↔ t.Matches w := by
  rw [accepts_iff_path]
  exact path_ofTree t w

end Automaton

end PatternAutomata
