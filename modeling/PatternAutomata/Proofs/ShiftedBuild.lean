import PatternAutomata.Proofs.ThompsonLanguage

/-!
# Building behind other states

A block is built in an automaton that may hold anything, and is made of numbers.
`Automaton.beside A B` is `A` with the states of `B` behind its own, where every
edge of `B` still ends at the same state of `B`.

Each step of the building can be done in `B` and put behind `A` afterwards, or at
once behind `A`: it makes no difference which (`addPair_beside`, `connect_beside`).
Nothing is asked of `A` for that, whose edges may well end among the new states.  So
a tree is built behind any states as it is built by itself (`build_eq_beside`).
-/

namespace PatternAutomata

/-- The edge to the state `n` places further on. -/
def Edge.shift (n : Nat) (e : Edge) : Edge :=
  ⟨e.label, e.target + n⟩

theorem Edge.shift_inj {n : Nat} {e f : Edge} : e.shift n = f.shift n ↔ e = f := by
  obtain ⟨label, target⟩ := e
  obtain ⟨label', target'⟩ := f
  simp [shift]

/-- The block `n` places further on. -/
def Block.shift (n : Nat) (b : Block) : Block :=
  ⟨b.entry + n, b.exit + n⟩

namespace Automaton

/-- `A` with the states of `B` behind its own. -/
def beside (A B : Automaton) : Automaton :=
  { A with edges := A.edges ++ B.edges.map (List.map (Edge.shift A.size)) }

variable (A B : Automaton)

theorem beside_blank : A.beside blank = A := by
  simp [beside, blank]

@[simp] theorem size_beside : (A.beside B).size = B.size + A.size := by
  simp [beside, size, Nat.add_comm]

theorem edgesFrom_beside_of_lt {s : Nat} (hs : s < A.size) :
    (A.beside B).edgesFrom s = A.edgesFrom s := by
  simp only [edgesFrom, beside, Array.getD_eq_getD_getElem?]
  rw [Array.getElem?_append_left hs]

theorem edgesFrom_beside (s : Nat) :
    (A.beside B).edgesFrom (s + A.size) = (B.edgesFrom s).map (Edge.shift A.size) := by
  simp only [edgesFrom, beside, size, Array.getD_eq_getD_getElem?]
  rw [Array.getElem?_append_right (Nat.le_add_left _ _), Nat.add_sub_cancel, Array.getElem?_map]
  cases B.edges[s]? <;> rfl

theorem addPair_beside :
    (A.beside B).addPair = (B.addPair.1.shift A.size, A.beside B.addPair.2) := by
  simp [addPair, Block.shift, beside, size]
  omega

theorem hasEdge_beside (s : Nat) (e : Edge) :
    (A.beside B).hasEdge (s + A.size) (e.shift A.size) = B.hasEdge s e := by
  rw [Bool.eq_iff_iff, hasEdge_iff, hasEdge_iff, edgesFrom_beside, List.mem_map]
  simp [Edge.shift_inj]

/-- **An edge can be added in `B` or behind `A`.** -/
theorem connect_beside (s : Nat) (e : Edge) :
    (A.beside B).connect (s + A.size) (e.shift A.size) = A.beside (B.connect s e) := by
  unfold connect
  rw [hasEdge_beside]
  split
  · rfl
  · simp only [beside, Automaton.mk.injEq, true_and]
    apply Array.ext_getElem?
    intro i
    simp only [size, Array.getElem?_modify, Array.getElem?_append, Array.getElem?_map]
    grind

theorem bridge_beside (s t : Nat) :
    (A.beside B).bridge (s + A.size) (t + A.size) = A.beside (B.bridge s t) :=
  connect_beside A B s ⟨none, t⟩

theorem literal_beside (c : Char) :
    (A.beside B).literal c = ((B.literal c).1.shift A.size, A.beside (B.literal c).2) := by
  simp only [literal, addPair_beside]
  rw [← connect_beside]
  rfl

theorem alternate_beside (lower upper : Block) :
    (A.beside B).alternate (lower.shift A.size) (upper.shift A.size) =
      ((B.alternate lower upper).1.shift A.size, A.beside (B.alternate lower upper).2) := by
  simp only [alternate, addPair_beside, Block.shift, bridge_beside]

theorem chain_beside (first second : Block) :
    (A.beside B).chain (first.shift A.size) (second.shift A.size) =
      ((B.chain first second).1.shift A.size, A.beside (B.chain first second).2) := by
  simp only [chain, Block.shift, bridge_beside]

theorem loop_beside (body : Block) :
    (A.beside B).loop (body.shift A.size) =
      ((B.loop body).1.shift A.size, A.beside (B.loop body).2) := by
  simp only [loop, addPair_beside, Block.shift, bridge_beside]

/-- **A tree can be built in `B` or behind `A`.** -/
theorem build_beside (t : Tree) :
    (A.beside B).build t = ((B.build t).1.shift A.size, A.beside (B.build t).2) := by
  induction t generalizing B with
  | char c => exact literal_beside A B c
  | union left right ihl ihr =>
      simp only [build, ihl, ihr, alternate_beside]
  | concat left right ihl ihr =>
      simp only [build, ihl, ihr, chain_beside]
  | star inner ih =>
      simp only [build, ih, loop_beside]
  | group inner ih => exact ih B

/-- A tree is built behind any states as it is built by itself. -/
theorem build_eq_beside (t : Tree) :
    A.build t = (⟨(ofTree t).start + A.size, (ofTree t).accept + A.size⟩,
      A.beside (ofTree t)) := by
  have hbuild := build_beside A blank t
  rw [beside_blank] at hbuild
  exact hbuild

/-- **Building appends, and moves what is built by itself.**  Whatever an automaton holds,
building a tree leaves its start, its accepting state and the edges of its states as they
are.  The states that are appended have the edges of the tree's own automaton, in the same
order, and everything is as many places further on as there were states.  So no edge leaves
the new states, and from the entry of the block to its exit the automaton accepts the
language of the tree. -/
theorem build_appends_shifted (t : Tree) :
    (A.build t).2.start = A.start ∧ (A.build t).2.accept = A.accept ∧
    (A.build t).2.edges =
      A.edges ++ (ofTree t).edges.map (List.map (Edge.shift A.size)) ∧
    (A.build t).1 = ⟨(ofTree t).start + A.size, (ofTree t).accept + A.size⟩ ∧
    (∀ s e, A.size ≤ s → e ∈ (A.build t).2.edgesFrom s →
      A.size ≤ e.target ∧ e.target < (A.build t).2.size) ∧
    ∀ w, Automaton.accepts ⟨(A.build t).1.entry, (A.build t).1.exit, (A.build t).2.edges⟩ w = true ↔
      t.Matches w := by
  have hbuild := build_eq_beside A t
  have hbuilt := built_build A t
  refine ⟨?_, ?_, ?_, ?_, hbuilt.stays, ?_⟩
  · rw [hbuild]
    rfl
  · rw [hbuild]
    rfl
  · rw [hbuild]
    rfl
  · rw [hbuild]
  · intro w
    rw [accepts_iff_path]
    refine Iff.trans ?_ (path_build A t w)
    exact path_congr_edges rfl

/-- An edge that ended nowhere ends in the new block, and changes nothing there. -/
theorem build_appends_shifted_dangling :
    let A : Automaton := { edges := #[[⟨some 'x', 2⟩]] }
    (A.build (.char 'a')).2.edges = #[[⟨some 'x', 2⟩], [⟨some 'a', 2⟩], []] ∧
      1 ≤ 2 ∧ 2 < (A.build (.char 'a')).2.size := by
  intro A
  obtain ⟨_, _, hedges, _, hstays, _⟩ := build_appends_shifted A (.char 'a')
  refine ⟨hedges.trans (by decide +kernel), ?_⟩
  exact hstays 1 ⟨some 'a', 2⟩ (by decide) (by decide)

end Automaton

end PatternAutomata
