import PatternAutomata.Proofs.DistinctEdges
import PatternAutomata.Proofs.LockStep

/-!
# The normal form of an elimination

An elimination ends with an automaton that can be described without running it.
Every state consumes what the states of its closure consumed.  Of its silent edges
those are left that touch the start or the accepting state, and one to the
accepting state is added where that was reached silently.  In the stored order
the edges that are left come first and the new ones follow (`Prolongs`).

None of this depends on the order in which the states are treated, nor on their
being treated in place: a state gets the same edges whenever it is treated, with
whatever states before and after it (`mem_edgesFrom_eliminateInOrder`).

In that form all gains are there already and every edge is one that is kept.  An
automaton like that is changed by no further elimination (`elimination_eq_self`).
-/

namespace PatternAutomata

namespace Automaton

variable {A B C : Automaton} {s t : Nat} {e : Edge} {order : List Nat}

/-- The elimination that treats the given states in the given order. -/
def eliminateInOrder (A : Automaton) (order : List Nat) : Automaton :=
  (order.foldl Sweep.treat ⟨A, 0⟩).automaton.prune

/-- `B` has the edges of `A` in their order, and behind those of a state only new
ones. -/
def Prolongs (A B : Automaton) : Prop :=
  ∀ s, ∃ added, B.edgesFrom s = A.edgesFrom s ++ added ∧ ∀ e ∈ added, e ∉ A.edgesFrom s

namespace Prolongs

theorem refl (A : Automaton) : A.Prolongs A := by
  intro s
  exact ⟨[], (List.append_nil _).symm, by simp⟩

theorem trans (hfirst : A.Prolongs B) (hsecond : B.Prolongs C) : A.Prolongs C := by
  intro s
  obtain ⟨early, hearly, hnew⟩ := hfirst s
  obtain ⟨late, hlate, hnewer⟩ := hsecond s
  refine ⟨early ++ late, ?_, ?_⟩
  · rw [hlate, hearly, List.append_assoc]
  · intro e he hold
    rcases List.mem_append.mp he with hmem | hmem
    · exact hnew e hmem hold
    · apply hnewer e hmem
      rw [hearly]
      exact List.mem_append_left early hold

/-- An edge is added behind the others, if it is added. -/
theorem connect (A : Automaton) (s : Nat) (e : Edge) : A.Prolongs (A.connect s e) := by
  intro t
  rw [edgesFrom_connect]
  split
  · next hadded =>
      obtain ⟨rfl, -, hnew⟩ := hadded
      exact ⟨[e], rfl, by simpa using hnew⟩
  · exact refl A t

theorem foldl_copy (sweep : Sweep) (s : Nat) (es : List Edge) :
    sweep.automaton.Prolongs (es.foldl (Sweep.copy s) sweep).automaton := by
  induction es generalizing sweep with
  | nil => exact refl _
  | cons e rest ih => exact (connect sweep.automaton s e).trans (ih (Sweep.copy s sweep e))

/-- **Treating a state puts its gains behind its edges.** -/
theorem treat (sweep : Sweep) (s : Nat) : sweep.automaton.Prolongs (sweep.treat s).automaton := by
  unfold Sweep.treat
  dsimp only
  split
  · exact refl _
  · have hfilled := foldl_copy sweep s (sweep.automaton.copiesFor s
      (sweep.automaton.closure (sweep.automaton.successors none s)))
    split
    · exact hfilled.trans (connect _ _ _)
    · exact hfilled

theorem foldl_treat (sweep : Sweep) (states : List Nat) :
    sweep.automaton.Prolongs (states.foldl Sweep.treat sweep).automaton := by
  induction states generalizing sweep with
  | nil => exact refl _
  | cons s rest ih => exact (treat sweep s).trans (ih (sweep.treat s))

end Prolongs

theorem mem_closure_singleton : t ∈ A.closure [s] ↔ A.SilentlyReaches s t := by
  rw [mem_closure]
  simp

/-- **A treated state gets the same edges in every order.** -/
theorem mem_edgesFrom_eliminateInOrder (hs : s ∈ order) :
    e ∈ (A.eliminateInOrder order).edgesFrom s ↔ e ∈ A.eliminate.edgesFrom s := by
  have hswept : A.Treated (fun s => s ∈ order) _ := Sweep.treated_foldl ⟨A, 0⟩ order
  rw [eliminateInOrder, edgesFrom_prune, List.mem_filter, hswept.mem_edges,
    mem_edgesFrom_eliminate]
  simp only [isKept, hswept.start_eq, hswept.accept_eq, hs, true_and]

/-- The silent edges an elimination leaves and adds. -/
theorem mem_silent_eliminate :
    ⟨none, t⟩ ∈ A.eliminate.edgesFrom s ↔
      ⟨none, t⟩ ∈ A.edgesFrom s ∧
          (s = A.start ∨ s = A.accept ∨ t = A.start ∨ t = A.accept) ∨
        t = A.accept ∧ s ≠ A.accept ∧ A.SilentlyReaches s A.accept := by
  rw [mem_edgesFrom_eliminate]
  simp only [isKept, Edge.isSilent, Option.isNone_none, Bool.not_true, Bool.or_false,
    Bool.or_eq_true, beq_iff_eq, or_assoc]
  constructor
  · intro hmem
    obtain ⟨hold | hgain, hkept⟩ := hmem
    · exact Or.inl ⟨hold, hkept⟩
    · obtain ⟨u, hne, hreach, ⟨hconsuming, -⟩ | ⟨rfl, hshort⟩⟩ := hgain
      · cases hconsuming
      · have ht : t = A.accept := by simpa using hshort
        exact Or.inr ⟨ht, hne.symm, hreach⟩
  · intro hmem
    rcases hmem with ⟨hold, hkept⟩ | ⟨rfl, hne, hreach⟩
    · exact ⟨Or.inl hold, hkept⟩
    · exact ⟨Or.inr ⟨A.accept, hne.symm, hreach, Or.inr ⟨rfl, rfl⟩⟩, by simp⟩

/-- In the stored order the edges that are left come before the new ones. -/
theorem exists_edgesFrom_eliminate (A : Automaton) (s : Nat) :
    ∃ added, A.eliminate.edgesFrom s = (A.edgesFrom s).filter (A.isKept s) ++ added ∧
      ∀ e ∈ added, e ∉ A.edgesFrom s := by
  have hswept := treated_sweep A
  obtain ⟨added, hedges, hnew⟩ := Prolongs.foldl_treat ⟨A, 0⟩ (List.range A.size) s
  have hkept : A.sweep.automaton.isKept s = A.isKept s := by
    funext e
    simp only [isKept, hswept.start_eq, hswept.accept_eq]
  refine ⟨added.filter (A.isKept s), ?_, ?_⟩
  · rw [eliminate, elimination, edgesFrom_prune, hkept, ← List.filter_append]
    exact congrArg (List.filter (A.isKept s)) hedges
  · intro e he
    exact hnew e (List.mem_filter.mp he).1

/-- **The normal form of an elimination.**  The states, the start and the accepting state
stay.  A state consumes what its closure consumed.  It keeps its silent edges that touch
the start or the accepting state, and gets one to the accepting state if that is another
state of its closure; so none is left between inner states.  The edges that are kept
come first and in their order, and only new ones follow.  Whatever states are treated in
whatever order, be it that state alone, one that is treated gets the edges it gets here. -/
theorem eliminate_has_normal_form (A : Automaton) :
    A.eliminate.size = A.size ∧ A.eliminate.start = A.start ∧ A.eliminate.accept = A.accept ∧
    ∀ s,
      (∀ c t, ⟨some c, t⟩ ∈ A.eliminate.edgesFrom s ↔
        ∃ u ∈ A.closure [s], ⟨some c, t⟩ ∈ A.edgesFrom u) ∧
      (∀ t, ⟨none, t⟩ ∈ A.eliminate.edgesFrom s ↔
        ⟨none, t⟩ ∈ A.edgesFrom s ∧
            (s = A.start ∨ s = A.accept ∨ t = A.start ∨ t = A.accept) ∨
          t = A.accept ∧ s ≠ A.accept ∧ A.accept ∈ A.closure [s]) ∧
      (∃ added, A.eliminate.edgesFrom s = (A.edgesFrom s).filter (A.isKept s) ++ added ∧
        ∀ e ∈ added, e ∉ A.edgesFrom s) ∧
      (∀ t, ⟨none, t⟩ ∈ A.eliminate.edgesFrom s →
        s = A.start ∨ s = A.accept ∨ t = A.start ∨ t = A.accept) ∧
      ∀ order, s ∈ order → ∀ e,
        e ∈ (A.eliminateInOrder order).edgesFrom s ↔ e ∈ A.eliminate.edgesFrom s := by
  refine ⟨size_eliminate A, start_eliminate A, accept_eliminate A, ?_⟩
  intro s
  refine ⟨?_, ?_, exists_edgesFrom_eliminate A s, ?_, ?_⟩
  · intro c t
    simp only [mem_closure_singleton]
    exact mem_consuming_eliminate
  · intro t
    rw [mem_closure_singleton]
    exact mem_silent_eliminate
  · intro t hedge
    rcases mem_silent_eliminate.mp hedge with ⟨-, htouches⟩ | ⟨haccept, -⟩
    · exact htouches
    · exact Or.inr (Or.inr (Or.inr haccept))
  · intro order hs e
    exact mem_edgesFrom_eliminateInOrder hs

/-- Two inner states that lead to each other silently: the first gets the other's edge and
loses its own, and gets the same edges if the other is treated before it. -/
theorem eliminate_has_normal_form_cycle :
    let A : Automaton := ⟨0, 3, #[[⟨none, 1⟩], [⟨none, 2⟩], [⟨some 'b', 3⟩, ⟨none, 1⟩], []]⟩
    ⟨some 'b', 3⟩ ∈ A.eliminate.edgesFrom 1 ∧ ⟨none, 2⟩ ∉ A.eliminate.edgesFrom 1 ∧
      ∀ e, e ∈ (A.eliminateInOrder [2, 1]).edgesFrom 1 ↔ e ∈ A.eliminate.edgesFrom 1 := by
  intro A
  obtain ⟨hconsuming, -, -, hboundary, horder⟩ := (eliminate_has_normal_form A).2.2.2 1
  refine ⟨(hconsuming 'b' 3).mpr ⟨2, by decide +kernel, by decide⟩, ?_, horder [2, 1] (by decide)⟩
  intro hedge
  exact absurd (hboundary 2 hedge) (by decide)

/-- An automaton in which every state has the edges it would gain. -/
def Saturated (A : Automaton) : Prop :=
  ∀ s e, A.Gains s e → e ∈ A.edgesFrom s

/-- Copies that are there are not made. -/
theorem foldl_copy_eq_self {sweep : Sweep} {es : List Edge}
    (hes : ∀ e ∈ es, e ∈ sweep.automaton.edgesFrom s) : es.foldl (Sweep.copy s) sweep = sweep := by
  induction es with
  | nil => rfl
  | cons e rest ih =>
      have he := hes e List.mem_cons_self
      have hcopy : Sweep.copy s sweep e = sweep := by
        rw [Sweep.copy, connect_of_mem he, hasEdge_iff.mpr he]
        rfl
      rw [List.foldl_cons, hcopy]
      exact ih fun f hf => hes f (List.mem_cons_of_mem e hf)

/-- **Treating a state that has its gains does nothing**, and counts nothing. -/
theorem Saturated.treat_eq_self {sweep : Sweep} (h : sweep.automaton.Saturated) (s : Nat) :
    sweep.treat s = sweep := by
  have hgained := fun e he => h s e (gains_iff.mpr he)
  have hfilled := foldl_copy_eq_self fun e he => hgained e (Or.inl he)
  unfold Sweep.treat
  dsimp only
  rw [hfilled]
  split
  · rfl
  · split
    · next hshort => rw [bridge, connect_of_mem (hgained _ (Or.inr ⟨hshort, rfl⟩))]
    · rfl

theorem Saturated.foldl_treat_eq_self {sweep : Sweep} (h : sweep.automaton.Saturated)
    (states : List Nat) : states.foldl Sweep.treat sweep = sweep := by
  induction states with
  | nil => rfl
  | cons s rest ih => rw [List.foldl_cons, h.treat_eq_self, ih]

theorem prune_eq_self (hkept : ∀ s e, e ∈ A.edgesFrom s → A.isKept s e = true) :
    A.prune = A := by
  have hedges : A.edges.mapIdx (fun s edges => edges.filter (A.isKept s)) = A.edges := by
    apply Array.ext
    · exact Array.size_mapIdx
    · intro s hs hinside
      rw [Array.getElem_mapIdx, List.filter_eq_self]
      intro e he
      apply hkept s e
      rwa [edgesFrom_eq_getElem hinside]
  rw [prune, hedges]

/-- **Where all gains are there and all edges are kept, an elimination does nothing.**  It
copies no edge and removes none. -/
theorem elimination_eq_self (hgained : A.Saturated)
    (hkept : ∀ s e, e ∈ A.edgesFrom s → A.isKept s e = true) :
    A.elimination = ⟨A, 0, 0, A.silentCount⟩ := by
  have hbegin : Sweep.automaton ⟨A, 0⟩ |>.Saturated := hgained
  have hswept : A.sweep = ⟨A, 0⟩ := hbegin.foldl_treat_eq_self (List.range A.size)
  rw [elimination, hswept]
  simp only [prune_eq_self hkept, Nat.sub_self]

/-- What a state would gain after an elimination it has gained by it. -/
theorem saturated_eliminate (A : Automaton) : A.eliminate.Saturated := by
  intro s e hgain
  obtain ⟨u, hne, hreach, hsource⟩ := hgain
  have hreach := silentlyReaches_of_eliminate hreach
  rcases hsource with ⟨hconsuming, hedge⟩ | ⟨haccept, rfl⟩
  · obtain ⟨_ | c, t⟩ := e
    · cases hconsuming
    · obtain ⟨v, hfurther, hold⟩ := mem_consuming_eliminate.mp hedge
      exact mem_consuming_eliminate.mpr ⟨v, hreach.trans hfurther, hold⟩
  · rw [accept_eliminate] at haccept ⊢
    subst haccept
    exact silent_accept_mem_eliminate hreach hne.symm

theorem isKept_of_mem_eliminate (hmem : e ∈ A.eliminate.edgesFrom s) :
    A.eliminate.isKept s e = true := by
  simp only [isKept, start_eliminate, accept_eliminate]
  exact (mem_edgesFrom_eliminate.mp hmem).2

/-- **A second elimination changes nothing.**  It gives back the same automaton, with the
edges of every state in the same order; already its sweep copies no edge and adds no
shortcut to the accepting state, and no edge is removed after it. -/
theorem eliminate_idempotent (A : Automaton) :
    A.eliminate.eliminate = A.eliminate ∧ A.eliminate.sweep = ⟨A.eliminate, 0⟩ ∧
      A.eliminate.elimination = ⟨A.eliminate, 0, 0, A.eliminate.silentCount⟩ := by
  have hgained := saturated_eliminate A
  have hnothing := elimination_eq_self hgained fun s e => isKept_of_mem_eliminate
  refine ⟨?_, ?_, hnothing⟩
  · rw [eliminate, hnothing]
  · exact Saturated.foldl_treat_eq_self hgained (List.range A.eliminate.size)

end Automaton

end PatternAutomata
