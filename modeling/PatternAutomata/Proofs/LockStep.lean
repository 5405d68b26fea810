import PatternAutomata.Proofs.EliminatedEdges
import PatternAutomata.Proofs.PathSimulation

/-!
# An elimination runs in step with its automaton

The silent edges an elimination leaves lead nowhere new
(`silentlyReaches_of_eliminate`), and they may well lead to fewer states.  That
costs nothing, for two reasons.  A state consumes a character exactly if some
state it reached silently did before (`mem_consuming_eliminate`), and whatever
reached the accepting state silently still does so
(`silentlyReaches_accept_eliminate`).

Hence both automata have the same active states after every character, whatever
states a text is read from, and their runs are the same step by step.
-/

namespace PatternAutomata

namespace Automaton

variable {A : Automaton} {s t : Nat} {c : Char}

/-- The silent edges an elimination leaves lead where silent edges led before. -/
theorem silentlyReaches_of_eliminate (hreach : A.eliminate.SilentlyReaches s t) :
    A.SilentlyReaches s t := by
  refine hreach.preserves ?_ (SilentlyReaches.refl A s)
  intro u v hu hedge
  obtain ⟨hold | hgain, _⟩ := mem_edgesFrom_eliminate.mp hedge
  · exact hu.trans (SilentlyReaches.head hold (SilentlyReaches.refl A v))
  · exact hu.trans hgain.silentlyReaches

/-- What reached the accepting state by silent edges is that state or has a direct
edge to it left. -/
theorem silent_accept_mem_eliminate (hreach : A.SilentlyReaches s A.accept)
    (hs : s ≠ A.accept) : ⟨none, A.accept⟩ ∈ A.eliminate.edgesFrom s := by
  have hgain : A.Gains s ⟨none, A.accept⟩ := ⟨A.accept, hs.symm, hreach, Or.inr ⟨rfl, rfl⟩⟩
  have hkept : A.isKept s ⟨none, A.accept⟩ = true := by simp [isKept]
  exact mem_edgesFrom_eliminate.mpr ⟨Or.inr hgain, hkept⟩

/-- So the accepting state is still reached by silent edges. -/
theorem silentlyReaches_accept_eliminate (hreach : A.SilentlyReaches s A.accept) :
    A.eliminate.SilentlyReaches s A.accept := by
  by_cases hs : s = A.accept
  · rw [hs]
    exact SilentlyReaches.refl _ _
  · have hedge := silent_accept_mem_eliminate hreach hs
    exact SilentlyReaches.head hedge (SilentlyReaches.refl _ _)

/-- After an elimination a state consumes what the states it reached did. -/
theorem mem_consuming_eliminate :
    ⟨some c, t⟩ ∈ A.eliminate.edgesFrom s ↔
      ∃ u, A.SilentlyReaches s u ∧ ⟨some c, t⟩ ∈ A.edgesFrom u := by
  have hconsuming : Edge.isSilent ⟨some c, t⟩ = false := rfl
  have hkept : A.isKept s ⟨some c, t⟩ = true := by simp [isKept, Edge.isSilent]
  rw [mem_edgesFrom_eliminate]
  constructor
  · intro hmem
    obtain ⟨hold | ⟨u, _, hreach, ⟨_, hmem⟩ | ⟨_, hsilent⟩⟩, _⟩ := hmem
    · exact ⟨s, SilentlyReaches.refl A s, hold⟩
    · exact ⟨u, hreach, hmem⟩
    · cases hsilent
  · intro hfrom
    obtain ⟨u, hreach, hmem⟩ := hfrom
    by_cases hus : u = s
    · exact ⟨Or.inl (hus ▸ hmem), hkept⟩
    · exact ⟨Or.inr ⟨u, hus, hreach, Or.inl ⟨hconsuming, hmem⟩⟩, hkept⟩

/-- One character leads to the same active states before and after. -/
theorem advance_eliminate (A : Automaton) (active : StateSet) (c : Char) :
    A.eliminate.advance active c = A.advance active c := by
  apply StateSet.ext
  intro t
  rw [mem_advance, mem_advance]
  constructor
  · intro hmove
    obtain ⟨s, hs, u, hreach, hedge⟩ := hmove
    obtain ⟨v, hfurther, hedge⟩ := mem_consuming_eliminate.mp hedge
    exact ⟨s, hs, v, (silentlyReaches_of_eliminate hreach).trans hfurther, hedge⟩
  · intro hmove
    obtain ⟨s, hs, u, hreach, hedge⟩ := hmove
    exact ⟨s, hs, s, SilentlyReaches.refl _ s, mem_consuming_eliminate.mpr ⟨u, hreach, hedge⟩⟩

/-- So does a whole text. -/
theorem activeAfter_eliminate (A : Automaton) (active : StateSet) (text : List Char) :
    A.eliminate.activeAfter active text = A.activeAfter active text := by
  induction text generalizing active with
  | nil => rfl
  | cons c rest ih => rw [activeAfter_cons, activeAfter_cons, advance_eliminate, ih]

/-- The accepting state is reached from the same sets of states. -/
theorem accept_mem_closure_eliminate (A : Automaton) (states : List Nat) :
    A.eliminate.accept ∈ A.eliminate.closure states ↔ A.accept ∈ A.closure states := by
  rw [mem_closure, mem_closure, accept_eliminate]
  constructor
  · intro hfrom
    obtain ⟨s, hs, hreach⟩ := hfrom
    exact ⟨s, hs, silentlyReaches_of_eliminate hreach⟩
  · intro hfrom
    obtain ⟨s, hs, hreach⟩ := hfrom
    exact ⟨s, hs, silentlyReaches_accept_eliminate hreach⟩

theorem initial_eliminate (A : Automaton) : A.eliminate.initial = A.initial := by
  rw [initial, initial, start_eliminate]

/-- A run takes the same steps to the same verdict before and after. -/
theorem runFrom_eliminate (A : Automaton) (active : StateSet) (position : Nat)
    (text : List Char) :
    A.eliminate.runFrom active position text = A.runFrom active position text := by
  induction text generalizing active position with
  | nil =>
      have hverdict : A.eliminate.isAccepting active = A.isAccepting active := by
        rw [isAccepting, isAccepting, decide_eq_decide]
        exact accept_mem_closure_eliminate A active.toList
      simp only [runFrom, hverdict]
  | cons c rest ih => simp only [runFrom, advance_eliminate, ih]

theorem run_eliminate (A : Automaton) (text : List Char) :
    A.eliminate.run text = A.run text := by
  rw [run, run, initial_eliminate, runFrom_eliminate]

/-- **Elimination is a lock-step simulation.**  Read from any set of states, a
text makes the same states active after every character, and in the end leads
to the accepting state or not.  A run from the start takes the same steps, stops
at the same character and comes to the same verdict. -/
theorem eliminate_lockStep (A : Automaton) :
    (∀ (active : StateSet) (text : List Char),
      (∀ k, A.eliminate.activeAfter active (text.take k) = A.activeAfter active (text.take k)) ∧
      (A.eliminate.accept ∈ A.eliminate.closure (A.eliminate.activeAfter active text).toList ↔
        A.accept ∈ A.closure (A.activeAfter active text).toList)) ∧
    ∀ text : List Char,
      A.eliminate.accepts text = A.accepts text ∧
      (A.eliminate.run text).steps = (A.run text).steps := by
  refine ⟨?_, ?_⟩
  · intro active text
    refine ⟨?_, ?_⟩
    · intro k
      exact activeAfter_eliminate A active (text.take k)
    · rw [activeAfter_eliminate]
      exact accept_mem_closure_eliminate A _
  · intro text
    have hrun := run_eliminate A text
    exact ⟨congrArg Run.accepted hrun, congrArg Run.steps hrun⟩

end Automaton

end PatternAutomata
