import PatternAutomata.Automaton.Simulation
import PatternAutomata.Proofs.SilentReach

/-!
# Active states follow paths

A run keeps, after every character, the states in which a path that spells what
has been read can end with a consuming edge; closing these states under silent
edges gives the ends of all such paths (`mem_closure_activeAfter`).  Stopping at
an empty set of states loses nothing, because no state becomes active again.

Together the two facts say that an automaton accepts a text exactly if some path
from its start to its accepting state spells the text (`accepts_iff_path`).
-/

namespace PatternAutomata

namespace Automaton

variable {A : Automaton} {active : StateSet} {c : Char} {text : List Char} {s t : Nat}

/-- A path that consumes a character first follows silent edges, then one edge
that consumes the character. -/
theorem path_cons_iff :
    A.Path s (c :: text) t ↔
      ∃ u v, A.SilentlyReaches s u ∧ ⟨some c, v⟩ ∈ A.edgesFrom u ∧ A.Path v text t := by
  constructor
  · intro hpath
    generalize hw : c :: text = w at hpath
    induction hpath with
    | nil => cases hw
    | silent hedge _ ih =>
        obtain ⟨u, v, hreach, hconsume, hrest⟩ := ih hw
        exact ⟨u, v, hreach.head hedge, hconsume, hrest⟩
    | @consume s u t d w hedge hrest =>
        cases hw
        exact ⟨s, u, SilentlyReaches.refl A s, hedge, hrest⟩
  · intro hparts
    obtain ⟨u, v, hreach, hconsume, hrest⟩ := hparts
    exact Path.append hreach (Path.consume hconsume hrest)

/-- A state is active after a character if a state that was active before
reaches it by silent edges and then one edge that consumes the character. -/
theorem mem_advance :
    t ∈ A.advance active c ↔
      ∃ s ∈ active, ∃ u, A.SilentlyReaches s u ∧ ⟨some c, t⟩ ∈ A.edgesFrom u := by
  rw [advance, mem_move]
  constructor
  · intro hmove
    obtain ⟨u, hu, hedge⟩ := hmove
    obtain ⟨s, hs, hreach⟩ := mem_closure.mp hu
    exact ⟨s, hs, u, hreach, hedge⟩
  · intro hmove
    obtain ⟨s, hs, u, hreach, hedge⟩ := hmove
    exact ⟨u, mem_closure.mpr ⟨s, hs, hreach⟩, hedge⟩

/-- Closing the states that are active after a text gives the ends of all paths
that spell the text. -/
theorem mem_closure_activeAfter :
    t ∈ A.closure (A.activeAfter active text).toList ↔ ∃ s ∈ active, A.Path s text t := by
  induction text generalizing active with
  | nil => exact mem_closure
  | cons c rest ih =>
      rw [activeAfter_cons, ih]
      constructor
      · intro hlater
        obtain ⟨v, hv, hrest⟩ := hlater
        obtain ⟨s, hs, u, hreach, hedge⟩ := mem_advance.mp hv
        exact ⟨s, hs, path_cons_iff.mpr ⟨u, v, hreach, hedge, hrest⟩⟩
      · intro hpath
        obtain ⟨s, hs, hpath⟩ := hpath
        obtain ⟨u, v, hreach, hedge, hrest⟩ := path_cons_iff.mp hpath
        exact ⟨v, mem_advance.mpr ⟨s, hs, u, hreach, hedge⟩, hrest⟩

/-- The states after a text lead to the accepting state if some path to it spells
the text. -/
theorem isAccepting_activeAfter_iff :
    A.isAccepting (A.activeAfter active text) = true ↔ ∃ s ∈ active, A.Path s text A.accept := by
  rw [isAccepting, decide_eq_true_eq, mem_closure_activeAfter]

/-- Without active states no text is accepted. -/
theorem isAccepting_activeAfter_of_isEmpty (hempty : active.isEmpty = true) :
    A.isAccepting (A.activeAfter active text) = false := by
  rw [Bool.eq_false_iff]
  intro haccepting
  obtain ⟨s, hs, _⟩ := isAccepting_activeAfter_iff.mp haccepting
  exact StateSet.isEmpty_iff.mp hempty s hs

/-- Stopping early does not change a verdict: a run accepts if the states that
are active after the whole text lead to the accepting state. -/
theorem accepted_runFrom (A : Automaton) (active : StateSet) (position : Nat)
    (text : List Char) :
    (A.runFrom active position text).accepted = A.isAccepting (A.activeAfter active text) := by
  induction text generalizing active position with
  | nil => rfl
  | cons c rest ih =>
      by_cases hempty : (A.advance active c).isEmpty = true
      · simp only [runFrom, hempty, ↓reduceIte]
        exact (isAccepting_activeAfter_of_isEmpty hempty).symm
      · simp only [runFrom, hempty, Bool.false_eq_true, ↓reduceIte]
        exact ih (A.advance active c) (position + 1)

/-- So following a text to its end from the start gives the verdict on it. -/
theorem accepts_eq_isAccepting (A : Automaton) (text : List Char) :
    A.accepts text = A.isAccepting (A.activeAfter A.initial text) :=
  accepted_runFrom A A.initial 0 text

/-- An automaton accepts a text exactly if a path from its start to its accepting
state spells it. -/
theorem accepts_iff_path : A.accepts text = true ↔ A.Path A.start text A.accept := by
  rw [accepts_eq_isAccepting, isAccepting_activeAfter_iff]
  simp

end Automaton

end PatternAutomata
