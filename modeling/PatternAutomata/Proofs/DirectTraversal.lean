import PatternAutomata.Proofs.LockStep

/-!
# After an elimination no closure is needed

An elimination gives every state what it reached silently, so that its automaton
can be followed along consuming edges alone.  One plain move of it is what one
character did before, closure included (`move_eliminate`), and a state led to
the accepting one exactly if it is that state or has a direct silent edge to it
(`silentlyReaches_accept_iff`).

The silent edges that an elimination leaves are therefore needed once at most,
behind the last character.
-/

namespace PatternAutomata

namespace Automaton

variable {A : Automaton} {s : Nat}

/-- **A move after an elimination is a whole advance before.** -/
theorem move_eliminate (A : Automaton) (states : StateSet) (c : Char) :
    A.eliminate.move states c = A.advance states c := by
  apply StateSet.ext
  intro t
  rw [mem_move, mem_advance]
  simp only [mem_consuming_eliminate]

/-- A text is followed by plain moves as it was by advances. -/
theorem foldl_move_eliminate (A : Automaton) (states : StateSet) (text : List Char) :
    text.foldl A.eliminate.move states = A.activeAfter states text := by
  induction text generalizing states with
  | nil => rfl
  | cons c rest ih => rw [List.foldl_cons, ih, move_eliminate, activeAfter_cons]

/-- Closing a set of states before a move adds nothing, in whichever of the two
automata it is closed. -/
theorem move_closure_eliminate (A : Automaton) (states : StateSet) (c : Char) :
    A.eliminate.move (A.eliminate.closure states.toList) c = A.eliminate.move states c ∧
      A.eliminate.move (A.closure states.toList) c = A.eliminate.move states c := by
  refine ⟨?_, ?_⟩
  · calc A.eliminate.move (A.eliminate.closure states.toList) c
        = A.eliminate.advance states c := rfl
      _ = A.advance states c := advance_eliminate A states c
      _ = A.eliminate.move states c := (move_eliminate A states c).symm
  · apply StateSet.ext
    intro t
    rw [move_eliminate, move_eliminate, mem_advance, mem_advance]
    constructor
    · intro hmove
      obtain ⟨u, hu, v, hfurther, hedge⟩ := hmove
      obtain ⟨s, hs, hreach⟩ := mem_closure.mp hu
      exact ⟨s, hs, v, hreach.trans hfurther, hedge⟩
    · intro hmove
      obtain ⟨s, hs, v, hreach, hedge⟩ := hmove
      exact ⟨s, mem_closure.mpr ⟨s, hs, SilentlyReaches.refl A s⟩, v, hreach, hedge⟩

/-- A state led to the accepting one exactly if it is that state or has a direct
silent edge to it after the elimination. -/
theorem silentlyReaches_accept_iff :
    A.SilentlyReaches s A.accept ↔
      s = A.accept ∨ ⟨none, A.accept⟩ ∈ A.eliminate.edgesFrom s := by
  constructor
  · intro hreach
    by_cases hs : s = A.accept
    · exact Or.inl hs
    · exact Or.inr (silent_accept_mem_eliminate hreach hs)
  · intro hdirect
    rcases hdirect with rfl | hedge
    · exact SilentlyReaches.refl A _
    · apply silentlyReaches_of_eliminate
      exact SilentlyReaches.head hedge (SilentlyReaches.refl _ _)

/-- **After an elimination consuming edges suffice.**  A set of states need not be
closed before a move.  A text is accepted exactly if following it along consuming
edges from the start leads to the accepting state, or to a state with a direct
silent edge to that. -/
theorem eliminate_needs_no_closure (A : Automaton) :
    (∀ (states : StateSet) (c : Char),
      A.eliminate.move (A.eliminate.closure states.toList) c = A.eliminate.move states c ∧
      A.eliminate.move (A.closure states.toList) c = A.eliminate.move states c) ∧
    ∀ text : List Char, A.accepts text = true ↔
      ∃ s ∈ text.foldl A.eliminate.move A.eliminate.initial,
        s = A.eliminate.accept ∨
          ⟨none, A.eliminate.accept⟩ ∈ A.eliminate.edgesFrom s := by
  refine ⟨?_, ?_⟩
  · intro states c
    exact move_closure_eliminate A states c
  · intro text
    rw [accepts_eq_isAccepting, foldl_move_eliminate, initial_eliminate, isAccepting,
      decide_eq_true_eq, mem_closure]
    simp only [silentlyReaches_accept_iff, accept_eliminate, StateSet.mem_toList]

end Automaton

end PatternAutomata
