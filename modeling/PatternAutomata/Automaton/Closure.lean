import PatternAutomata.Automaton.Basic
import PatternAutomata.Automaton.StateSet

/-!
# Silent closure

The closure of some states holds everything that is reached from them by silent
edges.  It is found by a search that keeps two lists: the states it has met, and
those of them whose edges it has still to follow.  A state is put on both lists
together, and only when it is met for the first time.

The search ends because each state that is put on the list of pending ones is the
end of a silent edge that had not been met before, and there are finitely many
silent edges (`unmet_add_pending_le`).  States that do not exist need no care:
they are met, and have no edges to follow.
-/

namespace PatternAutomata

/-- A search in progress: the states met so far, and those still to be followed;
both lists begin with the newest. -/
structure Search where
  met : List Nat
  pending : List Nat

/-- Whether a state has been met. -/
def Search.hasMet (search : Search) (s : Nat) : Bool :=
  search.met.any (· == s)

/-- Takes note of a state that may be new. -/
def Search.visit (search : Search) (s : Nat) : Search :=
  if search.hasMet s then search else ⟨s :: search.met, s :: search.pending⟩

@[simp] theorem Search.hasMet_iff {search : Search} {s : Nat} :
    search.hasMet s = true ↔ s ∈ search.met := by
  simp [hasMet]

namespace Automaton

/-- The ends of all silent edges of the automaton. -/
def silentEnds (A : Automaton) : List Nat :=
  (A.allEdges.filter Edge.isSilent).map (·.target)

/-- The number of silent edges whose end has not been met. -/
def unmet (A : Automaton) (met : List Nat) : Nat :=
  A.silentEnds.countP (· ∉ met)

/-- What a state reaches by one silent edge is the end of a silent edge. -/
theorem mem_silentEnds {A : Automaton} {s t : Nat} (hmem : t ∈ A.successors none s) :
    t ∈ A.silentEnds := by
  rw [mem_successors] at hmem
  exact List.mem_map.2 ⟨_, List.mem_filter.2 ⟨mem_allEdges.2 ⟨s, hmem⟩, rfl⟩, rfl⟩

/-- Among numbers that hold a new one, fewer are unmet once that one is met. -/
theorem countP_unmet_cons_lt {ends met : List Nat} {s : Nat} (hmem : s ∈ ends) (hnew : s ∉ met) :
    ends.countP (· ∉ s :: met) < ends.countP (· ∉ met) := by
  induction ends with
  | nil => cases hmem
  | cons t rest ih =>
      have hweak : rest.countP (· ∉ s :: met) ≤ rest.countP (· ∉ met) :=
        List.countP_mono_left fun u _ hu => by simp_all
      simp only [List.countP_cons]
      by_cases hhere : t = s
      · subst hhere
        simp only [List.mem_cons, true_or, not_true_eq_false, decide_false, Bool.false_eq_true,
          ↓reduceIte, hnew, not_false_eq_true, decide_true] at hweak ⊢
        omega
      · have hrest := ih ((List.mem_cons.1 hmem).resolve_left (Ne.symm hhere))
        simp only [List.mem_cons, hhere, false_or] at hrest ⊢
        omega

/-- Following the silent edges of a state adds to the pending states no more than
it takes off the unmet ones. -/
theorem unmet_add_pending_le {A : Automaton} {ends : List Nat} (search : Search)
    (hsilent : ∀ t ∈ ends, t ∈ A.silentEnds) :
    A.unmet (ends.foldl Search.visit search).met + (ends.foldl Search.visit search).pending.length ≤
      A.unmet search.met + search.pending.length := by
  induction ends generalizing search with
  | nil => exact Nat.le_refl _
  | cons t rest ih =>
      refine Nat.le_trans (ih (search.visit t) fun u hu => hsilent u (List.mem_cons_of_mem _ hu)) ?_
      unfold Search.visit
      split
      · exact Nat.le_refl _
      · next hnew =>
          rw [Search.hasMet_iff] at hnew
          have hfewer := countP_unmet_cons_lt (hsilent t List.mem_cons_self) hnew
          simp only [unmet, List.length_cons]
          omega

/-- Follows the pending states until none is left, and gives all states met. -/
def explore (A : Automaton) (met : List Nat) : List Nat → List Nat
  | [] => met
  | s :: rest =>
    let next := (A.successors none s).foldl Search.visit ⟨met, rest⟩
    A.explore next.met next.pending
  termination_by pending => A.unmet met + pending.length
  decreasing_by
    have hbound := unmet_add_pending_le ⟨met, rest⟩
      fun t => mem_silentEnds (A := A) (s := s) (t := t)
    simp only [List.length_cons] at hbound ⊢
    omega

/-- The states met by a search from some states, each once, the newest first. -/
def reached (A : Automaton) (states : List Nat) : List Nat :=
  let first := states.foldl Search.visit ⟨[], []⟩
  A.explore first.met first.pending

/-- All states reached from some states by silent edges, these included. -/
def closure (A : Automaton) (states : List Nat) : StateSet :=
  StateSet.ofList (A.reached states)

end Automaton

end PatternAutomata
