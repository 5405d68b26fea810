import PatternAutomata.Automaton.Closure
import PatternAutomata.Counter

/-!
# Elimination of silent edges

Silent edges are made superfluous in place, one state after the other in ascending
order.  A state with silent edges gets the consuming edges of all states that its
silent edges lead to, and a direct silent edge to the accepting state if that is
among them.  A later state therefore sees what earlier ones were given.

When all states have been treated, the silent edges between two inner states are
dropped; those that leave or enter the start or the accepting state are kept.
The start, the accepting state and the number of states do not change.

The edges that are copied are counted in a word of 32 bits with a sign; silent
edges are counted without a bound.
-/

namespace PatternAutomata

/-- The consuming edges of a state. -/
def Automaton.consumingFrom (A : Automaton) (s : Nat) : List Edge :=
  (A.edgesFrom s).filter fun e => !e.isSilent

/-- The consuming edges of the states in a set, other than `s`, state by state. -/
def Automaton.copiesFor (A : Automaton) (s : Nat) (reach : StateSet) : List Edge :=
  (reach.toList.filter (· ≠ s)).flatMap A.consumingFrom

/-- An automaton in which states are being treated, and the number of consuming
edges that have been added to it. -/
structure Sweep where
  automaton : Automaton
  copied : Int32

namespace Sweep

/-- Gives state `s` a copy of a consuming edge, counted if it is new. -/
def copy (s : Nat) (sweep : Sweep) (e : Edge) : Sweep :=
  ⟨sweep.automaton.connect s e,
    if sweep.automaton.hasEdge s e then sweep.copied else sweep.copied + 1⟩

/-- Treats one state. -/
def treat (sweep : Sweep) (s : Nat) : Sweep :=
  let A := sweep.automaton
  let ends := A.successors none s
  if ends.isEmpty then
    sweep
  else
    let reach := A.closure ends
    let filled := (A.copiesFor s reach).foldl (copy s) sweep
    if s ≠ A.accept ∧ A.accept ∈ reach then
      { filled with automaton := filled.automaton.bridge s A.accept }
    else
      filled

end Sweep

/-- The outcome of an elimination: the automaton, the number of consuming edges
that were added, and how many of the `total` silent edges there were in the end
have been removed. -/
structure Elimination where
  automaton : Automaton
  copied : Int32
  removed : Nat
  total : Nat

namespace Automaton

/-- All states treated, and no edge removed yet. -/
def sweep (A : Automaton) : Sweep :=
  (List.range A.size).foldl Sweep.treat ⟨A, 0⟩

/-- Whether an edge of state `s` is kept: it consumes a character, or one of its
ends is the start or the accepting state. -/
def isKept (A : Automaton) (s : Nat) (e : Edge) : Bool :=
  s == A.start || s == A.accept || !e.isSilent || e.target == A.start || e.target == A.accept

/-- The automaton without the silent edges between inner states. -/
def prune (A : Automaton) : Automaton :=
  { A with edges := A.edges.mapIdx fun s edges => edges.filter (A.isKept s) }

@[simp] theorem size_prune (A : Automaton) : A.prune.size = A.size := by
  simp [prune, size]

/-- Every state keeps the edges that are to be kept, in their order. -/
theorem edgesFrom_prune (A : Automaton) (s : Nat) :
    A.prune.edgesFrom s = (A.edgesFrom s).filter (A.isKept s) := by
  simp only [prune, edgesFrom, Array.getD_eq_getD_getElem?, Array.getElem?_mapIdx]
  cases A.edges[s]? <;> rfl

/-- The elimination of an automaton's silent edges, with its account. -/
def elimination (A : Automaton) : Elimination :=
  let swept := A.sweep
  let pruned := swept.automaton.prune
  let total := swept.automaton.silentCount
  ⟨pruned, swept.copied, total - pruned.silentCount, total⟩

/-- The automaton after the elimination of its silent edges. -/
def eliminate (A : Automaton) : Automaton :=
  A.elimination.automaton

end Automaton

end PatternAutomata
