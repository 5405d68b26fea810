/-!
# Automata with silent edges

An automaton has states numbered from zero, one of them the start and one the
accepting state.  Every state has a list of outgoing edges, in the order in which
they were added.  An edge consumes the character it is labelled with; an edge
without a label is silent, and is followed without consuming anything.

Nothing forces the start, the accepting state or the target of an edge to exist:
a state that does not exist has no edges.  Adding an edge that is there already
changes nothing, so no list of edges ever holds a repetition.
-/

namespace PatternAutomata

/-- An edge to a state, silent if it has no label. -/
structure Edge where
  label : Option Char
  target : Nat
  deriving DecidableEq, Repr

/-- Whether an edge is followed without consuming a character. -/
def Edge.isSilent (e : Edge) : Bool :=
  e.label.isNone

/-- A nondeterministic automaton with silent edges; the edges of state `s` stand
at index `s`. -/
structure Automaton where
  start : Nat := 0
  accept : Nat := 0
  edges : Array (List Edge) := #[]
  deriving DecidableEq, Repr

/-- The entry and the exit of a part of an automaton. -/
structure Block where
  entry : Nat
  exit : Nat
  deriving DecidableEq, Repr

/-- The refusal to add an edge to a state that does not exist. -/
structure MissingState where
  size : Nat
  state : Nat
  deriving DecidableEq, Repr

/-- A missing state in words. -/
def MissingState.message (m : MissingState) : String :=
  "index out of bounds: the len is " ++ toString m.size ++ " but the index is " ++ toString m.state

namespace Automaton

/-- The automaton without states. -/
def blank : Automaton :=
  {}

/-- The number of states. -/
def size (A : Automaton) : Nat :=
  A.edges.size

/-- The edges that leave a state, none for a state that does not exist. -/
def edgesFrom (A : Automaton) (s : Nat) : List Edge :=
  A.edges.getD s []

/-- Whether a state has the given edge. -/
def hasEdge (A : Automaton) (s : Nat) (e : Edge) : Bool :=
  (A.edgesFrom s).any fun f => f.target == e.target && f.label == e.label

/-- The ends of the edges that leave a state under a label, in their order. -/
def successors (A : Automaton) (label : Option Char) (s : Nat) : List Nat :=
  ((A.edgesFrom s).filter (·.label = label)).map (·.target)

/-- All edges, state by state. -/
def allEdges (A : Automaton) : List Edge :=
  A.edges.toList.flatten

/-- The number of edges. -/
def edgeCount (A : Automaton) : Nat :=
  A.allEdges.length

/-- The number of silent edges. -/
def silentCount (A : Automaton) : Nat :=
  A.allEdges.countP Edge.isSilent

/-- One more state, which gets the next number and has no edges. -/
def addState (A : Automaton) : Nat × Automaton :=
  (A.size, { A with edges := A.edges.push [] })

/-- Two more states, for the ends of a new part. -/
def addPair (A : Automaton) : Block × Automaton :=
  (⟨A.size, A.size + 1⟩, { A with edges := (A.edges.push []).push [] })

/-- The automaton with the edge `e` behind the edges of state `s`, unless that
edge is there already or the state does not exist. -/
def connect (A : Automaton) (s : Nat) (e : Edge) : Automaton :=
  if A.hasEdge s e then A else { A with edges := A.edges.modify s (· ++ [e]) }

/-- The automaton with a silent edge from `s` to `t`. -/
def bridge (A : Automaton) (s t : Nat) : Automaton :=
  A.connect s ⟨none, t⟩

/-- Adds an edge to a state that has to exist, and says whether it was new. -/
def connect? (A : Automaton) (s : Nat) (e : Edge) : Except MissingState (Bool × Automaton) :=
  if s < A.size then
    .ok (!A.hasEdge s e, A.connect s e)
  else
    .error ⟨A.size, s⟩

/-- The automaton of the empty word: one state, which is start and end. -/
def ofEmptyWord : Automaton :=
  { edges := #[[]] }

@[simp] theorem hasEdge_iff {A : Automaton} {s : Nat} {e : Edge} :
    A.hasEdge s e = true ↔ e ∈ A.edgesFrom s := by
  simp only [hasEdge, List.any_eq_true, Bool.and_eq_true, beq_iff_eq]
  constructor
  · rintro ⟨f, hmem, htarget, hlabel⟩
    obtain rfl : f = e := by
      cases f
      cases e
      simp_all
    exact hmem
  · intro hmem
    exact ⟨e, hmem, rfl, rfl⟩

/-- The edges of a state that exists are those at its index. -/
theorem edgesFrom_eq_getElem {A : Automaton} {s : Nat} (hinside : s < A.edges.size) :
    A.edgesFrom s = A.edges[s] := by
  simp [edgesFrom, Array.getD, hinside]

/-- A state that does not exist has no edges. -/
theorem edgesFrom_of_size_le {A : Automaton} {s : Nat} (houtside : A.size ≤ s) :
    A.edgesFrom s = [] := by
  simp only [size] at houtside
  simp [edgesFrom, Array.getD, Nat.not_lt.2 houtside]

/-- Only an existing state has edges. -/
theorem lt_size_of_mem_edgesFrom {A : Automaton} {s : Nat} {e : Edge}
    (hmem : e ∈ A.edgesFrom s) : s < A.size := by
  by_cases hs : s < A.size
  · exact hs
  · rw [edgesFrom_of_size_le (by omega)] at hmem
    cases hmem

/-- Automata are the same if their states have the same edges in the same order. -/
theorem ext_edgesFrom {A B : Automaton} (hstart : A.start = B.start) (haccept : A.accept = B.accept)
    (hsize : A.size = B.size) (hsame : ∀ s, A.edgesFrom s = B.edgesFrom s) : A = B := by
  have hedges : A.edges = B.edges := by
    apply Array.ext
    · exact hsize
    · intro s hinside hinside'
      rw [← edgesFrom_eq_getElem hinside, ← edgesFrom_eq_getElem hinside']
      exact hsame s
  cases A
  cases B
  simp_all

@[simp] theorem mem_successors {A : Automaton} {label : Option Char} {s t : Nat} :
    t ∈ A.successors label s ↔ ⟨label, t⟩ ∈ A.edgesFrom s := by
  simp only [successors, List.mem_map, List.mem_filter, decide_eq_true_eq]
  constructor
  · rintro ⟨⟨l, u⟩, ⟨hmem, rfl⟩, rfl⟩
    exact hmem
  · intro hmem
    exact ⟨_, ⟨hmem, rfl⟩, rfl⟩

/-- The edges of the automaton are those of its states. -/
theorem mem_allEdges {A : Automaton} {e : Edge} :
    e ∈ A.allEdges ↔ ∃ s, e ∈ A.edgesFrom s := by
  rw [allEdges, List.mem_flatten]
  constructor
  · rintro ⟨edges, hmem, hhere⟩
    obtain ⟨s, hinside, rfl⟩ := List.mem_iff_getElem.1 hmem
    refine ⟨s, ?_⟩
    rw [Array.length_toList] at hinside
    rw [edgesFrom_eq_getElem hinside]
    exact hhere
  · rintro ⟨s, hmem⟩
    have hinside := lt_size_of_mem_edgesFrom hmem
    rw [size] at hinside
    refine ⟨A.edges[s], Array.getElem_mem_toList hinside, ?_⟩
    rwa [edgesFrom_eq_getElem hinside] at hmem

@[simp] theorem size_addPair (A : Automaton) : A.addPair.2.size = A.size + 2 := by
  simp [addPair, size]

@[simp] theorem entry_addPair (A : Automaton) : A.addPair.1.entry = A.size :=
  rfl

@[simp] theorem exit_addPair (A : Automaton) : A.addPair.1.exit = A.size + 1 :=
  rfl

/-- A new state has no edges, and takes none from the others. -/
@[simp] theorem edgesFrom_addState (A : Automaton) (s : Nat) :
    A.addState.2.edgesFrom s = A.edgesFrom s := by
  simp only [addState, edgesFrom, Array.getD_eq_getD_getElem?, Array.getElem?_push]
  split
  · next hlast => simp [hlast]
  · rfl

/-- A new pair of states has no edges, and takes none from the others. -/
@[simp] theorem edgesFrom_addPair (A : Automaton) (s : Nat) :
    A.addPair.2.edgesFrom s = A.edgesFrom s :=
  (edgesFrom_addState A.addState.2 s).trans (edgesFrom_addState A s)

@[simp] theorem size_connect (A : Automaton) (s : Nat) (e : Edge) :
    (A.connect s e).size = A.size := by
  unfold connect
  split <;> simp [size]

@[simp] theorem start_connect (A : Automaton) (s : Nat) (e : Edge) :
    (A.connect s e).start = A.start := by
  unfold connect
  split <;> rfl

@[simp] theorem accept_connect (A : Automaton) (s : Nat) (e : Edge) :
    (A.connect s e).accept = A.accept := by
  unfold connect
  split <;> rfl

/-- What adding an edge does to the edges of each state. -/
theorem edgesFrom_connect (A : Automaton) (s : Nat) (e : Edge) (t : Nat) :
    (A.connect s e).edgesFrom t =
      if t = s ∧ s < A.size ∧ e ∉ A.edgesFrom s then A.edgesFrom s ++ [e] else A.edgesFrom t := by
  unfold connect
  split
  · next hmem => simp [hasEdge_iff.1 hmem]
  · next hnew =>
      rw [hasEdge_iff] at hnew
      by_cases hinside : t < A.edges.size
      · by_cases hother : t = s
        · subst hother
          have hhere := edgesFrom_eq_getElem hinside
          rw [hhere] at hnew
          simp [edgesFrom, size, Array.getD, hinside, hnew, Array.getElem_modify_self]
        · simp [edgesFrom, Array.getD, hinside, Array.getElem_modify, hother, Ne.symm hother]
      · have habsent : ¬(t = s ∧ s < A.size ∧ e ∉ A.edgesFrom s) := by
          rintro ⟨rfl, hpresent, -⟩
          exact hinside hpresent
        rw [if_neg habsent]
        simp [edgesFrom, Array.getD, hinside]

/-- Adding an edge adds it to the edges of its source, if that exists. -/
theorem mem_edgesFrom_connect {A : Automaton} {s t : Nat} {e f : Edge} :
    f ∈ (A.connect s e).edgesFrom t ↔ f ∈ A.edgesFrom t ∨ t = s ∧ s < A.size ∧ f = e := by
  rw [edgesFrom_connect]
  split
  · next hadded =>
      obtain ⟨rfl, hinside, -⟩ := hadded
      simp [hinside]
  · next habsent =>
      constructor
      · exact Or.inl
      · rintro (hmem | ⟨rfl, hinside, rfl⟩)
        · exact hmem
        · by_cases hold : f ∈ A.edgesFrom t
          · exact hold
          · exact absurd ⟨rfl, hinside, hold⟩ habsent

@[simp] theorem size_bridge (A : Automaton) (s t : Nat) : (A.bridge s t).size = A.size :=
  size_connect A s ⟨none, t⟩

theorem mem_edgesFrom_bridge {A : Automaton} {s t u : Nat} {e : Edge} :
    e ∈ (A.bridge s t).edgesFrom u ↔ e ∈ A.edgesFrom u ∨ u = s ∧ s < A.size ∧ e = ⟨none, t⟩ :=
  mem_edgesFrom_connect

end Automaton

end PatternAutomata
