/-!
# Finite sets of states

A set of states is kept as its ascending list without repetition.  The list is
determined by its members (`StateSet.ext`), so two sets are equal exactly when
they hold the same states, and the order in which states were put in leaves no
trace.
-/

namespace PatternAutomata

/-- A state set, by its ascending list. -/
structure StateSet where
  toList : List Nat
  ascending : toList.Pairwise (· < ·)
  deriving DecidableEq

namespace StateSet

/-- Puts a number into an ascending list, unless it is there. -/
def insertAscending (s : Nat) : List Nat → List Nat
  | [] => [s]
  | t :: rest =>
    if s < t then s :: t :: rest
    else if s = t then t :: rest
    else t :: insertAscending s rest

@[simp] theorem mem_insertAscending {s t : Nat} {states : List Nat} :
    t ∈ insertAscending s states ↔ t = s ∨ t ∈ states := by
  induction states with
  | nil => simp [insertAscending]
  | cons u rest ih => grind [insertAscending]

theorem pairwise_insertAscending {s : Nat} {states : List Nat}
    (hascending : states.Pairwise (· < ·)) : (insertAscending s states).Pairwise (· < ·) := by
  induction states with
  | nil => simp [insertAscending]
  | cons u rest ih =>
      have htail := ih hascending.tail
      have hhead := (List.pairwise_cons.1 hascending).1
      unfold insertAscending
      split
      · next hless =>
          refine List.pairwise_cons.2 ⟨fun t hmem => ?_, hascending⟩
          rcases List.mem_cons.1 hmem with rfl | hmem
          · exact hless
          · exact Nat.lt_trans hless (hhead t hmem)
      · split
        · exact hascending
        · refine List.pairwise_cons.2 ⟨fun t hmem => ?_, htail⟩
          rcases mem_insertAscending.1 hmem with rfl | hmem
          · omega
          · exact hhead t hmem

/-- The set without states. -/
def empty : StateSet :=
  ⟨[], .nil⟩

/-- The set with one more state. -/
def insert (s : Nat) (states : StateSet) : StateSet :=
  ⟨insertAscending s states.toList, pairwise_insertAscending states.ascending⟩

/-- The set of the states in a list. -/
def ofList (states : List Nat) : StateSet :=
  states.foldr insert empty

instance : Membership Nat StateSet where
  mem states s := s ∈ states.toList

instance (s : Nat) (states : StateSet) : Decidable (s ∈ states) :=
  inferInstanceAs (Decidable (s ∈ states.toList))

/-- The number of states in the set. -/
def size (states : StateSet) : Nat :=
  states.toList.length

/-- Whether the set has no states. -/
def isEmpty (states : StateSet) : Bool :=
  states.toList.isEmpty

@[simp] theorem mem_toList {s : Nat} {states : StateSet} : s ∈ states.toList ↔ s ∈ states :=
  Iff.rfl

@[simp] theorem not_mem_empty {s : Nat} : s ∉ empty :=
  List.not_mem_nil

@[simp] theorem mem_insert {s t : Nat} {states : StateSet} :
    t ∈ states.insert s ↔ t = s ∨ t ∈ states :=
  mem_insertAscending

@[simp] theorem mem_ofList {s : Nat} {states : List Nat} : s ∈ ofList states ↔ s ∈ states := by
  induction states with
  | nil => simp [ofList]
  | cons t rest ih =>
      rw [ofList, List.foldr_cons, mem_insert, List.mem_cons]
      exact or_congr_right ih

theorem isEmpty_iff {states : StateSet} : states.isEmpty = true ↔ ∀ s, s ∉ states := by
  simp [isEmpty, List.eq_nil_iff_forall_not_mem]

theorem isEmpty_eq_false_iff {states : StateSet} : states.isEmpty = false ↔ ∃ s, s ∈ states := by
  rw [← Bool.not_eq_true, isEmpty_iff, Classical.not_forall_not]

/-- Each state of a set is listed once. -/
theorem nodup_toList (states : StateSet) : states.toList.Nodup :=
  states.ascending.imp Nat.ne_of_lt

/-- Sets with the same members are equal. -/
theorem ext {a b : StateSet} (hsame : ∀ s, s ∈ a ↔ s ∈ b) : a = b := by
  obtain ⟨xs, hx⟩ := a
  obtain ⟨ys, hy⟩ := b
  have hlists : xs = ys :=
    List.Perm.eq_of_pairwise
      (fun _ _ _ _ hless hgreater => absurd hgreater (Nat.lt_asymm hless)) hx hy
      ((List.perm_ext_iff_of_nodup (hx.imp Nat.ne_of_lt) (hy.imp Nat.ne_of_lt)).2 hsame)
  subst hlists
  rfl

end StateSet

end PatternAutomata
