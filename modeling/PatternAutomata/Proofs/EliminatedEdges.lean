import PatternAutomata.Automaton.Elimination
import PatternAutomata.Proofs.SilentReach

/-!
# The edges an elimination leaves

An elimination treats the states in place, so a later state sees what earlier
ones were given.  That makes no difference to the edges it ends with.  What a
state gains is said once, in terms of the automaton as it was (`Gains`), and
`Treated` says that exactly the states of a set have received their gains.
Treating one state is such a step (`treated_treat`), and such steps compose
whatever the order (`Treated.trans`), since an edge gained from a treated state
could have been gained from where that state had it.

`mem_edgesFrom_eliminate` is the outcome: every state ends with its own edges
and its gains, without the silent edges between inner states.
-/

namespace PatternAutomata

namespace Automaton

/-- What a state gains when it is treated: copies of the consuming edges of the
other states it silently reaches, and a silent edge to the accepting state if
that is one of them. -/
def Gains (A : Automaton) (s : Nat) (e : Edge) : Prop :=
  ∃ u, u ≠ s ∧ A.SilentlyReaches s u ∧
    (e.isSilent = false ∧ e ∈ A.edgesFrom u ∨ u = A.accept ∧ e = ⟨none, A.accept⟩)

/-- `B` is `A` after exactly the states in `done` have received their gains. -/
structure Treated (A : Automaton) (done : Nat → Prop) (B : Automaton) : Prop where
  start_eq : B.start = A.start
  accept_eq : B.accept = A.accept
  size_eq : B.size = A.size
  mem_edges : ∀ s e, e ∈ B.edgesFrom s ↔ e ∈ A.edgesFrom s ∨ done s ∧ A.Gains s e

variable {A B C : Automaton} {s t u : Nat} {e : Edge} {done more : Nat → Prop}

theorem mem_consumingFrom :
    e ∈ A.consumingFrom s ↔ e ∈ A.edgesFrom s ∧ e.isSilent = false := by
  simp [consumingFrom]

/-- Another state is in the closure of a state's silent successors exactly if the
state reaches it. -/
theorem mem_closure_successors (hne : u ≠ s) :
    u ∈ A.closure (A.successors none s) ↔ A.SilentlyReaches s u := by
  rw [mem_closure]
  constructor
  · intro hfrom
    obtain ⟨t, ht, hreach⟩ := hfrom
    exact SilentlyReaches.head (mem_successors.mp ht) hreach
  · intro hreach
    rcases hreach.eq_or_head with heq | ⟨t, hedge, hrest⟩
    · exact absurd heq hne
    · exact ⟨t, mem_successors.mpr hedge, hrest⟩

/-- Only a state with silent edges gains any. -/
theorem Gains.exists_successor (hgain : A.Gains s e) : ∃ t, t ∈ A.successors none s := by
  obtain ⟨u, hne, hreach, _⟩ := hgain
  rcases hreach.eq_or_head with heq | ⟨t, hedge, _⟩
  · exact absurd heq hne
  · exact ⟨t, mem_successors.mpr hedge⟩

theorem Gains.lt_size (hgain : A.Gains s e) : s < A.size := by
  obtain ⟨t, ht⟩ := hgain.exists_successor
  exact lt_size_of_mem_edgesFrom (mem_successors.mp ht)

/-- A gained silent edge leads where silent edges led before. -/
theorem Gains.silentlyReaches (hgain : A.Gains s ⟨none, t⟩) : A.SilentlyReaches s t := by
  obtain ⟨u, _, hreach, ⟨hconsuming, _⟩ | ⟨haccept, hedge⟩⟩ := hgain
  · simp [Edge.isSilent] at hconsuming
  · have ht : t = A.accept := by simpa using hedge
    rw [ht, ← haccept]
    exact hreach

/-- The gains of a state in the terms in which they are computed: the edges copied
from the closure, and the shortcut to the accepting state. -/
theorem gains_iff :
    A.Gains s e ↔
      e ∈ A.copiesFor s (A.closure (A.successors none s)) ∨
        (s ≠ A.accept ∧ A.accept ∈ A.closure (A.successors none s)) ∧ e = ⟨none, A.accept⟩ := by
  simp only [copiesFor, List.mem_flatMap, List.mem_filter, StateSet.mem_toList,
    decide_eq_true_eq, mem_consumingFrom]
  constructor
  · intro hgain
    obtain ⟨u, hne, hreach, ⟨hconsuming, hmem⟩ | ⟨rfl, hshort⟩⟩ := hgain
    · exact Or.inl ⟨u, ⟨(mem_closure_successors hne).mpr hreach, hne⟩, hmem, hconsuming⟩
    · exact Or.inr ⟨⟨hne.symm, (mem_closure_successors hne).mpr hreach⟩, hshort⟩
  · intro hcomputed
    rcases hcomputed with ⟨u, ⟨hu, hne⟩, hmem, hconsuming⟩ | ⟨⟨hne, hu⟩, hshort⟩
    · exact ⟨u, hne, (mem_closure_successors hne).mp hu, Or.inl ⟨hconsuming, hmem⟩⟩
    · exact ⟨A.accept, hne.symm, (mem_closure_successors hne.symm).mp hu, Or.inr ⟨rfl, hshort⟩⟩

namespace Treated

theorem refl (A : Automaton) : A.Treated (fun _ => False) A where
  start_eq := rfl
  accept_eq := rfl
  size_eq := rfl
  mem_edges := by simp

/-- Gains do not change which states reach which. -/
theorem silentlyReaches_iff (h : A.Treated done B) :
    B.SilentlyReaches s t ↔ A.SilentlyReaches s t := by
  constructor
  · intro hreach
    refine hreach.preserves ?_ (SilentlyReaches.refl A s)
    intro u v hu hedge
    rcases (h.mem_edges u _).mp hedge with hold | ⟨_, hgain⟩
    · exact hu.trans (SilentlyReaches.head hold (SilentlyReaches.refl A v))
    · exact hu.trans hgain.silentlyReaches
  · intro hreach
    refine hreach.preserves ?_ (SilentlyReaches.refl B s)
    intro u v hu hedge
    have hkept := (h.mem_edges u _).mpr (Or.inl hedge)
    exact hu.trans (SilentlyReaches.head hkept (SilentlyReaches.refl B v))

/-- What could be gained before can still be gained. -/
theorem gains_of_gains (h : A.Treated done B) (hgain : A.Gains s e) : B.Gains s e := by
  obtain ⟨u, hne, hreach, hedge⟩ := hgain
  refine ⟨u, hne, h.silentlyReaches_iff.mpr hreach, ?_⟩
  rcases hedge with ⟨hconsuming, hmem⟩ | ⟨haccept, heq⟩
  · exact Or.inl ⟨hconsuming, (h.mem_edges u e).mpr (Or.inl hmem)⟩
  · rw [h.accept_eq]
    exact Or.inr ⟨haccept, heq⟩

/-- Nothing is gained that was not there or could have been gained before. -/
theorem mem_or_gains (h : A.Treated done B) (hgain : B.Gains s e) :
    e ∈ A.edgesFrom s ∨ A.Gains s e := by
  obtain ⟨u, hne, hreach, hedge⟩ := hgain
  rw [h.silentlyReaches_iff] at hreach
  rcases hedge with ⟨hconsuming, hmem⟩ | ⟨haccept, heq⟩
  · rcases (h.mem_edges u e).mp hmem with hown | ⟨_, v, _, hfurther, hsource⟩
    · exact Or.inr ⟨u, hne, hreach, Or.inl ⟨hconsuming, hown⟩⟩
    · rcases hsource with ⟨_, hmem⟩ | ⟨_, rfl⟩
      · by_cases hback : v = s
        · exact Or.inl (hback ▸ hmem)
        · exact Or.inr ⟨v, hback, hreach.trans hfurther, Or.inl ⟨hconsuming, hmem⟩⟩
      · simp [Edge.isSilent] at hconsuming
  · rw [h.accept_eq] at haccept heq
    exact Or.inr ⟨u, hne, hreach, Or.inr ⟨haccept, heq⟩⟩

/-- **Treating states in place is treating them at once.**  Gains taken from an
automaton in which other states have received theirs are the gains of the
automaton as it was. -/
theorem trans (hfirst : A.Treated done B) (hsecond : B.Treated more C) :
    A.Treated (fun s => done s ∨ more s) C where
  start_eq := hsecond.start_eq.trans hfirst.start_eq
  accept_eq := hsecond.accept_eq.trans hfirst.accept_eq
  size_eq := hsecond.size_eq.trans hfirst.size_eq
  mem_edges := by
    intro s e
    rw [hsecond.mem_edges, hfirst.mem_edges]
    constructor
    · intro hmem
      rcases hmem with (hold | ⟨hdone, hgain⟩) | ⟨hmore, hgain⟩
      · exact Or.inl hold
      · exact Or.inr ⟨Or.inl hdone, hgain⟩
      · rcases hfirst.mem_or_gains hgain with hold | hgain
        · exact Or.inl hold
        · exact Or.inr ⟨Or.inr hmore, hgain⟩
    · intro hmem
      rcases hmem with hold | ⟨hdone | hmore, hgain⟩
      · exact Or.inl (Or.inl hold)
      · exact Or.inl (Or.inr ⟨hdone, hgain⟩)
      · exact Or.inr ⟨hmore, hfirst.gains_of_gains hgain⟩

end Treated

end Automaton

namespace Sweep

open Automaton

variable {sweep : Sweep} {s t : Nat} {e : Edge}

/-- Copying edges to a state changes nothing but the edges of that state. -/
theorem frame_foldl_copy (s : Nat) (sweep : Sweep) (es : List Edge) :
    (es.foldl (copy s) sweep).automaton.start = sweep.automaton.start ∧
      (es.foldl (copy s) sweep).automaton.accept = sweep.automaton.accept ∧
      (es.foldl (copy s) sweep).automaton.size = sweep.automaton.size := by
  induction es generalizing sweep with
  | nil => exact ⟨rfl, rfl, rfl⟩
  | cons e rest ih =>
      have hrest := ih (copy s sweep e)
      simpa [copy] using hrest

theorem mem_edgesFrom_foldl_copy {es : List Edge} (hs : s < sweep.automaton.size) :
    e ∈ (es.foldl (copy s) sweep).automaton.edgesFrom t ↔
      e ∈ sweep.automaton.edgesFrom t ∨ t = s ∧ e ∈ es := by
  induction es generalizing sweep with
  | nil => simp
  | cons f rest ih =>
      have hcopied : s < (copy s sweep f).automaton.size := by simpa [copy] using hs
      rw [List.foldl_cons, ih hcopied, copy, mem_edgesFrom_connect, List.mem_cons]
      grind

theorem frame_treat (sweep : Sweep) (s : Nat) :
    (sweep.treat s).automaton.start = sweep.automaton.start ∧
      (sweep.treat s).automaton.accept = sweep.automaton.accept ∧
      (sweep.treat s).automaton.size = sweep.automaton.size := by
  let reach := sweep.automaton.closure (sweep.automaton.successors none s)
  have hframe := frame_foldl_copy s sweep (sweep.automaton.copiesFor s reach)
  unfold treat
  dsimp only
  split
  · exact ⟨rfl, rfl, rfl⟩
  · split
    · simpa [bridge] using hframe
    · exact hframe

/-- The state that is treated gets its gains, and no other state gets an edge. -/
theorem mem_edgesFrom_treat :
    e ∈ (sweep.treat s).automaton.edgesFrom t ↔
      e ∈ sweep.automaton.edgesFrom t ∨ t = s ∧ sweep.automaton.Gains t e := by
  by_cases hidle : (sweep.automaton.successors none s).isEmpty = true
  · have hsame : sweep.treat s = sweep := by simp only [treat, hidle, ↓reduceIte]
    have hnone : ¬ (t = s ∧ sweep.automaton.Gains t e) := by
      intro ⟨hts, hgain⟩
      obtain ⟨u, hu⟩ := hgain.exists_successor
      rw [hts, List.isEmpty_iff.mp hidle] at hu
      cases hu
    rw [hsame]
    simp [hnone]
  · have hs : s < sweep.automaton.size := by
      obtain ⟨t, ht⟩ := List.exists_mem_of_ne_nil _ (mt List.isEmpty_iff.mpr hidle)
      exact lt_size_of_mem_edgesFrom (mem_successors.mp ht)
    let reach := sweep.automaton.closure (sweep.automaton.successors none s)
    obtain ⟨-, -, hsize⟩ := frame_foldl_copy s sweep (sweep.automaton.copiesFor s reach)
    have hinside := hsize.symm ▸ hs
    by_cases hshort : s ≠ sweep.automaton.accept ∧ sweep.automaton.accept ∈ reach
    · simp only [treat, hidle, Bool.false_eq_true, ↓reduceIte]
      rw [if_pos hshort, bridge, mem_edgesFrom_connect, mem_edgesFrom_foldl_copy hs, gains_iff]
      grind
    · simp only [treat, hidle, Bool.false_eq_true, ↓reduceIte]
      rw [if_neg hshort, mem_edgesFrom_foldl_copy hs, gains_iff]
      grind

/-- **One step of a sweep** gives one state its gains. -/
theorem treated_treat (sweep : Sweep) (s : Nat) :
    sweep.automaton.Treated (fun t => t = s) (sweep.treat s).automaton where
  start_eq := (frame_treat sweep s).1
  accept_eq := (frame_treat sweep s).2.1
  size_eq := (frame_treat sweep s).2.2
  mem_edges _ _ := mem_edgesFrom_treat

/-- **A sweep treats the states it passes**, in whatever order it passes them. -/
theorem treated_foldl (sweep : Sweep) (states : List Nat) :
    sweep.automaton.Treated (fun s => s ∈ states) (states.foldl treat sweep).automaton := by
  induction states generalizing sweep with
  | nil => simpa using Treated.refl sweep.automaton
  | cons s rest ih =>
      have hboth := (treated_treat sweep s).trans (ih (sweep.treat s))
      simpa using hboth

end Sweep

namespace Automaton

variable {A : Automaton} {s : Nat} {e : Edge}

theorem treated_sweep (A : Automaton) :
    A.Treated (fun s => s < A.size) A.sweep.automaton := by
  have hswept := Sweep.treated_foldl ⟨A, 0⟩ (List.range A.size)
  simp only [List.mem_range] at hswept
  exact hswept

@[simp] theorem start_eliminate (A : Automaton) : A.eliminate.start = A.start :=
  (treated_sweep A).start_eq

@[simp] theorem accept_eliminate (A : Automaton) : A.eliminate.accept = A.accept :=
  (treated_sweep A).accept_eq

@[simp] theorem size_eliminate (A : Automaton) : A.eliminate.size = A.size :=
  (size_prune _).trans (treated_sweep A).size_eq

/-- **The edges an elimination leaves**: those a state had and those it gains,
except silent edges between inner states. -/
theorem mem_edgesFrom_eliminate :
    e ∈ A.eliminate.edgesFrom s ↔
      (e ∈ A.edgesFrom s ∨ A.Gains s e) ∧ A.isKept s e = true := by
  have hswept := treated_sweep A
  have hkept : A.sweep.automaton.isKept s e = A.isKept s e := by
    simp only [isKept, hswept.start_eq, hswept.accept_eq]
  have hgained : s < A.size ∧ A.Gains s e ↔ A.Gains s e := by
    refine ⟨fun h => h.2, ?_⟩
    intro hgain
    exact ⟨hgain.lt_size, hgain⟩
  rw [eliminate, elimination, edgesFrom_prune, List.mem_filter, hswept.mem_edges, hkept, hgained]

end Automaton

end PatternAutomata
