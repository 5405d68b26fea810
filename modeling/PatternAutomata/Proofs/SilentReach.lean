import PatternAutomata.Automaton.Closure
import PatternAutomata.Automaton.Path

/-!
# The closure is silent reachability

The search behind a closure stops with exactly the states that silent edges
lead to from where it began.  The invariant is `Search.Settled`: whatever has
been met and is not pending has had its silent edges followed.  Once nothing is
pending the states met are closed under silent edges, and no state is ever met
that silent edges do not lead to (`mem_explore`).

Everything later rests on `mem_closure` alone, never on the search.
-/

namespace PatternAutomata

namespace Automaton

variable {A : Automaton} {s t u : Nat}

/-- Every state reaches itself. -/
theorem SilentlyReaches.refl (A : Automaton) (s : Nat) : A.SilentlyReaches s s :=
  Path.nil s

/-- One silent edge before silent edges. -/
theorem SilentlyReaches.head
    (hedge : ⟨none, t⟩ ∈ A.edgesFrom s) (hrest : A.SilentlyReaches t u) :
    A.SilentlyReaches s u :=
  Path.silent hedge hrest

/-- Silent reachability is transitive. -/
theorem SilentlyReaches.trans
    (hfront : A.SilentlyReaches s t) (hback : A.SilentlyReaches t u) :
    A.SilentlyReaches s u :=
  Path.append hfront hback

/-- What silent edges preserve holds of every state they lead to. -/
theorem SilentlyReaches.preserves {P : Nat → Prop}
    (hstep : ∀ s t, P s → ⟨none, t⟩ ∈ A.edgesFrom s → P t)
    (hreach : A.SilentlyReaches s t) (hs : P s) : P t := by
  unfold SilentlyReaches at hreach
  generalize hw : ([] : List Char) = w at hreach
  induction hreach with
  | nil => exact hs
  | silent hedge _ ih => exact ih (hstep _ _ hs hedge) hw
  | consume => cases hw

/-- A state that reaches another one does so over one of its own silent edges. -/
theorem SilentlyReaches.eq_or_head (hreach : A.SilentlyReaches s u) :
    u = s ∨ ∃ t, ⟨none, t⟩ ∈ A.edgesFrom s ∧ A.SilentlyReaches t u := by
  unfold SilentlyReaches at hreach
  generalize hw : ([] : List Char) = w at hreach
  cases hreach with
  | nil => exact Or.inl rfl
  | silent hedge hrest =>
      subst hw
      exact Or.inr ⟨_, hedge, hrest⟩
  | consume => cases hw

end Automaton

/-- All silent edges of the states met have been followed, save those of the
pending ones. -/
structure Search.Settled (A : Automaton) (search : Search) : Prop where
  pending_met : ∀ s ∈ search.pending, s ∈ search.met
  followed : ∀ s ∈ search.met, s ∉ search.pending →
    ∀ t ∈ A.successors none s, t ∈ search.met

namespace Search

@[simp] theorem mem_met_visit {search : Search} {s t : Nat} :
    t ∈ (search.visit s).met ↔ t ∈ search.met ∨ t = s := by
  unfold visit
  split
  · next hold =>
      rw [hasMet_iff] at hold
      constructor
      · exact Or.inl
      · intro hmem
        rcases hmem with hmem | rfl
        · exact hmem
        · exact hold
  · simp [or_comm]

@[simp] theorem mem_pending_visit {search : Search} {s t : Nat} :
    t ∈ (search.visit s).pending ↔ t ∈ search.pending ∨ t = s ∧ s ∉ search.met := by
  unfold visit
  split
  · next hold =>
      rw [hasMet_iff] at hold
      simp [hold]
  · next hnew =>
      rw [hasMet_iff] at hnew
      simp [hnew, or_comm]

/-- Visiting some states meets these, and no other. -/
theorem mem_met_foldl_visit {search : Search} {ends : List Nat} {t : Nat} :
    t ∈ (ends.foldl visit search).met ↔ t ∈ search.met ∨ t ∈ ends := by
  induction ends generalizing search with
  | nil => simp
  | cons s rest ih => rw [List.foldl_cons, ih, mem_met_visit, List.mem_cons, or_assoc]

/-- Of the states visited, those that had not been met become pending. -/
theorem mem_pending_foldl_visit {search : Search} {ends : List Nat} {t : Nat} :
    t ∈ (ends.foldl visit search).pending ↔
      t ∈ search.pending ∨ t ∈ ends ∧ t ∉ search.met := by
  induction ends generalizing search with
  | nil => simp
  | cons s rest ih =>
      rw [List.foldl_cons, ih, mem_pending_visit, mem_met_visit, List.mem_cons]
      by_cases hts : t = s
      · subst hts
        by_cases hold : t ∈ search.met <;> simp [hold]
      · simp [hts]

/-- A search begins settled: all it has met is pending. -/
theorem settled_begin (A : Automaton) (states : List Nat) :
    Settled A (states.foldl visit ⟨[], []⟩) := by
  constructor
  · intro s hs
    rw [mem_pending_foldl_visit] at hs
    rw [mem_met_foldl_visit]
    simpa using hs
  · intro s hs hidle
    rw [mem_met_foldl_visit] at hs
    rw [mem_pending_foldl_visit] at hidle
    simp_all

/-- Following the silent edges of a pending state keeps a search settled. -/
theorem Settled.follow {A : Automaton} {met rest : List Nat} {s : Nat}
    (hsettled : Settled A ⟨met, s :: rest⟩) :
    Settled A ((A.successors none s).foldl visit ⟨met, rest⟩) := by
  constructor
  · intro t ht
    rw [mem_pending_foldl_visit] at ht
    rw [mem_met_foldl_visit]
    rcases ht with hrest | ⟨hend, _⟩
    · exact Or.inl (hsettled.pending_met t (List.mem_cons_of_mem _ hrest))
    · exact Or.inr hend
  · intro t ht hidle u hu
    rw [mem_met_foldl_visit] at ht ⊢
    rw [mem_pending_foldl_visit] at hidle
    by_cases hts : t = s
    · exact Or.inr (hts ▸ hu)
    · have hmet : t ∈ met := by
        rcases ht with hmet | hend
        · exact hmet
        · by_cases hmet : t ∈ met
          · exact hmet
          · exact absurd (Or.inr ⟨hend, hmet⟩) hidle
      have hpassed : t ∉ s :: rest := by
        intro hmem
        rcases List.mem_cons.mp hmem with heq | hrest
        · exact hts heq
        · exact hidle (Or.inl hrest)
      exact Or.inl (hsettled.followed t hmet hpassed u hu)

end Search

namespace Automaton

/-- A settled search ends with the states that silent edges lead to from those
it had met. -/
theorem mem_explore {A : Automaton} {met pending : List Nat} {t : Nat}
    (hsettled : Search.Settled A ⟨met, pending⟩) :
    t ∈ A.explore met pending ↔ ∃ s ∈ met, A.SilentlyReaches s t := by
  fun_induction explore A met pending with
  | case1 met =>
      constructor
      · intro ht
        exact ⟨t, ht, SilentlyReaches.refl A t⟩
      · intro hfrom
        obtain ⟨s, hs, hreach⟩ := hfrom
        refine hreach.preserves ?_ hs
        intro u v hu hedge
        exact hsettled.followed u hu List.not_mem_nil v (mem_successors.mpr hedge)
  | case2 met s rest next ih =>
      rw [ih hsettled.follow]
      constructor
      · intro hfrom
        obtain ⟨u, hu, hreach⟩ := hfrom
        rcases Search.mem_met_foldl_visit.mp hu with hmet | hend
        · exact ⟨u, hmet, hreach⟩
        · exact ⟨s, hsettled.pending_met s List.mem_cons_self,
            SilentlyReaches.head (mem_successors.mp hend) hreach⟩
      · intro hfrom
        obtain ⟨u, hu, hreach⟩ := hfrom
        exact ⟨u, Search.mem_met_foldl_visit.mpr (Or.inl hu), hreach⟩

/-- **The closure is silent reachability.**  A state belongs to the closure of
some states exactly if one of them reaches it by silent edges. -/
theorem mem_closure {A : Automaton} {states : List Nat} {t : Nat} :
    t ∈ A.closure states ↔ ∃ s ∈ states, A.SilentlyReaches s t := by
  rw [closure, StateSet.mem_ofList, reached, mem_explore (Search.settled_begin A states)]
  simp [Search.mem_met_foldl_visit]

end Automaton

end PatternAutomata
