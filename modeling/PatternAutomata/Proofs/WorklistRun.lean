import PatternAutomata.Proofs.SilentReach

/-!
# The run of the search behind a closure

A search takes a state off the front of the pending ones, follows its silent edges, and
goes on until none is pending.  `Search.Follows` records such a run, or the beginning of
one, with the states taken in their order.

At every point of a run the states taken and those still pending are together the states
met, each of them once (`Search.Accounted`): a state is put on the list of pending ones at
most once, and taken off at most once.  Wherever a run is broken off it can be taken to
the end, which is always the same (`explore_eq_of_follows`).  So no run is longer than the
closure has states.
-/

namespace PatternAutomata

/-- A run of a search from one stage to a later one, with the states taken off the pending
ones on the way, in their order. -/
inductive Search.Follows (A : Automaton) : Search → List Nat → Search → Prop
  | rest (search : Search) : Follows A search [] search
  | take {met pending taken : List Nat} {s : Nat} {last : Search}
      (more : Follows A ((A.successors none s).foldl visit ⟨met, pending⟩) taken last) :
      Follows A ⟨met, s :: pending⟩ (s :: taken) last

/-- The states taken so far and those that are pending are the states met, each once. -/
structure Search.Accounted (taken : List Nat) (search : Search) : Prop where
  perm : (taken ++ search.pending).Perm search.met
  nodup : search.met.Nodup

namespace Search

variable {A : Automaton} {taken more : List Nat} {search first last : Search}

theorem accounted_begin : Accounted [] ⟨[], []⟩ :=
  ⟨List.Perm.refl _, List.nodup_nil⟩

/-- **A state is put on both lists or on none.** -/
theorem Accounted.visit (h : Accounted taken search) (s : Nat) :
    Accounted taken (search.visit s) := by
  unfold Search.visit
  split
  · exact h
  · next hnew =>
      rw [hasMet_iff] at hnew
      exact ⟨List.perm_middle.trans (h.perm.cons s), List.nodup_cons.mpr ⟨hnew, h.nodup⟩⟩

theorem Accounted.foldl_visit (h : Accounted taken search) (ends : List Nat) :
    Accounted taken (ends.foldl Search.visit search) := by
  induction ends generalizing search with
  | nil => exact h
  | cons s rest ih => exact ih (h.visit s)

/-- A state that is taken is pending no more. -/
theorem Accounted.take {met pending : List Nat} {s : Nat}
    (h : Accounted taken ⟨met, s :: pending⟩) : Accounted (taken ++ [s]) ⟨met, pending⟩ := by
  refine ⟨?_, h.nodup⟩
  rw [List.append_assoc]
  exact h.perm

theorem Follows.append {between : Search} (hfront : Follows A first taken between)
    (hback : Follows A between more last) : Follows A first (taken ++ more) last := by
  induction hfront with
  | rest => exact hback
  | take _ ih => exact Follows.take (ih hback)

/-- A run keeps the account. -/
theorem Accounted.follows (h : Accounted taken first) (hrun : Follows A first more last) :
    Accounted (taken ++ more) last := by
  induction hrun generalizing taken with
  | rest => rwa [List.append_nil]
  | take _ ih =>
      rw [List.append_cons]
      exact ih (h.take.foldl_visit _)

end Search

namespace Automaton

variable {A : Automaton} {taken : List Nat} {first last : Search}

/-- **Every search ends.** -/
theorem exists_follows_explore (A : Automaton) (met pending : List Nat) :
    ∃ taken, Search.Follows A ⟨met, pending⟩ taken ⟨A.explore met pending, []⟩ := by
  fun_induction explore A met pending with
  | case1 met => exact ⟨[], Search.Follows.rest _⟩
  | case2 met s rest next ih =>
      obtain ⟨taken, hrun⟩ := ih
      exact ⟨s :: taken, Search.Follows.take hrun⟩

/-- All stages of a run have the same end. -/
theorem explore_eq_of_follows (hrun : Search.Follows A first taken last) :
    A.explore last.met last.pending = A.explore first.met first.pending := by
  induction hrun with
  | rest => rfl
  | take _ ih =>
      rw [ih, explore]

/-- However far a search has come, it goes on to the states that it reaches. -/
theorem exists_follows_reached {states : List Nat}
    (hrun : Search.Follows A (states.foldl Search.visit ⟨[], []⟩) taken last) :
    ∃ more, Search.Follows A last more ⟨A.reached states, []⟩ := by
  have hend := explore_eq_of_follows hrun
  rw [reached, ← hend]
  exact exists_follows_explore A last.met last.pending

/-- A search that has ended has taken the states of the closure, each once. -/
theorem perm_closure_of_follows {states : List Nat}
    (hrun : Search.Follows A (states.foldl Search.visit ⟨[], []⟩) taken ⟨A.reached states, []⟩) :
    taken.Perm (A.closure states).toList := by
  have haccount := (Search.accounted_begin.foldl_visit states).follows hrun
  have hreached : taken.Perm (A.reached states) := by simpa using haccount.perm
  refine hreached.trans ((List.perm_ext_iff_of_nodup haccount.nodup ?_).mpr ?_)
  · exact (A.closure states).nodup_toList
  · intro t
    exact StateSet.mem_ofList.symm

/-- Silent reachability depends on the silent edges only, in whatever order they are. -/
theorem SilentlyReaches.congr {A B : Automaton} {s t : Nat}
    (hsilent : ∀ s t, ⟨none, t⟩ ∈ A.edgesFrom s → ⟨none, t⟩ ∈ B.edgesFrom s)
    (hreach : A.SilentlyReaches s t) : B.SilentlyReaches s t := by
  refine hreach.preserves (P := B.SilentlyReaches s) ?_ (SilentlyReaches.refl B s)
  intro u v hu hedge
  exact hu.trans (SilentlyReaches.head (hsilent u v hedge) (SilentlyReaches.refl B v))

theorem closure_congr {A B : Automaton} {states others : List Nat}
    (hsilent : ∀ s t, ⟨none, t⟩ ∈ B.edgesFrom s ↔ ⟨none, t⟩ ∈ A.edgesFrom s)
    (hsame : ∀ s, s ∈ others ↔ s ∈ states) : B.closure others = A.closure states := by
  apply StateSet.ext
  intro t
  rw [mem_closure, mem_closure]
  constructor
  · intro hfrom
    obtain ⟨s, hs, hreach⟩ := hfrom
    exact ⟨s, (hsame s).mp hs, hreach.congr fun u v => (hsilent u v).mp⟩
  · intro hfrom
    obtain ⟨s, hs, hreach⟩ := hfrom
    exact ⟨s, (hsame s).mpr hs, hreach.congr fun u v => (hsilent u v).mpr⟩

/-- **The search ends, takes each state once, and finds the least closed set.**  At each
point of its run the states taken so far and the pending ones are different from each
other, and are the states met; from there the search comes to its end, and then the states
it has taken are those of the closure, each once.  The closure holds the states that the
given ones reach silently.  It contains the given states, is closed under silent edges, and
is contained in every set that is like that.  Neither the order of the given states and of
the edges matters, nor how often a state is given. -/
theorem closure_is_least_closed (A : Automaton) (states : List Nat) :
    (∀ taken last, Search.Follows A (states.foldl Search.visit ⟨[], []⟩) taken last →
      (taken ++ last.pending).Nodup ∧ (taken ++ last.pending).Perm last.met ∧
      ∃ more, Search.Follows A last more ⟨A.reached states, []⟩ ∧
        (taken ++ more).Perm (A.closure states).toList) ∧
    (∀ t, t ∈ A.closure states ↔ ∃ s ∈ states, A.SilentlyReaches s t) ∧
    (∀ s ∈ states, s ∈ A.closure states) ∧
    (∀ s ∈ A.closure states, ∀ t, ⟨none, t⟩ ∈ A.edgesFrom s → t ∈ A.closure states) ∧
    (∀ P : Nat → Prop, (∀ s ∈ states, P s) →
      (∀ s t, P s → ⟨none, t⟩ ∈ A.edgesFrom s → P t) → ∀ t ∈ A.closure states, P t) ∧
    ∀ (B : Automaton) (others : List Nat), (∀ s, (B.edgesFrom s).Perm (A.edgesFrom s)) →
      (∀ s, s ∈ others ↔ s ∈ states) → B.closure others = A.closure states := by
  refine ⟨?_, fun t => mem_closure, ?_, ?_, ?_, ?_⟩
  · intro taken last hrun
    have haccount := (Search.accounted_begin.foldl_visit states).follows hrun
    obtain ⟨more, hmore⟩ := exists_follows_reached hrun
    refine ⟨haccount.perm.nodup_iff.mpr haccount.nodup, haccount.perm, more, hmore, ?_⟩
    exact perm_closure_of_follows (hrun.append hmore)
  · intro s hs
    exact mem_closure.mpr ⟨s, hs, SilentlyReaches.refl A s⟩
  · intro s hs t hedge
    obtain ⟨u, hu, hreach⟩ := mem_closure.mp hs
    have hstep := SilentlyReaches.head hedge (SilentlyReaches.refl A t)
    exact mem_closure.mpr ⟨u, hu, hreach.trans hstep⟩
  · intro P hstates hclosed t ht
    obtain ⟨s, hs, hreach⟩ := mem_closure.mp ht
    exact hreach.preserves hclosed (hstates s hs)
  · intro B others hedges hsame
    exact closure_congr (fun s t => (hedges s).mem_iff) hsame

/-- Silent edges that lead around, back to their state and to no state at all, from states
of which one is given twice and one does not exist. -/
theorem closure_is_least_closed_cycle :
    let A : Automaton := { edges := #[[⟨none, 1⟩, ⟨none, 7⟩], [⟨none, 0⟩, ⟨none, 1⟩]] }
    let B : Automaton := { edges := #[[⟨none, 7⟩, ⟨none, 1⟩], [⟨none, 1⟩, ⟨none, 0⟩]] }
    (A.closure [1, 1, 9]).toList = [0, 1, 7, 9] ∧
      (∃ more, Search.Follows A ⟨[9, 1], [1]⟩ more ⟨A.reached [1, 1, 9], []⟩ ∧
        (9 :: more).Perm (A.closure [1, 1, 9]).toList) ∧
      2 ∉ A.closure [1, 1, 9] ∧ B.closure [9, 1] = A.closure [1, 1, 9] := by
  intro A B
  obtain ⟨hruns, -, -, -, hleast, horder⟩ := closure_is_least_closed A [1, 1, 9]
  refine ⟨by decide +kernel, ?_, ?_, horder B [9, 1] ?_ ?_⟩
  · have hbegin : Search.Follows A ([1, 1, 9].foldl Search.visit ⟨[], []⟩) [9] ⟨[9, 1], [1]⟩ :=
      Search.Follows.take (Search.Follows.rest _)
    exact (hruns [9] ⟨[9, 1], [1]⟩ hbegin).2.2
  · intro hmem
    refine hleast (· ≠ 2) (by decide) ?_ 2 hmem rfl
    intro s t _ hedge
    have htargets : ∀ e ∈ A.allEdges, e.target ≠ 2 := by decide
    exact htargets ⟨none, t⟩ (mem_allEdges.mpr ⟨s, hedge⟩)
  · intro s
    match s with
    | 0 => exact List.Perm.swap _ _ _
    | 1 => exact List.Perm.swap _ _ _
    | s + 2 => exact List.Perm.refl _
  · intro s
    simp [or_comm]

end Automaton

end PatternAutomata
