import PatternAutomata.CompiledPattern
import PatternAutomata.Proofs.DistinctEdges
import PatternAutomata.Proofs.EliminationNormalForm

/-!
# The account of an elimination

An elimination says how many edges it has copied, and how many of how many silent edges it
has removed.  The copies are counted one by one while the automaton changes; the silent
edges are counted in the end, before and after some of them are removed.

Each step of a sweep balances the account (`Sweep.Balances`): the consuming edges grow with
the copies that are counted, and the silent edges by the shortcuts to the accepting state
that are new.  Treating a state gives a shortcut to that state only, and to no state twice,
so a sweep adds as many silent edges as states gain one (`Sweep.balances_foldl_treat`).
What is removed in the end is silent (`consumingCount_prune`), and was there before
(`silentCount_prune_le`).

The counter of the copies has a fixed width.  The account is true of an automaton exactly if
fewer than `counterLimit` edges are copied (`elimination_account`).  Copies multiply: an
automaton of `2 ^ 23` states around one state with `2 ^ 8` edges reaches the limit
(`wide_rim_is_misreported`).
-/

namespace PatternAutomata

namespace Automaton

variable {A : Automaton} {s : Nat} {e : Edge}

/-- The number of edges that consume a character. -/
def consumingCount (A : Automaton) : Nat :=
  A.allEdges.countP fun e => !e.isSilent

/-- Whether a state has a silent edge to the accepting state of `A` in `B` but not in `A`. -/
def gainsShortcut (A B : Automaton) (s : Nat) : Bool :=
  B.hasEdge s ⟨none, A.accept⟩ && !A.hasEdge s ⟨none, A.accept⟩

/-- All edges, in the order of their states. -/
theorem allEdges_eq_flatMap (A : Automaton) :
    A.allEdges = (List.range A.size).flatMap A.edgesFrom := by
  have hlists : A.edges.toList = (List.range A.size).map A.edgesFrom := by
    apply List.ext_getElem
    · simp [size]
    · intro s hs _
      have hinside : s < A.edges.size := hs
      simp [edgesFrom_eq_getElem hinside]
  rw [allEdges, hlists, List.flatMap_def]

/-- The consuming edges are those of the states. -/
theorem consumingCount_eq_length (A : Automaton) :
    A.consumingCount = ((List.range A.size).flatMap A.consumingFrom).length := by
  rw [consumingCount, List.countP_eq_length_filter, allEdges_eq_flatMap, List.filter_flatMap]
  rfl

/-- A new edge counts among those of its kind. -/
theorem countP_connect (hs : s < A.size) (hnew : e ∉ A.edgesFrom s) (p : Edge → Bool) :
    (A.connect s e).allEdges.countP p = A.allEdges.countP p + if p e then 1 else 0 := by
  rw [(allEdges_connect_perm hs hnew).countP_eq, List.countP_cons]

/-- Every consuming edge is kept. -/
theorem filter_filter_isKept (A : Automaton) (s : Nat) (es : List Edge) :
    (es.filter (A.isKept s)).filter (fun e => !e.isSilent) = es.filter fun e => !e.isSilent := by
  rw [List.filter_filter]
  apply List.filter_congr
  intro e _
  simp +contextual [isKept]

theorem consumingFrom_prune (A : Automaton) (s : Nat) :
    A.prune.consumingFrom s = A.consumingFrom s := by
  rw [consumingFrom, edgesFrom_prune, filter_filter_isKept, consumingFrom]

theorem consumingCount_prune (A : Automaton) : A.prune.consumingCount = A.consumingCount := by
  rw [consumingCount_eq_length, consumingCount_eq_length, size_prune,
    funext (consumingFrom_prune A)]

/-- What is left was there before, in the same order. -/
theorem allEdges_prune_sublist (A : Automaton) : A.prune.allEdges.Sublist A.allEdges := by
  rw [allEdges_eq_flatMap, allEdges_eq_flatMap, size_prune]
  induction List.range A.size with
  | nil => exact List.Sublist.refl _
  | cons s rest ih =>
      rw [List.flatMap_cons, List.flatMap_cons, edgesFrom_prune]
      exact List.filter_sublist.append ih

theorem silentCount_prune_le (A : Automaton) : A.prune.silentCount ≤ A.silentCount :=
  (allEdges_prune_sublist A).countP_le

end Automaton

namespace Sweep

open Automaton

variable {sweep first between last : Sweep} {s t : Nat} {es : List Edge} {gained more : Nat}

/-- From one stage of a sweep to a later one, the consuming edges have grown by the copies,
which the counter has followed, and the silent edges by `gained`. -/
structure Balances (first : Sweep) (gained : Nat) (last : Sweep) : Prop where
  consuming : ∃ copies : Nat,
    last.automaton.consumingCount = first.automaton.consumingCount + copies ∧
    last.copied = first.copied + Int32.ofNat copies
  silent : last.automaton.silentCount = first.automaton.silentCount + gained

namespace Balances

theorem refl (sweep : Sweep) : Balances sweep 0 sweep where
  consuming := ⟨0, rfl, (Int32.add_zero sweep.copied).symm⟩
  silent := rfl

theorem trans (hfront : Balances first gained between) (hback : Balances between more last) :
    Balances first (gained + more) last where
  consuming := by
    obtain ⟨early, hearly, hcounted⟩ := hfront.consuming
    obtain ⟨late, hlate, hcounted'⟩ := hback.consuming
    refine ⟨early + late, ?_, ?_⟩
    · rw [hlate, hearly, Nat.add_assoc]
    · rw [hcounted', hcounted, Int32.ofNat_add, Int32.add_assoc]
  silent := by rw [hback.silent, hfront.silent, Nat.add_assoc]

end Balances

/-- **A copy** is counted exactly if it is one more consuming edge. -/
theorem balances_copy {e : Edge} (hs : s < sweep.automaton.size) (hconsuming : e.isSilent = false) :
    Balances sweep 0 (copy s sweep e) := by
  by_cases hmem : e ∈ sweep.automaton.edgesFrom s
  · have hsame : [e].foldl (copy s) sweep = sweep := foldl_copy_eq_self (by simpa using hmem)
    rw [List.foldl_cons, List.foldl_nil] at hsame
    rw [hsame]
    exact Balances.refl sweep
  · have hcount := countP_connect hs hmem
    rw [copy, if_neg (mt hasEdge_iff.mp hmem)]
    refine ⟨⟨1, ?_, rfl⟩, ?_⟩
    · simp [consumingCount, hcount, hconsuming]
    · simp [silentCount, hcount, hconsuming]

theorem balances_foldl_copy (hs : s < sweep.automaton.size)
    (hconsuming : ∀ e ∈ es, e.isSilent = false) : Balances sweep 0 (es.foldl (copy s) sweep) := by
  induction es generalizing sweep with
  | nil => exact Balances.refl sweep
  | cons e rest ih =>
      have hfirst := balances_copy hs (hconsuming e List.mem_cons_self)
      have hs' : s < (copy s sweep e).automaton.size := by simpa [copy] using hs
      have hothers := ih hs' fun f hf => hconsuming f (List.mem_cons_of_mem e hf)
      exact hfirst.trans hothers

/-- **A shortcut** is no copy, and one more silent edge if it is new. -/
theorem balances_bridge (hs : s < sweep.automaton.size) :
    Balances sweep (if !sweep.automaton.hasEdge s ⟨none, t⟩ then 1 else 0)
      { sweep with automaton := sweep.automaton.bridge s t } := by
  by_cases hmem : ⟨none, t⟩ ∈ sweep.automaton.edgesFrom s
  · rw [bridge, connect_of_mem hmem, hasEdge_iff.mpr hmem]
    exact Balances.refl sweep
  · have hcount := countP_connect hs hmem
    rw [bridge, Bool.eq_false_iff.mpr (mt hasEdge_iff.mp hmem)]
    refine ⟨⟨0, ?_, (Int32.add_zero _).symm⟩, ?_⟩
    · simp [consumingCount, hcount, Edge.isSilent]
    · simp [silentCount, hcount, Edge.isSilent]

/-- What treating a state does: nothing, or copying consuming edges to it, or that and a
shortcut to the accepting state behind them. -/
theorem treat_cases (sweep : Sweep) (s : Nat) :
    sweep.treat s = sweep ∨ ∃ es : List Edge, s < sweep.automaton.size ∧
      (∀ e ∈ es, e.isSilent = false) ∧ (sweep.treat s = es.foldl (copy s) sweep ∨
        sweep.treat s = { es.foldl (copy s) sweep with
          automaton := (es.foldl (copy s) sweep).automaton.bridge s sweep.automaton.accept }) := by
  unfold treat
  dsimp only
  split
  · exact Or.inl rfl
  · next hsilent =>
      obtain ⟨t, ht⟩ := List.exists_mem_of_ne_nil _ (mt List.isEmpty_iff.mpr hsilent)
      have hs := lt_size_of_mem_edgesFrom (mem_successors.mp ht)
      refine Or.inr ⟨sweep.automaton.copiesFor s
        (sweep.automaton.closure (sweep.automaton.successors none s)), hs, ?_, ?_⟩
      · intro e he
        obtain ⟨u, -, hu⟩ := List.mem_flatMap.mp he
        exact (mem_consumingFrom.mp hu).2
      · split
        · exact Or.inr rfl
        · exact Or.inl rfl

/-- Copying consuming edges adds no silent one. -/
theorem hasEdge_foldl_copy (hs : s < sweep.automaton.size)
    (hconsuming : ∀ e ∈ es, e.isSilent = false) :
    (es.foldl (copy s) sweep).automaton.hasEdge s ⟨none, t⟩ =
      sweep.automaton.hasEdge s ⟨none, t⟩ := by
  rw [Bool.eq_iff_iff, hasEdge_iff, hasEdge_iff, mem_edgesFrom_foldl_copy hs]
  constructor
  · rintro (hold | ⟨-, hcopied⟩)
    · exact hold
    · cases hconsuming _ hcopied
  · exact Or.inl

/-- **One step of a sweep** adds a silent edge exactly if the state gains a shortcut. -/
theorem balances_treat (sweep : Sweep) (s : Nat) :
    Balances sweep (if sweep.automaton.gainsShortcut (sweep.treat s).automaton s then 1 else 0)
      (sweep.treat s) := by
  rcases treat_cases sweep s with hidle | ⟨es, hs, hconsuming, hfilled | hbridged⟩
  · rw [hidle, gainsShortcut, Bool.and_not_self]
    exact Balances.refl sweep
  · rw [hfilled, gainsShortcut, hasEdge_foldl_copy hs hconsuming, Bool.and_not_self]
    exact balances_foldl_copy hs hconsuming
  · have hcopied := balances_foldl_copy hs hconsuming
    have hsize := (frame_foldl_copy s sweep es).2.2
    have hbridge := balances_bridge (t := sweep.automaton.accept) (hsize.symm ▸ hs)
    have hadded : ((es.foldl (copy s) sweep).automaton.bridge s sweep.automaton.accept).hasEdge s
        ⟨none, sweep.automaton.accept⟩ = true := by
      rw [hasEdge_iff, mem_edgesFrom_bridge]
      exact Or.inr ⟨rfl, hsize.symm ▸ hs, rfl⟩
    rw [hasEdge_foldl_copy hs hconsuming] at hbridge
    rw [hbridged, gainsShortcut, hadded, Bool.true_and]
    have hboth := hcopied.trans hbridge
    rwa [Nat.zero_add] at hboth

/-- A state that is not treated keeps its edges. -/
theorem hasEdge_foldl_treat {states : List Nat} {e : Edge} (hs : s ∉ states) :
    (states.foldl treat sweep).automaton.hasEdge s e = sweep.automaton.hasEdge s e := by
  rw [Bool.eq_iff_iff, hasEdge_iff, hasEdge_iff, (treated_foldl sweep states).mem_edges]
  simp [hs]

/-- The shortcuts gained by a sweep are the one of its first state and those of the others,
since no state gains one before it is treated or after. -/
theorem countP_gainsShortcut_cons {rest : List Nat} (hnew : s ∉ rest) :
    (s :: rest).countP
        (sweep.automaton.gainsShortcut (rest.foldl treat (sweep.treat s)).automaton) =
      (if sweep.automaton.gainsShortcut (sweep.treat s).automaton s then 1 else 0) +
        rest.countP ((sweep.treat s).automaton.gainsShortcut
          (rest.foldl treat (sweep.treat s)).automaton) := by
  have hfirst : sweep.automaton.gainsShortcut (rest.foldl treat (sweep.treat s)).automaton s =
      sweep.automaton.gainsShortcut (sweep.treat s).automaton s := by
    rw [gainsShortcut, gainsShortcut, hasEdge_foldl_treat hnew]
  rw [List.countP_cons, hfirst, Nat.add_comm]
  congr 1
  apply List.countP_congr
  intro t ht
  have hne : t ∉ [s] := fun hts => hnew (List.mem_singleton.mp hts ▸ ht)
  have huntreated : ([s].foldl treat sweep).automaton.hasEdge t ⟨none, sweep.automaton.accept⟩ =
      sweep.automaton.hasEdge t ⟨none, sweep.automaton.accept⟩ := hasEdge_foldl_treat hne
  rw [List.foldl_cons, List.foldl_nil] at huntreated
  rw [gainsShortcut, gainsShortcut, (frame_treat sweep s).2.1, huntreated]

/-- **A sweep over different states** adds a silent edge for every one that gains a
shortcut. -/
theorem balances_foldl_treat (sweep : Sweep) {states : List Nat} (hnodup : states.Nodup) :
    Balances sweep
      (states.countP (sweep.automaton.gainsShortcut (states.foldl treat sweep).automaton))
      (states.foldl treat sweep) := by
  induction states generalizing sweep with
  | nil => exact Balances.refl sweep
  | cons s rest ih =>
      obtain ⟨hnew, hnodup⟩ := List.nodup_cons.mp hnodup
      rw [List.foldl_cons, countP_gainsShortcut_cons hnew]
      exact (balances_treat sweep s).trans (ih (sweep.treat s) hnodup)

end Sweep

namespace Automaton

/-- A sweep that starts without copies counts all it makes. -/
theorem balances_sweep (A : Automaton) :
    Sweep.Balances ⟨A, 0⟩ ((List.range A.size).countP (A.gainsShortcut A.sweep.automaton))
      A.sweep :=
  Sweep.balances_foldl_treat ⟨A, 0⟩ List.nodup_range

/-- The consuming edges grow by the copies, whose number is kept by the counter. -/
theorem consumingCount_eliminate (A : Automaton) : ∃ copies : Nat,
    A.eliminate.consumingCount = A.consumingCount + copies ∧
    A.elimination.copied = Int32.ofNat copies := by
  obtain ⟨copies, hgrown, hcounted⟩ := (balances_sweep A).consuming
  refine ⟨copies, ?_, hcounted.trans (Int32.zero_add _)⟩
  rw [← hgrown]
  exact consumingCount_prune A.sweep.automaton

/-- A shortcut to the accepting state is never removed. -/
theorem gainsShortcut_eliminate (A : Automaton) (s : Nat) :
    A.gainsShortcut A.eliminate s = A.gainsShortcut A.sweep.automaton s := by
  have hkept : A.eliminate.hasEdge s ⟨none, A.accept⟩ =
      A.sweep.automaton.hasEdge s ⟨none, A.accept⟩ := by
    rw [Bool.eq_iff_iff, hasEdge_iff, hasEdge_iff, eliminate, elimination, edgesFrom_prune,
      List.mem_filter]
    simp [isKept, (treated_sweep A).accept_eq]
  rw [gainsShortcut, gainsShortcut, hkept]

/-- The consuming edges of a state are there after an elimination, before all others. -/
theorem consumingFrom_isPrefix_eliminate (A : Automaton) (s : Nat) :
    A.consumingFrom s <+: A.eliminate.consumingFrom s := by
  obtain ⟨added, hedges, -⟩ := exists_edgesFrom_eliminate A s
  refine ⟨added.filter fun e => !e.isSilent, ?_⟩
  rw [consumingFrom, consumingFrom, hedges, List.filter_append, filter_filter_isKept]

/-! ### Many copies -/

/-- Edges to the first `n` states. -/
def spokes (n : Nat) : List Edge :=
  (List.range n).map (Edge.mk (some 'a'))

/-- A state with `n` spokes, where the automaton starts and accepts, and `rim` further states
with a silent edge to it. -/
def wheel (rim n : Nat) : Automaton where
  edges := (spokes n :: List.replicate rim [⟨none, 0⟩]).toArray

section Wheel

variable {rim n : Nat}

theorem length_spokes (n : Nat) : (spokes n).length = n := by
  simp [spokes]

theorem nodup_spokes (n : Nat) : (spokes n).Nodup := by
  refine List.pairwise_map.mpr (List.nodup_range.imp ?_)
  intro t u hne heq
  exact hne (Edge.mk.inj heq).2

theorem isSilent_of_mem_spokes (he : e ∈ spokes n) : e.isSilent = false := by
  obtain ⟨t, -, rfl⟩ := List.mem_map.mp he
  rfl

theorem size_wheel (rim n : Nat) : (wheel rim n).size = rim + 1 := by
  simp [wheel, size]

theorem edgesFrom_wheel_zero (rim n : Nat) : (wheel rim n).edgesFrom 0 = spokes n := by
  simp [wheel, edgesFrom]

theorem edgesFrom_wheel_succ (hs : s < rim) : (wheel rim n).edgesFrom (s + 1) = [⟨none, 0⟩] := by
  simp [wheel, edgesFrom, hs]

theorem hasDistinctEdges_wheel (rim n : Nat) : (wheel rim n).HasDistinctEdges := by
  intro s
  by_cases hs : s < rim + 1
  · cases s with
    | zero =>
        rw [edgesFrom_wheel_zero]
        exact nodup_spokes n
    | succ s => simp [edgesFrom_wheel_succ (Nat.lt_of_succ_lt_succ hs)]
  · have houtside : (wheel rim n).size ≤ s := by
      rw [size_wheel]
      exact Nat.le_of_not_lt hs
    rw [edgesFrom_of_size_le houtside]
    exact List.nodup_nil

/-- Only the spokes consume characters. -/
theorem mem_spokes_of_mem_edgesFrom_wheel (he : e ∈ (wheel rim n).edgesFrom s)
    (hconsuming : e.isSilent = false) : e ∈ spokes n := by
  have hs := lt_size_of_mem_edgesFrom he
  rw [size_wheel] at hs
  cases s with
  | zero => rwa [edgesFrom_wheel_zero] at he
  | succ s =>
      rw [edgesFrom_wheel_succ (Nat.lt_of_succ_lt_succ hs), List.mem_singleton] at he
      rw [he] at hconsuming
      cases hconsuming

theorem consumingCount_wheel (rim n : Nat) : (wheel rim n).consumingCount = n := by
  have hspokes : (spokes n).countP (fun e => !e.isSilent) = n := by
    have hall : ∀ e ∈ spokes n, (!e.isSilent) = true := by
      intro e he
      rw [isSilent_of_mem_spokes he]
      rfl
    rw [List.countP_eq_length.mpr hall, length_spokes]
  have hrim : (List.replicate rim (Edge.mk none 0)).countP (fun e => !e.isSilent) = 0 := by
    simp [List.countP_replicate, Edge.isSilent]
  simp only [consumingCount, allEdges, wheel, List.flatten_cons, List.flatten_replicate_singleton,
    List.countP_append, hspokes, hrim, Nat.add_zero]

/-- In the end every state has the spokes. -/
theorem mem_consumingFrom_eliminate_wheel (hs : s < rim + 1) :
    e ∈ (wheel rim n).eliminate.consumingFrom s ↔ e ∈ spokes n := by
  rw [mem_consumingFrom, mem_edgesFrom_eliminate]
  constructor
  · rintro ⟨⟨hown | ⟨u, -, -, ⟨-, hother⟩ | ⟨-, hshort⟩⟩, -⟩, hconsuming⟩
    · exact mem_spokes_of_mem_edgesFrom_wheel hown hconsuming
    · exact mem_spokes_of_mem_edgesFrom_wheel hother hconsuming
    · rw [hshort] at hconsuming
      cases hconsuming
  · intro he
    have hconsuming := isSilent_of_mem_spokes he
    refine ⟨⟨?_, by simp [isKept, hconsuming]⟩, hconsuming⟩
    rw [← edgesFrom_wheel_zero rim n] at he
    cases s with
    | zero => exact Or.inl he
    | succ s =>
        have hedge : ⟨none, 0⟩ ∈ (wheel rim n).edgesFrom (s + 1) := by
          rw [edgesFrom_wheel_succ (Nat.lt_of_succ_lt_succ hs)]
          exact List.mem_singleton_self _
        have hreach := SilentlyReaches.head hedge (SilentlyReaches.refl _ 0)
        exact Or.inr ⟨0, (Nat.succ_ne_zero s).symm, hreach, Or.inl ⟨hconsuming, he⟩⟩

theorem length_consumingFrom_eliminate_wheel (hs : s < rim + 1) :
    ((wheel rim n).eliminate.consumingFrom s).length = n := by
  have hdistinct := (hasDistinctEdges_wheel rim n).eliminate s
  have hperm : ((wheel rim n).eliminate.consumingFrom s).Perm (spokes n) := by
    refine (List.perm_ext_iff_of_nodup (hdistinct.filter _) (nodup_spokes n)).mpr ?_
    intro e
    exact mem_consumingFrom_eliminate_wheel hs
  rw [hperm.length_eq, length_spokes]

theorem consumingCount_eliminate_wheel (rim n : Nat) :
    (wheel rim n).eliminate.consumingCount = (rim + 1) * n := by
  have hlength : ∀ s ∈ List.range (rim + 1),
      ((wheel rim n).eliminate.consumingFrom s).length = n := by
    intro s hs
    exact length_consumingFrom_eliminate_wheel (List.mem_range.mp hs)
  rw [consumingCount_eq_length, size_eliminate, size_wheel, List.length_flatMap,
    List.map_congr_left hlength, List.map_const', List.length_range, List.sum_replicate_nat]

/-- Every state of the rim is given every spoke. -/
theorem copied_wheel (rim n : Nat) :
    (wheel rim n).elimination.copied = Int32.ofNat (rim * n) := by
  obtain ⟨copies, hgrown, hcounted⟩ := consumingCount_eliminate (wheel rim n)
  rw [consumingCount_eliminate_wheel, consumingCount_wheel, Nat.succ_mul] at hgrown
  have hcopies : copies = rim * n := by omega
  rw [hcounted, hcopies]

end Wheel

/-! ### The account -/

/-- **The account of an elimination** is true unless it has too many copies to report.  No
consuming edge is removed, and those of a state stay, in their order, before the new ones.
Their number has grown by the edges copied, and the number reported is that one exactly if
it is below the limit of the counter.  The total is the number of silent edges before, and
one more for every state that gains a silent edge to the accepting state.  The silent edges
that are left and those removed make up the total, so the subtraction that gives the number
removed never goes below zero.  These are the numbers that are reported. -/
theorem elimination_account (A : Automaton) :
    A.consumingCount ≤ A.eliminate.consumingCount ∧
    A.elimination.copied = Int32.ofNat (A.eliminate.consumingCount - A.consumingCount) ∧
    ((A.eliminate.consumingCount : Int) = A.consumingCount + A.elimination.copied.toInt ↔
      A.eliminate.consumingCount - A.consumingCount < counterLimit) ∧
    (∀ s, A.consumingFrom s <+: A.eliminate.consumingFrom s) ∧
    A.elimination.total =
      A.silentCount + (List.range A.size).countP (A.gainsShortcut A.eliminate) ∧
    A.eliminate.silentCount = A.elimination.total - A.elimination.removed ∧
    A.elimination.removed ≤ A.elimination.total ∧
    A.eliminate.silentCount ≤ A.elimination.total ∧
    ∀ debug, (CompiledPattern.reduce ⟨true, debug⟩ A).1 =
      [.eliminated A.elimination.copied A.elimination.removed A.elimination.total] := by
  have hswept := balances_sweep A
  obtain ⟨copies, hgrown, hcounted⟩ := consumingCount_eliminate A
  have hleft : A.eliminate.silentCount ≤ A.elimination.total :=
    silentCount_prune_le A.sweep.automaton
  have hremoved : A.elimination.removed = A.elimination.total - A.eliminate.silentCount := rfl
  have hcopies : A.eliminate.consumingCount - A.consumingCount = copies := by omega
  have hshown := Counter.toInt_ofNat_eq_iff copies
  rw [hcopies, hcounted]
  refine ⟨by omega, rfl, ?_, consumingFrom_isPrefix_eliminate A, ?_, ?_, ?_, hleft, ?_⟩
  · rw [← hshown]
    omega
  · rw [funext (gainsShortcut_eliminate A)]
    exact hswept.silent
  · omega
  · omega
  · intro debug
    rw [← hcounted]
    rfl

/-- **At the limit the report is false**: a negative number stands for `2 ^ 31` copies. -/
theorem wide_rim_is_misreported :
    (wheel 8388608 256).eliminate.consumingCount =
      (wheel 8388608 256).consumingCount + counterLimit ∧
    (wheel 8388608 256).elimination.copied.toInt = -counterLimit ∧
    ((wheel 8388608 256).eliminate.consumingCount : Int) ≠
      (wheel 8388608 256).consumingCount + (wheel 8388608 256).elimination.copied.toInt := by
  have hlimit : 8388608 * 256 = counterLimit := by decide
  have hcopied : (wheel 8388608 256).elimination.copied.toInt = -counterLimit := by
    rw [copied_wheel, hlimit, Counter.toInt_ofNat_counterLimit]
  rw [hcopied, consumingCount_eliminate_wheel, consumingCount_wheel]
  exact ⟨by decide, rfl, by decide⟩

end Automaton

end PatternAutomata
