import PatternAutomata.Proofs.DrawnLines

/-!
# A drawing shows the automaton

From the text of a drawing its lines can be read off (`dot_eq_iff`): which states there are
and how each is drawn, and which edges there are in which order.  If the start and the
accepting state exist, the ways in which the states are drawn show which they are
(`ends_eq_of_role_eq`), although the start is not marked where it is also the accepting
state.  The edges of a state are drawn in an order of their own, the same whichever way they
are sorted (`Edge.sort_eq_mergeSort_precedes`).  So the drawing shows which edges a state has,
and how often, and nothing of the order in which it has them
(`Edge.mergeSort_precedes_eq_iff`).
-/

namespace PatternAutomata

/-! ### The order of the edges -/

namespace Edge

variable {a b c : Edge}

theorem labelRank_inj {l m : Option Char} (hrank : labelRank l = labelRank m) : l = m := by
  cases l with
  | none =>
      cases m with
      | none => rfl
      | some d => exact absurd hrank (Nat.succ_ne_zero _).symm
  | some c =>
      cases m with
      | none => exact absurd hrank (Nat.succ_ne_zero _)
      | some d => rw [Char.toNat_inj.mp (Nat.succ.inj hrank)]

theorem precedes_iff :
    a.precedes b = true ↔ labelRank a.label < labelRank b.label ∨
      labelRank a.label = labelRank b.label ∧ a.target ≤ b.target := by
  simp [precedes]

theorem precedes_trans (hab : a.precedes b = true) (hbc : b.precedes c = true) :
    a.precedes c = true := by
  rw [precedes_iff] at *
  omega

theorem precedes_total (a b : Edge) : (a.precedes b || b.precedes a) = true := by
  rw [Bool.or_eq_true, precedes_iff, precedes_iff]
  omega

theorem precedes_antisymm (hab : a.precedes b = true) (hba : b.precedes a = true) : a = b := by
  rw [precedes_iff] at hab hba
  have hlabel : a.label = b.label := labelRank_inj (by omega)
  have htarget : a.target = b.target := by omega
  cases a
  cases b
  simp_all

theorem pairwise_mergeSort_precedes (es : List Edge) :
    (es.mergeSort precedes).Pairwise fun a b => a.precedes b = true :=
  List.pairwise_mergeSort (@precedes_trans) precedes_total es

/-- There is one way to put edges in order: no two of them share a place. -/
theorem eq_mergeSort_precedes {es fs : List Edge} (hperm : fs.Perm es)
    (hordered : fs.Pairwise fun a b => a.precedes b = true) : fs = es.mergeSort precedes :=
  List.Perm.eq_of_pairwise (fun _ _ _ _ => precedes_antisymm) hordered
    (pairwise_mergeSort_precedes es) (hperm.trans (List.mergeSort_perm es precedes).symm)

/-- **Every way to sort edges is this one.** -/
theorem sort_eq_mergeSort_precedes {sort : List Edge → List Edge}
    (hperm : ∀ es, (sort es).Perm es)
    (hordered : ∀ es, (sort es).Pairwise fun a b => a.precedes b = true) :
    sort = fun es => es.mergeSort precedes := by
  funext es
  exact eq_mergeSort_precedes (hperm es) (hordered es)

/-- **Edges are drawn alike exactly if they are the same up to their order.** -/
theorem mergeSort_precedes_eq_iff {es fs : List Edge} :
    es.mergeSort precedes = fs.mergeSort precedes ↔ es.Perm fs := by
  have hes := List.mergeSort_perm es precedes
  have hfs := List.mergeSort_perm fs precedes
  constructor
  · intro hsame
    exact hes.symm.trans (hsame ▸ hfs)
  · intro hperm
    exact eq_mergeSort_precedes (hes.trans hperm) (pairwise_mergeSort_precedes es)

end Edge

namespace Graphviz

variable {A B : Automaton}

/-! ### What is drawn -/

/-- The states of an automaton, and how they are drawn. -/
def drawnNodes (A : Automaton) : List (Nat × Role) :=
  (List.range A.size).map fun s => (s, role A s)

/-- The edges of an automaton, each with its source, in the order in which they are drawn. -/
def drawnEdges (A : Automaton) : List (Nat × Edge) :=
  (List.range A.size).flatMap fun s => ((A.edgesFrom s).mergeSort Edge.precedes).map (Prod.mk s)

theorem nodeLines_eq (A : Automaton) : nodeLines A = (drawnNodes A).map nodeText := by
  rw [nodeLines, drawnNodes, List.map_map]
  exact List.map_congr_left fun s _ => nodeLine_eq A s

theorem edgeLines_eq (A : Automaton) : edgeLines A = (drawnEdges A).map edgeText := by
  simp only [edgeLines, drawnEdges, List.map_flatMap, List.map_map]
  rfl

theorem toList_dot (A : Automaton) :
    A.dot.toList = heading.toList ++
      (("\n".intercalate ((drawnNodes A).map nodeText)).toList ++ '\n' ::
        (("\n".intercalate ((drawnEdges A).map edgeText)).toList ++
          '\n' :: ['\x7d', '\x7d'])) := by
  rw [← nodeLines_eq, ← edgeLines_eq]
  simp [Automaton.dot]

/-- **The lines of a drawing can be read off its text.** -/
theorem dot_eq_iff :
    A.dot = B.dot ↔ drawnNodes A = drawnNodes B ∧ drawnEdges A = drawnEdges B := by
  rw [← String.toList_inj, toList_dot, toList_dot]
  constructor
  · intro htexts
    obtain ⟨hnodes, hbehind⟩ := intercalate_newline_inj isDelimited_nodeText
      nodeText_append_ne_newline (fun a w => nodeText_append_ne_edgeTexts a _ w _)
      (fun a w => nodeText_append_ne_edgeTexts a _ w _) (List.append_cancel_left htexts)
    have hend : ∀ a w, (edgeText a).toList ++ w ≠ ['\x7d', '\x7d'] := by
      intro a w
      simp [toList_edgeText]
    exact ⟨hnodes, (intercalate_newline_inj isDelimited_edgeText edgeText_append_ne_newline
      hend hend hbehind).1⟩
  · rintro ⟨hnodes, hedges⟩
    rw [hnodes, hedges]

/-! ### What the drawing shows -/

theorem drawnNodes_eq_iff :
    drawnNodes A = drawnNodes B ↔ A.size = B.size ∧ ∀ s < A.size, role A s = role B s := by
  constructor
  · intro hnodes
    have hsize : A.size = B.size := by
      have hlengths := congrArg List.length hnodes
      simpa [drawnNodes] using hlengths
    refine ⟨hsize, ?_⟩
    intro s hs
    rw [drawnNodes, drawnNodes, hsize, List.map_inj_left] at hnodes
    exact (Prod.mk.inj (hnodes s (List.mem_range.mpr (hsize ▸ hs)))).2
  · rintro ⟨hsize, hroles⟩
    rw [drawnNodes, drawnNodes, hsize, List.map_inj_left]
    intro s hs
    rw [hroles s (hsize ▸ List.mem_range.mp hs)]

/-- Of what stands state by state, the part of one state. -/
theorem filter_flatMap_range (f : Nat → List Edge) (n s : Nat) :
    ((List.range n).flatMap fun t => (f t).map (Prod.mk t)).filter (·.1 = s) =
      if s < n then (f s).map (Prod.mk s) else [] := by
  induction n with
  | zero => rfl
  | succ n ih =>
      have hlast : ((f n).map (Prod.mk n)).filter (·.1 = s) =
          if n = s then (f n).map (Prod.mk n) else [] := by
        split
        · next hn => exact List.filter_eq_self.mpr (by simp [hn])
        · next hn => exact List.filter_eq_nil_iff.mpr (by simp [hn])
      rw [List.range_succ, List.flatMap_append, List.filter_append, ih, List.flatMap_singleton,
        hlast]
      rcases Nat.lt_trichotomy s n with hs | rfl | hs
      · rw [if_pos hs, if_neg (by omega), if_pos (by omega), List.append_nil]
      · rw [if_neg (by omega), if_pos rfl, if_pos (by omega), List.nil_append]
      · rw [if_neg (by omega), if_neg (by omega), if_neg (by omega), List.append_nil]

theorem filter_drawnEdges (A : Automaton) (s : Nat) :
    (drawnEdges A).filter (·.1 = s) =
      ((A.edgesFrom s).mergeSort Edge.precedes).map (Prod.mk s) := by
  rw [drawnEdges, filter_flatMap_range]
  split
  · rfl
  · next hs =>
      rw [Automaton.edgesFrom_of_size_le (Nat.not_lt.mp hs)]
      simp

theorem drawnEdges_eq_iff (hsize : A.size = B.size) :
    drawnEdges A = drawnEdges B ↔ ∀ s, (A.edgesFrom s).Perm (B.edgesFrom s) := by
  constructor
  · intro hedges s
    have hdrawn := filter_drawnEdges A s
    rw [hedges, filter_drawnEdges] at hdrawn
    have hsorted := (List.map_inj_right fun _ _ h => (Prod.mk.inj h).2).mp hdrawn
    exact Edge.mergeSort_precedes_eq_iff.mp hsorted.symm
  · intro hperm
    have hsorted : ∀ s, (A.edgesFrom s).mergeSort Edge.precedes =
        (B.edgesFrom s).mergeSort Edge.precedes := by
      intro s
      exact Edge.mergeSort_precedes_eq_iff.mpr (hperm s)
    simp only [drawnEdges, hsize, hsorted]

theorem role_eq_accepting_iff {s : Nat} : role A s = .accepting ↔ s = A.accept := by
  unfold role
  split
  · simp_all
  · split <;> simp_all

theorem role_eq_initial_iff {s : Nat} : role A s = .initial ↔ s = A.start ∧ s ≠ A.accept := by
  unfold role
  split
  · simp_all
  · split <;> simp_all

/-- **The start and the accepting state are shown** if they exist.  The start is marked, or is
the accepting state. -/
theorem ends_eq_of_role_eq (hstart : A.start < A.size) (haccept : A.accept < A.size)
    (hstart' : B.start < A.size) (hroles : ∀ s < A.size, role A s = role B s) :
    A.start = B.start ∧ A.accept = B.accept := by
  have hends : A.accept = B.accept := by
    rw [← role_eq_accepting_iff, ← hroles _ haccept, role_eq_accepting_iff]
  refine ⟨?_, hends⟩
  by_cases hmarked : A.start = A.accept
  · by_cases hmarked' : B.start = B.accept
    · rw [hmarked, hends, hmarked']
    · have hrole := role_eq_initial_iff.mpr ⟨rfl, hmarked'⟩
      rw [← hroles _ hstart'] at hrole
      exact (role_eq_initial_iff.mp hrole).1.symm
  · have hrole := role_eq_initial_iff.mpr ⟨rfl, hmarked⟩
    rw [hroles _ hstart] at hrole
    exact (role_eq_initial_iff.mp hrole).1

end Graphviz

open Graphviz

/-- **Two drawings are the same exactly if the automata are the same up to the order of each
state's edges**, as long as their starts and accepting states exist.  It makes no difference
which characters the labels are. -/
theorem Automaton.dot_determines_automaton {A B : Automaton}
    (hA : A.start < A.size ∧ A.accept < A.size) (hB : B.start < B.size ∧ B.accept < B.size) :
    A.dot = B.dot ↔ A.size = B.size ∧ A.start = B.start ∧ A.accept = B.accept ∧
      ∀ s, (A.edgesFrom s).Perm (B.edgesFrom s) := by
  rw [dot_eq_iff, drawnNodes_eq_iff]
  constructor
  · rintro ⟨⟨hsize, hroles⟩, hedges⟩
    obtain ⟨hstart, haccept⟩ := ends_eq_of_role_eq hA.1 hA.2 (hsize ▸ hB.1) hroles
    exact ⟨hsize, hstart, haccept, (drawnEdges_eq_iff hsize).mp hedges⟩
  · rintro ⟨hsize, hstart, haccept, hedges⟩
    refine ⟨⟨hsize, ?_⟩, (drawnEdges_eq_iff hsize).mpr hedges⟩
    intro s _
    simp only [role, hstart, haccept]

/-- A quote, a line break and silence as labels, in two orders, and an edge that ends nowhere. -/
theorem Automaton.dot_determines_automaton_quote :
    let A : Automaton := ⟨0, 0, #[[⟨some '"', 1⟩, ⟨none, 5⟩, ⟨some '\n', 1⟩], []]⟩
    let B : Automaton := ⟨0, 0, #[[⟨some '\n', 1⟩, ⟨some '"', 1⟩, ⟨none, 5⟩], []]⟩
    let C : Automaton := ⟨1, 0, #[[⟨some '"', 1⟩, ⟨none, 5⟩, ⟨some '\n', 1⟩], []]⟩
    A.dot = B.dot ∧ A.dot ≠ C.dot := by
  intro A B C
  have hends : A.start < A.size ∧ A.accept < A.size := by decide
  constructor
  · refine (dot_determines_automaton hends (by decide)).mpr ⟨rfl, rfl, rfl, ?_⟩
    intro s
    match s with
    | 0 => decide
    | 1 => exact List.Perm.refl _
    | s + 2 => exact List.Perm.refl _
  · intro hsame
    have hstart := ((dot_determines_automaton hends (by decide)).mp hsame).2.1
    exact absurd hstart (by decide)

end PatternAutomata
