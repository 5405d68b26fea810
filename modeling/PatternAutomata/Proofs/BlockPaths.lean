import PatternAutomata.Automaton.Path

/-!
# Paths through a block

A block is a stretch of new states with an entry and an exit.  While it is being
built it is closed: its edges stay within it and none leaves its exit
(`Block.Built`).  When it has become a part of something larger it is still left
in one place only, over silent edges from its exit (`Block.Placed`).

The main fact is `Placed.passes`.  A path that begins in a placed block and ends
outside has first to reach the exit by edges of the block itself; then it may
pass through the block again, from entry to exit, any number of times, before it
leaves for good.  What lies around the block never mixes with what lies in it.
-/

namespace PatternAutomata

namespace Automaton

variable {A B C : Automaton} {s t u : Nat} {w : List Char} {e : Edge}
variable {more : Nat → Edge → Prop}

/-- An edge before a path; a silent edge adds nothing to the word. -/
theorem Path.step (hedge : e ∈ A.edgesFrom s) (hrest : A.Path e.target w t) :
    A.Path s (e.label.toList ++ w) t := by
  obtain ⟨label, target⟩ := e
  cases label with
  | none => exact Path.silent hedge hrest
  | some c => exact Path.consume hedge hrest

/-- Induction along a path that does not tell silent edges from others. -/
theorem Path.induct {motive : ∀ s t w, A.Path s w t → Prop}
    (nil : ∀ s, motive s s [] (Path.nil s))
    (step : ∀ s e w t (hedge : e ∈ A.edgesFrom s) (hrest : A.Path e.target w t),
      motive e.target t w hrest → motive s t (e.label.toList ++ w) (Path.step hedge hrest))
    (hpath : A.Path s w t) : motive s t w hpath := by
  induction hpath with
  | nil s => exact nil s
  | silent hedge hrest ih => exact step _ _ _ _ hedge hrest ih
  | consume hedge hrest ih => exact step _ _ _ _ hedge hrest ih

/-- A path is empty or begins with an edge. -/
theorem Path.eq_or_step (hpath : A.Path s w t) :
    (w = [] ∧ t = s) ∨
      ∃ e ∈ A.edgesFrom s, ∃ v, w = e.label.toList ++ v ∧ A.Path e.target v t := by
  induction hpath using Path.induct with
  | nil s => exact Or.inl ⟨rfl, rfl⟩
  | step s e w t hedge hrest _ => exact Or.inr ⟨e, hedge, w, rfl, hrest⟩

/-- More edges keep every path. -/
theorem Path.mono (hsub : ∀ s e, e ∈ A.edgesFrom s → e ∈ B.edgesFrom s)
    (hpath : A.Path s w t) : B.Path s w t := by
  induction hpath using Path.induct with
  | nil s => exact Path.nil s
  | step s e w t hedge _ ih => exact Path.step (hsub s e hedge) ih

/-- The paths of an automaton do not depend on its start and its accepting state. -/
theorem path_congr_edges (hsame : A.edges = B.edges) : A.Path s w t ↔ B.Path s w t := by
  have hedges : ∀ s, A.edgesFrom s = B.edgesFrom s := by
    intro s
    rw [edgesFrom, edgesFrom, hsame]
  constructor
  · intro hpath
    exact hpath.mono fun s e hedge => hedges s ▸ hedge
  · intro hpath
    exact hpath.mono fun s e hedge => (hedges s).symm ▸ hedge

/-- A path from a state without edges stays there. -/
theorem Path.eq_of_idle (hidle : A.edgesFrom s = []) (hpath : A.Path s w t) :
    w = [] ∧ t = s := by
  rcases hpath.eq_or_step with hnil | ⟨e, hedge, _⟩
  · exact hnil
  · rw [hidle] at hedge
    cases hedge

/-- `B` has the states of `A` with the edges they had there, and further states
whose edges stay among these. -/
structure Extends (A B : Automaton) : Prop where
  size_le : A.size ≤ B.size
  old : ∀ s e, s < A.size → (e ∈ B.edgesFrom s ↔ e ∈ A.edgesFrom s)
  stays : ∀ s e, A.size ≤ s → e ∈ B.edgesFrom s → A.size ≤ e.target ∧ e.target < B.size

namespace Extends

theorem refl (A : Automaton) : A.Extends A where
  size_le := Nat.le_refl _
  old _ _ _ := Iff.rfl
  stays _ _ hs hedge := absurd (lt_size_of_mem_edgesFrom hedge) (Nat.not_lt.mpr hs)

theorem trans (hfirst : A.Extends B) (hsecond : B.Extends C) : A.Extends C where
  size_le := Nat.le_trans hfirst.size_le hsecond.size_le
  old s e hs := by
    rw [hsecond.old s e (Nat.lt_of_lt_of_le hs hfirst.size_le), hfirst.old s e hs]
  stays s e hs hedge := by
    by_cases hold : s < B.size
    · have hstays := hfirst.stays s e hs ((hsecond.old s e hold).mp hedge)
      exact ⟨hstays.1, Nat.lt_of_lt_of_le hstays.2 hsecond.size_le⟩
    · have hstays := hsecond.stays s e (Nat.not_lt.mp hold) hedge
      exact ⟨Nat.le_trans hfirst.size_le hstays.1, hstays.2⟩

/-- An automaton still extends another when it gets edges among the new states. -/
theorem grow (h : A.Extends B) (hsize : B.size ≤ C.size)
    (hedges : ∀ s e, e ∈ C.edgesFrom s ↔ e ∈ B.edgesFrom s ∨ more s e)
    (hnew : ∀ s e, more s e → A.size ≤ s ∧ A.size ≤ e.target ∧ e.target < C.size) :
    A.Extends C where
  size_le := Nat.le_trans h.size_le hsize
  old s e hs := by
    have hnone : ¬ more s e := fun hmore => absurd (hnew s e hmore).1 (Nat.not_le.mpr hs)
    rw [hedges, h.old s e hs]
    simp [hnone]
  stays s e hs hedge := by
    rcases (hedges s e).mp hedge with hold | hmore
    · have hstays := h.stays s e hs hold
      exact ⟨hstays.1, Nat.lt_of_lt_of_le hstays.2 hsize⟩
    · exact (hnew s e hmore).2

end Extends

end Automaton

open Automaton

/-- The block `b` has been built in `B` behind the states of `A`, and nothing has
been attached to its exit. -/
structure Block.Built (b : Block) (A B : Automaton) : Prop extends A.Extends B where
  entry_le : A.size ≤ b.entry
  entry_lt : b.entry < B.size
  exit_le : A.size ≤ b.exit
  exit_lt : b.exit < B.size
  exit_idle : B.edgesFrom b.exit = []

/-- The ends of a block are among the new states. -/
theorem Block.Built.bounds {b : Block} {A B : Automaton} (h : b.Built A B) :
    A.size ≤ B.size ∧ A.size ≤ b.entry ∧ b.entry < B.size ∧ A.size ≤ b.exit ∧ b.exit < B.size :=
  ⟨h.size_le, h.entry_le, h.entry_lt, h.exit_le, h.exit_lt⟩

/-- In `C` the states of the block have the edges they have in `B`, and silent
edges lead on from the exit to each state in `ways`. -/
def Block.Placed (b : Block) (A B C : Automaton) (ways : List Nat) : Prop :=
  ∀ s e, A.size ≤ s → s < B.size →
    (e ∈ C.edgesFrom s ↔
      e ∈ B.edgesFrom s ∨ s = b.exit ∧ ∃ x ∈ ways, e = ⟨none, x⟩)

namespace Block.Placed

variable {b : Block} {A B C : Automaton} {ways : List Nat} {s t x : Nat} {w : List Char}

/-- **Passing through a block.**  A path from inside a block to a state outside
it runs to the exit within the block, passes through the block again from entry
to exit some times, and leaves over one of the ways on.  It passes again only if
the entry is itself one of these ways. -/
theorem passes (hplaced : b.Placed A B C ways) (hbuilt : b.Built A B)
    (hways : ∀ x ∈ ways, x = b.entry ∨ x < A.size ∨ B.size ≤ x)
    (hpath : C.Path s w t) (hs : A.size ≤ s ∧ s < B.size) (ht : t < A.size ∨ B.size ≤ t) :
    ∃ u pieces v x, w = u ++ (pieces.flatten ++ v) ∧ B.Path s u b.exit ∧
      (∀ piece ∈ pieces, B.Path b.entry piece b.exit) ∧ (pieces = [] ∨ b.entry ∈ ways) ∧
      x ∈ ways ∧ (x < A.size ∨ B.size ≤ x) ∧ C.Path x v t := by
  induction hpath using Path.induct with
  | nil s => omega
  | step s e w t hedge hrest ih =>
      rcases (hplaced s e hs.1 hs.2).mp hedge with hinner | ⟨rfl, x, hx, rfl⟩
      · have hstays := hbuilt.stays s e hs.1 hinner
        obtain ⟨u, pieces, v, x, rfl, hpath, hpieces, hagain, hx, hout, hleft⟩ := ih hstays ht
        refine ⟨e.label.toList ++ u, pieces, v, x, ?_, Path.step hinner hpath, hpieces, hagain,
          hx, hout, hleft⟩
        rw [List.append_assoc]
      · rcases hways x hx with rfl | hout
        · obtain ⟨u, pieces, v, x, rfl, hpath, hpieces, _, hx', hout, hleft⟩ :=
            ih ⟨hbuilt.entry_le, hbuilt.entry_lt⟩ ht
          refine ⟨[], u :: pieces, v, x, by simp, Path.nil _, ?_, Or.inr hx, hx', hout, hleft⟩
          intro piece hpiece
          rcases List.mem_cons.mp hpiece with rfl | hpiece
          · exact hpath
          · exact hpieces piece hpiece
        · exact ⟨[], [], w, x, by simp, Path.nil _, by simp, Or.inl rfl, hx, hout, hrest⟩

/-- A block whose entry is none of its ways on is passed once. -/
theorem leaves (hplaced : b.Placed A B C ways) (hbuilt : b.Built A B)
    (hways : ∀ x ∈ ways, x < A.size ∨ B.size ≤ x)
    (hpath : C.Path b.entry w t) (ht : t < A.size ∨ B.size ≤ t) :
    ∃ u v x, w = u ++ v ∧ B.Path b.entry u b.exit ∧ x ∈ ways ∧ C.Path x v t := by
  obtain ⟨u, pieces, v, x, hw, hinner, _, hagain, hx, _, hleft⟩ :=
    hplaced.passes hbuilt (fun x hx => Or.inr (hways x hx)) hpath
      ⟨hbuilt.entry_le, hbuilt.entry_lt⟩ ht
  rcases hagain with rfl | hentry
  · exact ⟨u, v, x, by simpa using hw, hinner, hx, hleft⟩
  · have hentry_le := hbuilt.entry_le
    have hentry_lt := hbuilt.entry_lt
    have hoff := hways b.entry hentry
    omega

/-- Nothing leaves a block without ways on. -/
theorem confined (hplaced : b.Placed A B C []) (hbuilt : b.Built A B)
    (hpath : C.Path s w t) (hs : A.size ≤ s ∧ s < B.size) : B.Path s w t := by
  induction hpath using Path.induct with
  | nil s => exact Path.nil s
  | step s e w t hedge _ ih =>
      rcases (hplaced s e hs.1 hs.2).mp hedge with hinner | ⟨_, x, hx, _⟩
      · exact Path.step hinner (ih (hbuilt.stays s e hs.1 hinner))
      · cases hx

/-- A block keeps its own paths wherever it is placed. -/
theorem lift (hplaced : b.Placed A B C ways) (hbuilt : b.Built A B)
    (hpath : B.Path s w t) (hs : A.size ≤ s) : C.Path s w t := by
  induction hpath using Path.induct with
  | nil s => exact Path.nil s
  | step s e w t hedge _ ih =>
      have hlifted := (hplaced s e hs (lt_size_of_mem_edgesFrom hedge)).mpr (Or.inl hedge)
      exact Path.step hlifted (ih (hbuilt.stays s e hs hedge).1)

/-- A path to the exit of a block can be taken on to each of its ways. -/
theorem exits (hplaced : b.Placed A B C ways) (hbuilt : b.Built A B) (hx : x ∈ ways)
    (hs : A.size ≤ s) (hpath : B.Path s w b.exit) : C.Path s w x := by
  have hway : ⟨none, x⟩ ∈ C.edgesFrom b.exit :=
    (hplaced b.exit _ hbuilt.exit_le hbuilt.exit_lt).mpr (Or.inr ⟨rfl, x, hx, rfl⟩)
  have hpass := hplaced.lift hbuilt hpath hs
  simpa using hpass.append (Path.silent hway (Path.nil x))

/-- The word of a path through a block and on to a state where all ends is that of
a path through the block alone. -/
theorem crosses (hplaced : b.Placed A B C [x]) (hbuilt : b.Built A B)
    (hx : x < A.size ∨ B.size ≤ x) (hidle : C.edgesFrom x = []) :
    C.Path b.entry w x ↔ B.Path b.entry w b.exit := by
  constructor
  · intro hpath
    obtain ⟨u, v, y, rfl, hinner, hy, hleft⟩ := hplaced.leaves hbuilt (by simpa using hx) hpath hx
    rw [List.mem_singleton] at hy
    subst hy
    obtain ⟨rfl, _⟩ := hleft.eq_of_idle hidle
    simpa using hinner
  · intro hinner
    exact hplaced.exits hbuilt List.mem_cons_self hbuilt.entry_le hinner

/-- If the exit of a block also leads back to its entry, a path on through the
block spells one word after another of paths through the block alone. -/
theorem crosses_again (hplaced : b.Placed A B C [b.entry, x]) (hbuilt : b.Built A B)
    (hx : x < A.size ∨ B.size ≤ x) (hidle : C.edgesFrom x = []) :
    C.Path b.entry w x ↔
      ∃ piece pieces, w = piece ++ pieces.flatten ∧
        ∀ part ∈ piece :: pieces, B.Path b.entry part b.exit := by
  constructor
  · intro hpath
    obtain ⟨u, pieces, v, y, rfl, hinner, hpieces, _, hy, hout, hleft⟩ :=
      hplaced.passes hbuilt (by simpa using Or.inr hx) hpath
        ⟨hbuilt.entry_le, hbuilt.entry_lt⟩ hx
    have hyx : y = x := by
      rcases List.mem_cons.mp hy with rfl | hy
      · have hbounds := hbuilt.bounds
        omega
      · exact List.mem_singleton.mp hy
    subst hyx
    obtain ⟨rfl, _⟩ := hleft.eq_of_idle hidle
    refine ⟨u, pieces, by simp, ?_⟩
    intro part hpart
    rcases List.mem_cons.mp hpart with rfl | hpart
    · exact hinner
    · exact hpieces part hpart
  · intro hparts
    obtain ⟨piece, pieces, rfl, hpieces⟩ := hparts
    induction pieces generalizing piece with
    | nil =>
        have hpass := hplaced.exits (x := x) hbuilt (by simp) hbuilt.entry_le
          (hpieces piece List.mem_cons_self)
        simpa using hpass
    | cons next rest ih =>
        have hpass := hplaced.exits (x := b.entry) hbuilt (by simp) hbuilt.entry_le
          (hpieces piece List.mem_cons_self)
        have hrest := ih next (fun part hpart => hpieces part (List.mem_cons_of_mem _ hpart))
        rw [List.flatten_cons]
        exact hpass.append hrest

end Block.Placed

end PatternAutomata
