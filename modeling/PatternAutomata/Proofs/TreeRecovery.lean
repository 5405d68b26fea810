import PatternAutomata.Proofs.JoinedBlocks

/-!
# A tree can be found again in its automaton

Without parentheses and with all chains nested to the left a tree is in normal form
(`Tree.IsNormal`).  In that form it can be read off what was built for it.  The edges of the
entry show what stands at the root (`root_build`), and the exit is always the last state
(`exit_build`).  So it is known which edges were added last (`chain_inj`, `alternate_inj`,
`loop_inj`); without them there remain the blocks of the parts, and where the first part
ends the second begins.

Hence two trees have the same automaton exactly if they have the same normal form.
-/

namespace PatternAutomata

open Automaton

namespace Tree

/-- The kind of the node at the root. -/
def kind : Tree → Kind
  | char _ => .char
  | union .. => .union
  | concat .. => .concat
  | star _ => .star
  | group _ => .group

/-- There are no parentheses, and no part of a chain but the first is a chain itself. -/
def IsNormal : Tree → Prop
  | char _ => True
  | union left right => left.IsNormal ∧ right.IsNormal
  | concat left right => left.IsNormal ∧ right.IsNormal ∧ right.kind ≠ .concat
  | star inner => inner.IsNormal
  | group _ => False

theorem IsNormal.kind_ne_group {t : Tree} (h : t.IsNormal) : t.kind ≠ .group := by
  intro hkind
  cases t with
  | group inner => exact h
  | _ => cases hkind

theorem IsNormal.joinLeft {left right : Tree} (hleft : left.IsNormal) (hright : right.IsNormal) :
    (left.joinLeft right).IsNormal := by
  induction right with
  | concat front last ih _ => exact ⟨ih hright.1, hright.2⟩
  | group inner => exact hright.elim
  | _ => exact ⟨hleft, hright, Kind.noConfusion⟩

/-- Taking the parentheses away and nesting chains to the left leads to the normal form. -/
theorem isNormal_leftNested_erase (t : Tree) : t.erase.leftNested.IsNormal := by
  induction t with
  | char c => trivial
  | union left right ihl ihr => exact ⟨ihl, ihr⟩
  | concat left right ihl ihr => exact ihl.joinLeft ihr
  | star inner ih => exact ih
  | group inner ih => exact ih

end Tree

/-- The kind of tree that a block has been built for, by the edges of its entry. -/
def Block.root (b : Block) (A : Automaton) : Option Tree.Kind :=
  if b.entry + 2 < A.size then some .concat
  else
    match A.edgesFrom b.entry with
    | [⟨some _, _⟩] => some .char
    | [_, ⟨_, t⟩] => if t = b.exit then some .star else some .union
    | _ => none

namespace Block

variable {b : Block} {A : Automaton} {c : Char} {t u : Nat}

theorem eq_of_ends {b b' : Block} (hentry : b.entry = b'.entry) (hexit : b.exit = b'.exit) :
    b = b' := by
  cases b
  cases b'
  simp_all

theorem root_of_consuming (hlast : b.entry + 2 = A.size)
    (hedges : A.edgesFrom b.entry = [⟨some c, t⟩]) : b.root A = some .char := by
  rw [root, if_neg (by omega), hedges]

theorem root_of_fork (hlast : b.entry + 2 = A.size)
    (hedges : A.edgesFrom b.entry = [⟨none, t⟩, ⟨none, u⟩]) :
    b.root A = if u = b.exit then some .star else some .union := by
  rw [root, if_neg (by omega), hedges]

end Block

namespace Automaton

variable {A A' B B' C C' : Automaton} {lower lower' upper upper' : Block}
variable {first first' second second' body body' : Block} {new : List (Nat × Edge)} {s : Nat}

/-! ### The ends of a block -/

/-- **The exit of a block is its last state.** -/
theorem exit_build (A : Automaton) (t : Tree) : (A.build t).1.exit + 1 = (A.build t).2.size := by
  induction t generalizing A with
  | char c => exact (size_literal A c).symm
  | union left right => exact (size_alternate _ _ _).symm
  | concat left right _ ihr => exact (ihr _).trans (size_chain _ _ _).symm
  | star inner => exact (size_loop _ _).symm
  | group inner ih => exact ih A

theorem size_add_two_le_build (A : Automaton) (t : Tree) :
    A.size + 2 ≤ (A.build t).2.size := by
  have hbounds := (built_build A t).bounds
  have hends := (sealed_build A t).ends_ne
  omega

theorem edgesFrom_entry_literal (A : Automaton) (c : Char) :
    (A.literal c).2.edgesFrom A.size = [⟨some c, A.size + 1⟩] := by
  rw [literal_eq, edgesFrom_connectAll (fresh_literal A c), edgesFrom_addPair,
    edgesFrom_of_size_le (Nat.le_refl _)]
  simp [literalEdges]

theorem edgesFrom_entry_alternate (hlower : lower.Built A B) (hupper : upper.Built B C) :
    (C.alternate lower upper).2.edgesFrom C.size = [⟨none, lower.entry⟩, ⟨none, upper.entry⟩] := by
  have hlower_bounds := hlower.bounds
  have hupper_bounds := hupper.bounds
  have hlower_exit : lower.exit ≠ C.size := by omega
  have hupper_exit : upper.exit ≠ C.size := by omega
  rw [alternate_eq, edgesFrom_connectAll (fresh_alternate hlower hupper), edgesFrom_addPair,
    edgesFrom_of_size_le (Nat.le_refl _)]
  simp [alternateEdges, hlower_exit, hupper_exit]

theorem edgesFrom_entry_loop (hbody : body.Built A B) :
    (B.loop body).2.edgesFrom B.size = [⟨none, body.entry⟩, ⟨none, B.size + 1⟩] := by
  have hexit : body.exit ≠ B.size := Nat.ne_of_lt hbody.exit_lt
  rw [loop_eq, edgesFrom_connectAll (fresh_loop hbody), edgesFrom_addPair,
    edgesFrom_of_size_le (Nat.le_refl _)]
  simp [loopEdges, hexit]

/-- A block that is no chain begins with its last state but one. -/
theorem entry_build (A : Automaton) {t : Tree} (hgroup : t.kind ≠ .group)
    (hconcat : t.kind ≠ .concat) : (A.build t).1.entry + 2 = (A.build t).2.size := by
  cases t with
  | char c => exact (size_literal A c).symm
  | union left right => exact (size_alternate _ _ _).symm
  | concat left right => exact absurd rfl hconcat
  | star inner => exact (size_loop _ _).symm
  | group inner => exact absurd rfl hgroup

/-- **The root of a tree can be seen at the entry of its block.** -/
theorem root_build (A : Automaton) {t : Tree} (ht : t.kind ≠ .group) :
    (A.build t).1.root (A.build t).2 = some t.kind := by
  cases t with
  | char c =>
      exact Block.root_of_consuming (entry_build A ht Tree.Kind.noConfusion)
        (edgesFrom_entry_literal A c)
  | union left right =>
      have hupper := built_build (A.build left).2 right
      have hapart : (build _ right).1.entry ≠ (build _ right).2.size + 1 :=
        Nat.ne_of_lt (Nat.lt_succ_of_lt hupper.entry_lt)
      have hroot := Block.root_of_fork (entry_build A ht Tree.Kind.noConfusion)
        (edgesFrom_entry_alternate (built_build A left) hupper)
      exact hroot.trans (if_neg hapart)
  | concat left right =>
      have hfirst := (built_build A left).bounds
      have hsecond := size_add_two_le_build (A.build left).2 right
      have hsize : (A.build (.concat left right)).2.size = (build _ right).2.size :=
        size_chain _ _ _
      have hentry : (A.build (.concat left right)).1.entry = (A.build left).1.entry := rfl
      exact if_pos (by omega)
  | star inner =>
      have hroot := Block.root_of_fork (entry_build A ht Tree.Kind.noConfusion)
        (edgesFrom_entry_loop (built_build A inner))
      exact hroot.trans (if_pos rfl)
  | group inner => exact absurd rfl ht

/-! ### The parts of a block -/

/-- What no single edge changes is not changed by several. -/
theorem connectAll_keeps {α : Type} {f : Automaton → α} (hf : ∀ A s e, f (connect A s e) = f A)
    (A : Automaton) (new : List (Nat × Edge)) : f (A.connectAll new) = f A := by
  induction new generalizing A with
  | nil => rfl
  | cons p rest ih => exact (ih _).trans (hf A p.1 p.2)

/-- **Fresh edges can be taken away again.** -/
theorem connectAll_cancel (hfresh : A.Fresh new) (hfresh' : B.Fresh new)
    (hsame : A.connectAll new = B.connectAll new) : A = B := by
  apply ext_edgesFrom
  · rw [← connectAll_keeps start_connect A new, hsame, connectAll_keeps start_connect]
  · rw [← connectAll_keeps accept_connect A new, hsame, connectAll_keeps accept_connect]
  · rw [← connectAll_keeps size_connect A new, hsame, connectAll_keeps size_connect]
  · intro s
    have hedges := edgesFrom_connectAll hfresh s
    rw [hsame, edgesFrom_connectAll hfresh' s] at hedges
    exact (List.append_cancel_right hedges).symm

theorem addPair_cancel (hsame : A.addPair.2 = B.addPair.2) : A = B := by
  apply ext_edgesFrom
  · exact (congrArg Automaton.start hsame :)
  · exact (congrArg Automaton.accept hsame :)
  · have hsize := congrArg Automaton.size hsame
    simpa using hsize
  · intro s
    rw [← edgesFrom_addPair A s, hsame, edgesFrom_addPair]

/-- What a tree was built behind is known once it is known where that ends. -/
theorem eq_of_build_eq {t u : Tree} (hsize : A.size = B.size)
    (hsame : (A.build t).2 = (B.build u).2) : A = B := by
  have hkept : ∀ (A : Automaton) t,
      (A.build t).2.start = A.start ∧ (A.build t).2.accept = A.accept := by
    intro A t
    rw [build_eq_beside]
    exact ⟨rfl, rfl⟩
  apply ext_edgesFrom
  · rw [← (hkept A t).1, hsame, (hkept B u).1]
  · rw [← (hkept A t).2, hsame, (hkept B u).2]
  · exact hsize
  · intro s
    rcases Nat.lt_or_ge s A.size with hs | hs
    · rw [← edgesFrom_build_of_lt t hs, hsame, edgesFrom_build_of_lt u (hsize ▸ hs)]
    · rw [edgesFrom_of_size_le hs, edgesFrom_of_size_le (hsize ▸ hs)]

/-- Of the two states with an edge to the exit of a fork the upper exit is the last one. -/
theorem eq_lower_exit_of_edge (hlower : lower.Built A B) (hupper : upper.Built B C)
    (hA : A.size ≤ s) (hs : s < upper.exit)
    (hedge : ⟨none, C.size + 1⟩ ∈ (C.alternate lower upper).2.edgesFrom s) :
    s = lower.exit := by
  have hlower_bounds := hlower.bounds
  have hupper_bounds := hupper.bounds
  rcases (mem_edgesFrom_alternate (by omega) (by omega)).mp hedge with
    hold | ⟨hfork, _⟩ | ⟨hexit | hexit, _⟩
  · have hstays : C.size + 1 < C.size :=
      ((hlower.toExtends.trans hupper.toExtends).stays _ _ hA hold).2
    omega
  · omega
  · exact hexit
  · omega

/-- Two blocks around two others are the same only if the others are. -/
theorem alternate_inj (hlower : lower.Built A B) (hupper : upper.Built B C)
    (hlower' : lower'.Built A B') (hupper' : upper'.Built B' C')
    (hends : upper.exit + 1 = C.size) (hends' : upper'.exit + 1 = C'.size)
    (hsame : C.alternate lower upper = C'.alternate lower' upper') :
    C = C' ∧ lower = lower' ∧ upper = upper' := by
  have hlower_bounds := hlower.bounds
  have hlower_bounds' := hlower'.bounds
  have hupper_bounds := hupper.bounds
  have hupper_bounds' := hupper'.bounds
  have hsize : C.size = C'.size := congrArg (·.1.entry) hsame
  have hentries := edgesFrom_entry_alternate hlower hupper
  rw [hsame, hsize, edgesFrom_entry_alternate hlower' hupper'] at hentries
  have hexit : lower'.exit = lower.exit := by
    have hout : ⟨none, C'.size + 1⟩ ∈ (C'.alternate lower' upper').2.edgesFrom lower'.exit :=
      (mem_edgesFrom_alternate (by omega) (by omega)).mpr (Or.inr (Or.inr ⟨Or.inl rfl, rfl⟩))
    rw [← hsame, ← hsize] at hout
    exact eq_lower_exit_of_edge hlower hupper hlower'.exit_le (by omega) hout
  simp only [List.cons.injEq, Edge.mk.injEq, true_and, and_true] at hentries
  obtain rfl := Block.eq_of_ends hentries.1.symm hexit.symm
  -- Each upper exit is the last of the old states, of which there are equally many.
  obtain rfl : upper = upper' := Block.eq_of_ends hentries.2.symm (by omega)
  refine ⟨?_, rfl, rfl⟩
  have hfresh := fresh_alternate hlower hupper
  have hadded := congrArg Prod.snd hsame
  simp only [alternate_eq, hsize] at hadded hfresh
  exact addPair_cancel (connectAll_cancel hfresh (fresh_alternate hlower' hupper') hadded)

theorem loop_inj (hbody : body.Built A B) (hbody' : body'.Built A B')
    (hends : body.exit + 1 = B.size) (hends' : body'.exit + 1 = B'.size)
    (hsame : B.loop body = B'.loop body') : B = B' ∧ body = body' := by
  have hsize : B.size = B'.size := congrArg (·.1.entry) hsame
  have hentries := edgesFrom_entry_loop hbody
  rw [hsame, hsize, edgesFrom_entry_loop hbody'] at hentries
  simp only [List.cons.injEq, Edge.mk.injEq, true_and, and_true] at hentries
  obtain rfl : body = body' := Block.eq_of_ends hentries.symm (by omega)
  refine ⟨?_, rfl⟩
  have hfresh := fresh_loop hbody
  have hadded := congrArg Prod.snd hsame
  simp only [loop_eq, hsize] at hadded hfresh
  exact addPair_cancel (connectAll_cancel hfresh (fresh_loop hbody') hadded)

/-- Of the states of a chain only the first exit has an edge to where the second part begins. -/
theorem eq_first_exit_of_edge (hfirst : first.Built A B) (hsecond : second.Built B C)
    (hsealed : second.Sealed B C) (hA : A.size ≤ s)
    (hedge : ⟨none, second.entry⟩ ∈ (C.chain first second).2.edgesFrom s) :
    s = first.exit := by
  have hfirst_bounds := hfirst.bounds
  have hsecond_bounds := hsecond.bounds
  rcases (mem_edgesFrom_chain (by omega)).mp hedge with hold | ⟨hexit, _⟩
  · rcases Nat.lt_or_ge s B.size with hB | hB
    · have hstays : second.entry < B.size :=
        (hfirst.stays _ _ hA ((hsecond.old _ _ hB).mp hold)).2
      omega
    · exact absurd rfl (hsealed.target_ne _ _ hB hold)
  · exact hexit

/-- Two chains whose last part is no chain are the same only if their parts are. -/
theorem chain_inj (hfirst : first.Built A B) (hsecond : second.Built B C)
    (hfirst' : first'.Built A B') (hsecond' : second'.Built B' C')
    (hsealed : second.Sealed B C)
    (hentry : second.entry + 2 = C.size) (hentry' : second'.entry + 2 = C'.size)
    (hsame : C.chain first second = C'.chain first' second') :
    C = C' ∧ first = first' ∧ second = second' := by
  have hfirst_bounds := hfirst.bounds
  have hfirst_bounds' := hfirst'.bounds
  have hsecond_bounds := hsecond.bounds
  have hsecond_bounds' := hsecond'.bounds
  have hsize : C.size = C'.size := by
    have hsizes := congrArg (·.2.size) hsame
    simpa only [size_chain] using hsizes
  -- What is no chain begins two states before its end.
  have hsecond_entry : second.entry = second'.entry := by omega
  have hexit : first'.exit = first.exit := by
    have hjoin : ⟨none, second'.entry⟩ ∈ (C'.chain first' second').2.edgesFrom first'.exit :=
      (mem_edgesFrom_chain (by omega)).mpr (Or.inr ⟨rfl, rfl⟩)
    rw [← hsame, ← hsecond_entry] at hjoin
    exact eq_first_exit_of_edge hfirst hsecond hsealed hfirst'.exit_le hjoin
  have hends := congrArg Prod.fst hsame
  simp only [chain, Block.mk.injEq] at hends
  obtain rfl := Block.eq_of_ends hends.1 hexit.symm
  obtain rfl := Block.eq_of_ends hsecond_entry hends.2
  refine ⟨?_, rfl, rfl⟩
  have hadded := congrArg Prod.snd hsame
  simp only [chain_eq] at hadded
  exact connectAll_cancel (fresh_chain hfirst hsecond) (fresh_chain hfirst' hsecond') hadded

/-- Of two trees built one behind the other, the first ends where its block ends. -/
theorem build_eq_of_behind {left left' right right' : Tree}
    (hblock : (A.build left).1 = (A.build left').1)
    (hbehind : ((A.build left).2.build right).2 = ((A.build left').2.build right').2) :
    A.build left = A.build left' := by
  have hsize : (A.build left).2.size = (A.build left').2.size := by
    rw [← exit_build, hblock, exit_build]
  exact Prod.ext hblock (eq_of_build_eq hsize hbehind)

theorem kind_eq_of_build_eq {t u : Tree} (ht : t.IsNormal) (hu : u.IsNormal)
    (hsame : A.build t = A.build u) : t.kind = u.kind := by
  have hroot := root_build A ht.kind_ne_group
  rw [hsame, root_build A hu.kind_ne_group] at hroot
  exact (Option.some.inj hroot).symm

/-- **Trees in normal form for which the same is built are the same.** -/
theorem build_inj {t u : Tree} (ht : t.IsNormal) (hu : u.IsNormal)
    (hsame : A.build t = A.build u) : t = u := by
  induction t generalizing u A with
  | char c =>
      cases u with
      | char d =>
          have hadded : (A.literal c).2 = (A.literal d).2 := congrArg Prod.snd hsame
          have hedges := edgesFrom_entry_literal A c
          rw [hadded, edgesFrom_entry_literal] at hedges
          simpa using hedges.symm
      | _ => exact Tree.Kind.noConfusion (kind_eq_of_build_eq ht hu hsame)
  | union left right ihl ihr =>
      cases u with
      | union left' right' =>
          obtain ⟨hl, hr⟩ := ht
          obtain ⟨hl', hr'⟩ := hu
          obtain ⟨hbehind, hlower, hupper⟩ :=
            alternate_inj (built_build A left) (built_build _ right) (built_build A left')
              (built_build _ right') (exit_build _ right) (exit_build _ right') hsame
          obtain rfl : left = left' := ihl hl hl' (build_eq_of_behind hlower hbehind)
          obtain rfl : right = right' := ihr hr hr' (Prod.ext hupper hbehind)
          rfl
      | _ => exact Tree.Kind.noConfusion (kind_eq_of_build_eq ht hu hsame)
  | concat left right ihl ihr =>
      cases u with
      | concat left' right' =>
          obtain ⟨hl, hr, hlast⟩ := ht
          obtain ⟨hl', hr', hlast'⟩ := hu
          obtain ⟨hbehind, hfirst, hsecond⟩ :=
            chain_inj (built_build A left) (built_build _ right) (built_build A left')
              (built_build _ right') (sealed_build _ right)
              (entry_build _ hr.kind_ne_group hlast) (entry_build _ hr'.kind_ne_group hlast')
              hsame
          obtain rfl : left = left' := ihl hl hl' (build_eq_of_behind hfirst hbehind)
          obtain rfl : right = right' := ihr hr hr' (Prod.ext hsecond hbehind)
          rfl
      | _ => exact Tree.Kind.noConfusion (kind_eq_of_build_eq ht hu hsame)
  | star inner ih =>
      cases u with
      | star inner' =>
          obtain ⟨hbody, hblock⟩ := loop_inj (built_build A inner) (built_build A inner')
            (exit_build A inner) (exit_build A inner') hsame
          obtain rfl : inner = inner' := ih ht hu (Prod.ext hblock hbody)
          rfl
      | _ => exact Tree.Kind.noConfusion (kind_eq_of_build_eq ht hu hsame)
  | group inner => exact ht.elim

/-- What is built for a tree is known from its automaton. -/
theorem build_blank_inj {t u : Tree} (hsame : ofTree t = ofTree u) :
    blank.build t = blank.build u := by
  rw [build_eq_beside, build_eq_beside, hsame]

/-- **The automaton of a tree remembers all but parentheses and the nesting of chains.**  Two
trees have the same automaton, with the same states, start and accepting state and with the
same edges in the same order, exactly if they become the same tree when their parentheses
are taken away and their chains are nested to the left.  So trees that agree have the same
automaton. -/
theorem ofTree_eq_iff_normal_form_eq (t u : Tree) :
    (ofTree t = ofTree u ↔ t.erase.leftNested = u.erase.leftNested) ∧
      (t.agrees u = true → ofTree t = ofTree u) := by
  have hnormal : ∀ t, ofTree t.erase.leftNested = ofTree t := by
    intro t
    simp only [ofTree, build_leftNested, build_erase]
  have hsame : ofTree t = ofTree u ↔ t.erase.leftNested = u.erase.leftNested := by
    constructor
    · intro hautomata
      rw [← hnormal t, ← hnormal u] at hautomata
      exact build_inj t.isNormal_leftNested_erase u.isNormal_leftNested_erase
        (build_blank_inj hautomata)
    · intro htrees
      rw [← hnormal t, htrees, hnormal u]
  refine ⟨hsame, ?_⟩
  intro hagrees
  rw [hsame, (Tree.agrees_iff_erase_eq t u).mp hagrees]

/-- Three letters, joined from the left and from the right within parentheses, and a star in
place of the last letter. -/
theorem ofTree_eq_iff_normal_form_eq_abc :
    let s : Tree := .concat (.concat (.char 'a') (.char 'b')) (.char 'c')
    let t : Tree := .concat (.char 'a') (.group (.concat (.char 'b') (.char 'c')))
    let u : Tree := .concat (.concat (.char 'a') (.char 'b')) (.star (.char 'c'))
    ofTree s = ofTree t ∧ ofTree s ≠ ofTree u ∧
      (.group u : Tree).agrees u = true ∧ ofTree (.group u) = ofTree u := by
  intro s t u
  have hagrees : (Tree.group u).agrees u = true := (Tree.agrees_iff_erase_eq _ _).mpr rfl
  exact ⟨(ofTree_eq_iff_normal_form_eq s t).1.mpr (by decide),
    mt (ofTree_eq_iff_normal_form_eq s u).1.mp (by decide), hagrees,
    (ofTree_eq_iff_normal_form_eq _ u).2 hagrees⟩

end Automaton

end PatternAutomata
