import PatternAutomata.Proofs.DistinctEdges
import PatternAutomata.Proofs.ThompsonLanguage

/-!
# The builder adds fresh edges only

Every step of the building adds a few edges to an automaton, one after the other
(`Automaton.connectAll`).  They are fresh: none of them is there already, and no two
of them are the same (`Automaton.Fresh`).  That is so because a block that has been
built has nothing attached to its exit, and its states are new.

So all of them are added (`edgesFrom_connectAll`), every edge can be counted where it
is added (`countP_label_build`), and a builder that never looks whether an edge is there
comes to the same automaton (`buildBlindly_eq_build`).
-/

namespace PatternAutomata

namespace Automaton

variable {A B C : Automaton} {new : List (Nat × Edge)} {s : Nat} {e : Edge}

/-- The automaton with some edges added to the states they are given with. -/
def connectAll (A : Automaton) (new : List (Nat × Edge)) : Automaton :=
  new.foldl (fun B p => B.connect p.1 p.2) A

/-- The automaton with some edges put behind those of the states they are given with,
whether or not they are there already. -/
def attachAll (A : Automaton) (new : List (Nat × Edge)) : Automaton :=
  new.foldl (fun B p => { B with edges := B.edges.modify p.1 (· ++ [p.2]) }) A

/-- Some edges are new to the states they are given with, which exist, and differ from each
other. -/
structure Fresh (A : Automaton) (new : List (Nat × Edge)) : Prop where
  nodup : new.Nodup
  inside : ∀ p ∈ new, p.1 < A.size
  absent : ∀ p ∈ new, p.2 ∉ A.edgesFrom p.1

theorem Fresh.head {p : Nat × Edge} (h : A.Fresh (p :: new)) :
    p.1 < A.size ∧ p.2 ∉ A.edgesFrom p.1 :=
  ⟨h.inside p List.mem_cons_self, h.absent p List.mem_cons_self⟩

/-- When the first of them has been added, the others are fresh still. -/
theorem Fresh.tail {p : Nat × Edge} (h : A.Fresh (p :: new)) :
    (A.connect p.1 p.2).Fresh new where
  nodup := (List.nodup_cons.mp h.nodup).2
  inside q hq := by
    rw [size_connect]
    exact h.inside q (List.mem_cons_of_mem _ hq)
  absent q hq hmem := by
    rcases mem_edgesFrom_connect.mp hmem with hold | ⟨hstate, _, hedge⟩
    · exact h.absent q (List.mem_cons_of_mem _ hq) hold
    · have hsame : q = p := Prod.ext hstate hedge
      exact (List.nodup_cons.mp h.nodup).1 (hsame ▸ hq)

/-- **Fresh edges are all added**, in their order, behind those of their states. -/
theorem edgesFrom_connectAll (h : A.Fresh new) (s : Nat) :
    (A.connectAll new).edgesFrom s =
      A.edgesFrom s ++ (new.filter (·.1 == s)).map Prod.snd := by
  induction new generalizing A with
  | nil => exact (List.append_nil _).symm
  | cons p rest ih =>
      rw [connectAll, List.foldl_cons, ← connectAll, ih h.tail, edgesFrom_connect]
      by_cases hs : s = p.1
      · rw [if_pos ⟨hs, h.head⟩, hs]
        simp
      · rw [if_neg fun hadded => hs hadded.1]
        simp [Ne.symm hs]

theorem allEdges_connectAll_perm (h : A.Fresh new) :
    (A.connectAll new).allEdges.Perm (new.map Prod.snd ++ A.allEdges) := by
  induction new generalizing A with
  | nil => exact List.Perm.refl _
  | cons p rest ih =>
      have hfirst := allEdges_connect_perm h.head.1 h.head.2
      have hothers := (ih h.tail).trans (hfirst.append_left (rest.map Prod.snd))
      exact hothers.trans List.perm_middle

theorem countP_connectAll (h : A.Fresh new) (p : Edge → Bool) :
    (A.connectAll new).allEdges.countP p = A.allEdges.countP p + new.countP (p ·.2) := by
  rw [(allEdges_connectAll_perm h).countP_eq, List.countP_append, List.countP_map, Nat.add_comm]
  rfl

/-- Fresh edges need not be looked for. -/
theorem attachAll_eq_connectAll (h : A.Fresh new) : A.attachAll new = A.connectAll new := by
  induction new generalizing A with
  | nil => rfl
  | cons p rest ih =>
      have hfirst : A.connect p.1 p.2 = { A with edges := A.edges.modify p.1 (· ++ [p.2]) } := by
        rw [connect, if_neg (mt hasEdge_iff.mp h.head.2)]
      have hothers := ih h.tail
      rw [hfirst] at hothers
      rw [attachAll, List.foldl_cons, ← attachAll, hothers, ← hfirst]
      rfl

@[simp] theorem allEdges_addPair (A : Automaton) : A.addPair.2.allEdges = A.allEdges := by
  simp [addPair, allEdges]

/-! ### The edges of each step -/

/-- The edge of a literal whose entry is state `n`. -/
def literalEdges (n : Nat) (c : Char) : List (Nat × Edge) :=
  [(n, ⟨some c, n + 1⟩)]

/-- The edges around two blocks of which one is passed, with the new entry `n`. -/
def alternateEdges (n : Nat) (lower upper : Block) : List (Nat × Edge) :=
  [(n, ⟨none, lower.entry⟩), (n, ⟨none, upper.entry⟩),
    (lower.exit, ⟨none, n + 1⟩), (upper.exit, ⟨none, n + 1⟩)]

/-- The edge from one block to the next. -/
def chainEdges (first second : Block) : List (Nat × Edge) :=
  [(first.exit, ⟨none, second.entry⟩)]

/-- The edges around a block that is passed any number of times, with the new entry `n`. -/
def loopEdges (n : Nat) (body : Block) : List (Nat × Edge) :=
  [(n, ⟨none, body.entry⟩), (n, ⟨none, n + 1⟩),
    (body.exit, ⟨none, body.entry⟩), (body.exit, ⟨none, n + 1⟩)]

/-- Builds the block of a tree without ever looking whether an edge is there. -/
def buildBlindly (A : Automaton) : Tree → Block × Automaton
  | .char c => (A.addPair.1, A.addPair.2.attachAll (literalEdges A.size c))
  | .union left right =>
    let lower := A.buildBlindly left
    let upper := lower.2.buildBlindly right
    (upper.2.addPair.1,
      upper.2.addPair.2.attachAll (alternateEdges upper.2.size lower.1 upper.1))
  | .concat left right =>
    let first := A.buildBlindly left
    let second := first.2.buildBlindly right
    (⟨first.1.entry, second.1.exit⟩, second.2.attachAll (chainEdges first.1 second.1))
  | .star inner =>
    let body := A.buildBlindly inner
    (body.2.addPair.1, body.2.addPair.2.attachAll (loopEdges body.2.size body.1))
  | .group inner => A.buildBlindly inner

theorem literal_eq (A : Automaton) (c : Char) :
    A.literal c = (A.addPair.1, A.addPair.2.connectAll (literalEdges A.size c)) :=
  rfl

theorem alternate_eq (A : Automaton) (lower upper : Block) :
    A.alternate lower upper =
      (A.addPair.1, A.addPair.2.connectAll (alternateEdges A.size lower upper)) := by
  simp only [alternate, alternateEdges, connectAll, List.foldl_cons, List.foldl_nil, bridge,
    entry_addPair, exit_addPair]

theorem chain_eq (A : Automaton) (first second : Block) :
    A.chain first second =
      (⟨first.entry, second.exit⟩, A.connectAll (chainEdges first second)) :=
  rfl

theorem loop_eq (A : Automaton) (body : Block) :
    A.loop body = (A.addPair.1, A.addPair.2.connectAll (loopEdges A.size body)) := by
  simp only [loop, loopEdges, connectAll, List.foldl_cons, List.foldl_nil, bridge,
    entry_addPair, exit_addPair]

section Steps

variable {lower upper first second body : Block}

theorem fresh_literal (A : Automaton) (c : Char) :
    A.addPair.2.Fresh (literalEdges A.size c) where
  nodup := by simp [literalEdges]
  inside := by simp [literalEdges]
  absent := by
    simp [literalEdges, not_mem_edgesFrom]

theorem fresh_alternate (hlower : lower.Built A B) (hupper : upper.Built B C) :
    C.addPair.2.Fresh (alternateEdges C.size lower upper) := by
  have hlower_bounds := hlower.bounds
  have hupper_bounds := hupper.bounds
  refine ⟨?_, ?_, ?_⟩
  · simp [alternateEdges]
    omega
  · simp [alternateEdges]
    omega
  · have hlower_idle : ∀ e, e ∉ C.edgesFrom lower.exit := by
      intro e
      rw [hupper.old _ e hlower.exit_lt, hlower.exit_idle]
      exact List.not_mem_nil
    simp [alternateEdges, not_mem_edgesFrom, hlower_idle, hupper.exit_idle]

theorem fresh_chain (hfirst : first.Built A B) (hsecond : second.Built B C) :
    C.Fresh (chainEdges first second) := by
  have hfirst_bounds := hfirst.bounds
  have hsecond_bounds := hsecond.bounds
  refine ⟨?_, ?_, ?_⟩
  · simp [chainEdges]
  · simp [chainEdges]
    omega
  · simp [chainEdges, hsecond.old _ _ hfirst.exit_lt, hfirst.exit_idle]

theorem fresh_loop (hbody : body.Built A B) : B.addPair.2.Fresh (loopEdges B.size body) := by
  have hbounds := hbody.bounds
  refine ⟨?_, ?_, ?_⟩
  · simp [loopEdges]
    omega
  · simp [loopEdges]
    omega
  · simp [loopEdges, not_mem_edgesFrom, hbody.exit_idle]

end Steps

/-- **The builder need not look whether an edge is there.** -/
theorem buildBlindly_eq_build (A : Automaton) (t : Tree) : A.buildBlindly t = A.build t := by
  induction t generalizing A with
  | char c =>
      rw [build, literal_eq, ← attachAll_eq_connectAll (fresh_literal A c)]
      rfl
  | union left right ihl ihr =>
      have hfresh := fresh_alternate (built_build A left) (built_build (A.build left).2 right)
      simp only [buildBlindly, build, ihl, ihr, alternate_eq, attachAll_eq_connectAll hfresh]
  | concat left right ihl ihr =>
      have hfresh := fresh_chain (built_build A left) (built_build (A.build left).2 right)
      simp only [buildBlindly, build, ihl, ihr, chain_eq, attachAll_eq_connectAll hfresh]
  | star inner ih =>
      have hfresh := fresh_loop (built_build A inner)
      simp only [buildBlindly, build, ih, loop_eq, attachAll_eq_connectAll hfresh]
  | group inner ih => exact ih A

/-! ### Counting -/

theorem size_build (A : Automaton) (t : Tree) :
    (A.build t).2.size = A.size + 2 * (t.count .char + t.count .union + t.count .star) := by
  induction t generalizing A with
  | char c => simp [build, Tree.count]
  | union left right ihl ihr =>
      simp [build, Tree.count, ihl, ihr]
      omega
  | concat left right ihl ihr =>
      simp [build, Tree.count, ihl, ihr]
      omega
  | star inner ih =>
      simp [build, Tree.count, ih]
      omega
  | group inner ih => simpa [build, Tree.count] using ih A

/-- Every literal brings an edge under its character.  Every join brings one silent edge,
every `|` and every star four. -/
theorem countP_label_build (A : Automaton) (t : Tree) (p : Option Char → Bool) :
    (A.build t).2.allEdges.countP (p ·.label) =
      A.allEdges.countP (p ·.label) + t.letters.countP (p <| some ·) +
        if p none then t.count .concat + 4 * (t.count .union + t.count .star) else 0 := by
  induction t generalizing A with
  | char c =>
      rw [build, literal_eq, countP_connectAll (fresh_literal A c), allEdges_addPair]
      simp [literalEdges, Tree.letters, Tree.count]
  | union left right ihl ihr =>
      have hfresh := fresh_alternate (built_build A left) (built_build (A.build left).2 right)
      rw [build, alternate_eq, countP_connectAll hfresh, allEdges_addPair, ihr, ihl]
      simp [alternateEdges, Tree.letters, Tree.count, List.countP_cons]
      grind
  | concat left right ihl ihr =>
      have hfresh := fresh_chain (built_build A left) (built_build (A.build left).2 right)
      rw [build, chain_eq, countP_connectAll hfresh, ihr, ihl]
      simp [chainEdges, Tree.letters, Tree.count]
      grind
  | star inner ih =>
      have hfresh := fresh_loop (built_build A inner)
      rw [build, loop_eq, countP_connectAll hfresh, allEdges_addPair, ih]
      simp [loopEdges, Tree.letters, Tree.count]
      grind
  | group inner ih => simpa [build, Tree.letters, Tree.count] using ih A

theorem edgeCount_build (A : Automaton) (t : Tree) :
    (A.build t).2.edgeCount = A.edgeCount +
      (t.count .char + t.count .concat + 4 * (t.count .union + t.count .star)) := by
  have hcount := countP_label_build A t fun _ => true
  simp only [List.countP_true, Tree.length_letters, if_true] at hcount
  rw [edgeCount, hcount, edgeCount]
  omega

theorem silentCount_build (A : Automaton) (t : Tree) :
    (A.build t).2.silentCount = A.silentCount +
      (t.count .concat + 4 * (t.count .union + t.count .star)) := by
  have hcount := countP_label_build A t Option.isNone
  simp only [Option.isNone_some, List.countP_false, Option.isNone_none, if_true] at hcount
  exact hcount

end Automaton

end PatternAutomata
