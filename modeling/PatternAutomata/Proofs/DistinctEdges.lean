import PatternAutomata.Automaton.Edit

/-!
# No edge is held twice

The lists of edges are written by the builder, by the edits and by eliminations,
and all of them add edges through `Automaton.connect`, which passes over an edge
that is there.  So an automaton that holds no edge twice keeps none twice, whatever
is done to it (`HasDistinctEdges.afterEdits`).

What `connect` does to an automaton as a whole is said by `AddsEdge`: one edge
more, at the end of one list, and nothing else changed.
-/

namespace PatternAutomata

namespace Automaton

variable {A : Automaton} {s : Nat} {e : Edge}

/-- `B` is `A` with the edge `e` behind the edges of state `s`, and nothing else is
different. -/
structure AddsEdge (A : Automaton) (s : Nat) (e : Edge) (B : Automaton) : Prop where
  source : B.edgesFrom s = A.edgesFrom s ++ [e]
  others : ∀ t, t ≠ s → B.edgesFrom t = A.edgesFrom t
  edgeCount_eq : B.edgeCount = A.edgeCount + 1
  size_eq : B.size = A.size
  start_eq : B.start = A.start
  accept_eq : B.accept = A.accept

/-- An edge that is there is not added. -/
theorem connect_of_mem (hmem : e ∈ A.edgesFrom s) : A.connect s e = A := by
  rw [connect, if_pos (hasEdge_iff.mpr hmem)]

/-- Nor is one added to a state that does not exist. -/
theorem connect_of_size_le (hs : A.size ≤ s) : A.connect s e = A := by
  have houtside : A.edges.modify s (· ++ [e]) = A.edges := by
    apply Array.ext
    · exact Array.size_modify
    · intro i hi hi'
      have hne : s ≠ i := by
        simp only [size] at hs
        omega
      rw [Array.getElem_modify_of_ne hne]
  rw [connect, houtside]
  exact ite_self A

/-- Where the edit fails, `connect` does nothing either. -/
theorem afterEdit_connect (A : Automaton) (s : Nat) (e : Edge) :
    A.afterEdit (.connect s e) = A.connect s e := by
  by_cases hs : s < A.size
  · simp [afterEdit, Edit.apply, connect?, hs, Except.map]
  · simp [afterEdit, Edit.apply, connect?, hs, Except.map, connect_of_size_le (Nat.not_lt.mp hs)]

theorem afterEdit_bridge (A : Automaton) (s t : Nat) :
    A.afterEdit (.bridge s t) = A.bridge s t := by
  rw [bridge, ← afterEdit_connect]
  simp only [afterEdit, Edit.apply]
  cases A.connect? s ⟨none, t⟩ <;> rfl

/-- All edges, with those of one state in the middle, and what becomes of them when
that state gets one more. -/
theorem allEdges_connect (hs : s < A.size) (hnew : e ∉ A.edgesFrom s) :
    ∃ front back, A.allEdges = front ++ A.edgesFrom s ++ back ∧
      (A.connect s e).allEdges = front ++ (A.edgesFrom s ++ [e]) ++ back := by
  have hinside : s < A.edges.toList.length := hs
  have hhere : A.edgesFrom s = A.edges.toList[s] := edgesFrom_eq_getElem hs
  have hconnect : (A.connect s e).edges.toList = A.edges.toList.modify s (· ++ [e]) := by
    rw [connect, if_neg (mt hasEdge_iff.mp hnew), Array.toList_modify]
  have hsplit : A.edges.toList =
      A.edges.toList.take s ++ A.edges.toList[s] :: A.edges.toList.drop (s + 1) := by
    rw [← List.drop_eq_getElem_cons hinside, List.take_append_drop]
  refine ⟨(A.edges.toList.take s).flatten, (A.edges.toList.drop (s + 1)).flatten, ?_, ?_⟩
  · have hflat := congrArg List.flatten hsplit
    rw [List.flatten_append, List.flatten_cons] at hflat
    rw [allEdges, hhere, List.append_assoc]
    exact hflat
  · rw [allEdges, hconnect, hhere, List.modify_eq_take_cons_drop hinside, List.flatten_append,
      List.flatten_cons]
    exact (List.append_assoc _ _ _).symm

/-- A new edge is one more among all. -/
theorem allEdges_connect_perm (hs : s < A.size) (hnew : e ∉ A.edgesFrom s) :
    (A.connect s e).allEdges.Perm (e :: A.allEdges) := by
  obtain ⟨front, back, hbefore, hafter⟩ := allEdges_connect hs hnew
  have hmiddle : front ++ (A.edgesFrom s ++ [e]) ++ back =
      (front ++ A.edgesFrom s) ++ e :: back := by simp
  rw [hbefore, hafter, hmiddle]
  exact List.perm_middle

/-- **A new edge is added and nothing else is changed.** -/
theorem addsEdge_connect (hs : s < A.size) (hnew : e ∉ A.edgesFrom s) :
    A.AddsEdge s e (A.connect s e) where
  source := by rw [edgesFrom_connect, if_pos ⟨rfl, hs, hnew⟩]
  others t hts := by
    rw [edgesFrom_connect, if_neg]
    intro hadded
    exact hts hadded.1
  edgeCount_eq := (allEdges_connect_perm hs hnew).length_eq
  size_eq := size_connect A s e
  start_eq := start_connect A s e
  accept_eq := accept_connect A s e

/-- No state has the same edge twice. -/
def HasDistinctEdges (A : Automaton) : Prop :=
  ∀ s, (A.edgesFrom s).Nodup

theorem hasDistinctEdges_blank : blank.HasDistinctEdges := by
  intro s
  rw [edgesFrom_of_size_le (Nat.zero_le s)]
  exact List.nodup_nil

theorem hasDistinctEdges_ofEmptyWord : ofEmptyWord.HasDistinctEdges := by
  intro s
  cases s with
  | zero => exact List.nodup_nil
  | succ s =>
      rw [edgesFrom_of_size_le (Nat.succ_le_succ (Nat.zero_le s))]
      exact List.nodup_nil

namespace HasDistinctEdges

theorem addState (h : A.HasDistinctEdges) : A.addState.2.HasDistinctEdges := by
  intro s
  rw [edgesFrom_addState]
  exact h s

theorem addPair (h : A.HasDistinctEdges) : A.addPair.2.HasDistinctEdges := by
  intro s
  rw [edgesFrom_addPair]
  exact h s

/-- **One edge more keeps edges distinct**, since it is passed over if it is there. -/
theorem connect (h : A.HasDistinctEdges) (s : Nat) (e : Edge) :
    (A.connect s e).HasDistinctEdges := by
  intro t
  rw [edgesFrom_connect]
  by_cases hadded : t = s ∧ s < A.size ∧ e ∉ A.edgesFrom s
  · rw [if_pos hadded, List.nodup_append]
    refine ⟨h s, by simp, ?_⟩
    intro f hf g hg hfg
    rw [List.mem_singleton] at hg
    exact hadded.2.2 (hg ▸ hfg ▸ hf)
  · rw [if_neg hadded]
    exact h t

theorem bridge (h : A.HasDistinctEdges) (s t : Nat) : (A.bridge s t).HasDistinctEdges :=
  h.connect s ⟨none, t⟩

theorem literal (h : A.HasDistinctEdges) (c : Char) : (A.literal c).2.HasDistinctEdges :=
  h.addPair.connect _ _

theorem alternate (h : A.HasDistinctEdges) (lower upper : Block) :
    (A.alternate lower upper).2.HasDistinctEdges := by
  simp only [Automaton.alternate]
  apply bridge
  apply bridge
  apply bridge
  apply bridge
  exact h.addPair

theorem chain (h : A.HasDistinctEdges) (first second : Block) :
    (A.chain first second).2.HasDistinctEdges :=
  h.bridge _ _

theorem loop (h : A.HasDistinctEdges) (body : Block) : (A.loop body).2.HasDistinctEdges := by
  simp only [Automaton.loop]
  apply bridge
  apply bridge
  apply bridge
  apply bridge
  exact h.addPair

/-- Building a tree adds states and edges only, so it keeps edges distinct. -/
theorem build (h : A.HasDistinctEdges) (t : Tree) : (A.build t).2.HasDistinctEdges := by
  induction t generalizing A with
  | char c => exact h.literal c
  | union left right ihl ihr => exact (ihr (ihl h)).alternate _ _
  | concat left right ihl ihr => exact (ihr (ihl h)).chain _ _
  | star inner ih => exact (ih h).loop _
  | group inner ih => exact ih h

theorem foldl_copy {sweep : Sweep} (h : sweep.automaton.HasDistinctEdges) (s : Nat)
    (es : List Edge) : (es.foldl (Sweep.copy s) sweep).automaton.HasDistinctEdges := by
  induction es generalizing sweep with
  | nil => exact h
  | cons e rest ih =>
      apply ih
      exact h.connect s e

theorem treat {sweep : Sweep} (h : sweep.automaton.HasDistinctEdges) (s : Nat) :
    (sweep.treat s).automaton.HasDistinctEdges := by
  unfold Sweep.treat
  dsimp only
  split
  · exact h
  · have hfilled := h.foldl_copy s (sweep.automaton.copiesFor s
      (sweep.automaton.closure (sweep.automaton.successors none s)))
    split
    · exact hfilled.bridge _ _
    · exact hfilled

theorem foldl_treat {sweep : Sweep} (h : sweep.automaton.HasDistinctEdges) (states : List Nat) :
    (states.foldl Sweep.treat sweep).automaton.HasDistinctEdges := by
  induction states generalizing sweep with
  | nil => exact h
  | cons s rest ih =>
      apply ih
      exact h.treat s

theorem prune (h : A.HasDistinctEdges) : A.prune.HasDistinctEdges := by
  intro s
  rw [edgesFrom_prune]
  exact (h s).filter _

theorem eliminate (h : A.HasDistinctEdges) : A.eliminate.HasDistinctEdges := by
  have hbegin : Sweep.automaton ⟨A, 0⟩ |>.HasDistinctEdges := h
  have hswept : A.sweep.automaton.HasDistinctEdges := hbegin.foldl_treat (List.range A.size)
  exact hswept.prune

/-- **One edit keeps edges distinct.** -/
theorem afterEdit (h : A.HasDistinctEdges) (edit : Edit) : (A.afterEdit edit).HasDistinctEdges := by
  cases edit with
  | clear => exact hasDistinctEdges_blank
  | load tree =>
      cases tree with
      | none => exact hasDistinctEdges_ofEmptyWord
      | some t => exact hasDistinctEdges_blank.build t
  | addState => exact h.addState
  | addPair => exact h.addPair
  | connect source edge =>
      rw [afterEdit_connect]
      exact h.connect source edge
  | bridge source target =>
      rw [afterEdit_bridge]
      exact h.bridge source target
  | build tree => exact h.build tree
  | relocate start accept => exact h
  | eliminate => exact h.eliminate

/-- So does any number of them. -/
theorem afterEdits (h : A.HasDistinctEdges) (edits : List Edit) :
    (A.afterEdits edits).HasDistinctEdges := by
  induction edits generalizing A with
  | nil => exact h
  | cons edit rest ih => exact ih (h.afterEdit edit)

end HasDistinctEdges

/-- **No automaton ever holds an edge twice.**  Whatever edits have led to an
automaton from the blank one, no state of it has an edge twice.  So adding an edge
to a state that exists succeeds, and answers whether its end is not among the
successors under its label; if so, the edge is put behind those of its state and
nothing else is changed, and otherwise nothing is.  From a state that does not
exist no edge can be added, and nothing is changed either. -/
theorem edits_keep_edges_distinct {A : Automaton} (edits : List Edit)
    (hA : A = blank.afterEdits edits) :
    (∀ s, (A.edgesFrom s).Nodup) ∧
    (∀ s t label, s < A.size →
      (t ∉ A.successors label s →
        ∃ B, A.connect? s ⟨label, t⟩ = .ok (true, B) ∧ A.AddsEdge s ⟨label, t⟩ B) ∧
      (t ∈ A.successors label s → A.connect? s ⟨label, t⟩ = .ok (false, A))) ∧
    ∀ s, A.size ≤ s →
      (∀ e, A.connect? s e = .error ⟨A.size, s⟩) ∧
      (∀ e, A.afterEdit (.connect s e) = A) ∧ ∀ t, A.afterEdit (.bridge s t) = A := by
  refine ⟨?_, ?_, ?_⟩
  · rw [hA]
    exact hasDistinctEdges_blank.afterEdits edits
  · intro s t label hs
    rw [mem_successors]
    refine ⟨?_, ?_⟩
    · intro hnew
      refine ⟨A.connect s ⟨label, t⟩, ?_, addsEdge_connect hs hnew⟩
      have habsent : A.hasEdge s ⟨label, t⟩ = false := by
        rw [← Bool.not_eq_true, hasEdge_iff]
        exact hnew
      rw [connect?, if_pos hs, habsent]
      rfl
    · intro hmem
      rw [connect?, if_pos hs, hasEdge_iff.mpr hmem, connect_of_mem hmem]
      rfl
  · intro s hs
    refine ⟨?_, ?_, ?_⟩
    · intro e
      rw [connect?, if_neg (Nat.not_lt.mpr hs)]
    · intro e
      rw [afterEdit_connect, connect_of_size_le hs]
    · intro t
      rw [afterEdit_bridge, bridge, connect_of_size_le hs]

/-- Two states with an edge between them: the same edge is refused, a silent one is
added, and a third state has none. -/
theorem edits_keep_edges_distinct_pair :
    let A := blank.afterEdits [.addPair, .connect 0 ⟨some 'x', 1⟩]
    A.connect? 0 ⟨some 'x', 1⟩ = .ok (false, A) ∧
      (∃ B, A.connect? 0 ⟨none, 1⟩ = .ok (true, B) ∧ A.AddsEdge 0 ⟨none, 1⟩ B) ∧
      A.afterEdit (.connect 2 ⟨none, 0⟩) = A := by
  intro A
  obtain ⟨_, hinside, houtside⟩ :=
    edits_keep_edges_distinct [.addPair, .connect 0 ⟨some 'x', 1⟩] (rfl : A = _)
  exact ⟨(hinside 0 1 (some 'x') (by decide)).2 (by decide),
    (hinside 0 1 none (by decide)).1 (by decide), (houtside 2 (by decide)).2.1 ⟨none, 0⟩⟩

end Automaton

end PatternAutomata
