import PatternAutomata.Proofs.PathSimulation

/-!
# What a run records

The states that are active after a text are the ends of the paths that spell it
and are empty or end with a consuming edge (`mem_activeAfter`): silent edges
behind the last character are followed only before the next one, or at the end.

A run records a step for one character after another, with the number of states
that are active behind it, and goes on as long as there are any.  So its steps
are the beginning of what a text would show if it were followed to its end
(`steps_runFrom_isPrefix`), and a step is recorded exactly if no earlier one left
nothing active (`lt_length_steps_runFrom`).
-/

namespace PatternAutomata

namespace Automaton

variable {A : Automaton} {active : StateSet} {c : Char} {text : List Char} {k s t : Nat}

theorem arrives_nil_iff : A.Arrives s [] t ↔ t = s := by
  constructor
  · intro harrive
    generalize hw : ([] : List Char) = w at harrive
    cases harrive with
    | start => rfl
    | consume _ _ => simp at hw
  · rintro rfl
    exact .start

theorem arrives_concat_iff :
    A.Arrives s (text ++ [c]) t ↔
      ∃ u, A.Path s text u ∧ ⟨some c, t⟩ ∈ A.edgesFrom u := by
  constructor
  · intro harrive
    generalize hw : text ++ [c] = w at harrive
    cases harrive with
    | start => simp at hw
    | consume hfront hedge =>
        obtain ⟨rfl, hc⟩ := List.append_inj' hw rfl
        obtain rfl : c = _ := by simpa using hc
        exact ⟨_, hfront, hedge⟩
  · intro hparts
    obtain ⟨u, hfront, hedge⟩ := hparts
    exact .consume hfront hedge

/-- One more character takes one more step from the states active before it. -/
theorem activeAfter_concat (A : Automaton) (active : StateSet) (text : List Char) (c : Char) :
    A.activeAfter active (text ++ [c]) = A.advance (A.activeAfter active text) c := by
  rw [activeAfter, List.foldl_append]
  rfl

/-- **Active states are ends of paths.**  A state is active after a text exactly
if a path to it spells the text and is empty or ends with a consuming edge. -/
theorem mem_activeAfter :
    t ∈ A.activeAfter active text ↔ ∃ s ∈ active, A.Arrives s text t := by
  -- The last character decides, so the text is taken apart at its end.
  rcases List.eq_nil_or_concat text with rfl | ⟨front, c, rfl⟩
  · simp [activeAfter, arrives_nil_iff]
  · rw [List.concat_eq_append, activeAfter_concat, advance, mem_move]
    simp only [mem_closure_activeAfter, arrives_concat_iff]
    constructor
    · intro hmove
      obtain ⟨u, ⟨s, hs, hpath⟩, hedge⟩ := hmove
      exact ⟨s, hs, u, hpath, hedge⟩
    · intro harrive
      obtain ⟨s, hs, u, hpath, hedge⟩ := harrive
      exact ⟨u, ⟨s, hs, hpath⟩, hedge⟩

/-- The steps of a run are those the whole text would take, up to some character. -/
theorem steps_runFrom_isPrefix (A : Automaton) (active : StateSet) (position : Nat)
    (text : List Char) :
    (A.runFrom active position text).steps <+: text.mapIdx fun k c =>
      ⟨position + k, c, (A.activeAfter active (text.take (k + 1))).size⟩ := by
  induction text generalizing active position with
  | nil => exact List.nil_prefix
  | cons c rest ih =>
      rw [List.mapIdx_cons]
      by_cases hempty : (A.advance active c).isEmpty = true
      · simp only [runFrom, hempty, ↓reduceIte]
        exact (List.prefix_cons_inj _).mpr List.nil_prefix
      · simp only [runFrom, hempty, Bool.false_eq_true, ↓reduceIte]
        apply (List.prefix_cons_inj _).mpr
        have hrest := ih (A.advance active c) (position + 1)
        simpa only [List.take_succ_cons, activeAfter_cons, Nat.add_right_comm position 1,
          Nat.add_assoc position] using hrest

/-- Each of the first `k` characters of a text leaves states active. -/
def Survives (A : Automaton) (active : StateSet) (text : List Char) (k : Nat) : Prop :=
  ∀ j, 0 < j → j ≤ k → (A.activeAfter active (text.take j)).isEmpty = false

theorem survives_zero (A : Automaton) (active : StateSet) (text : List Char) :
    A.Survives active text 0 := by
  intro j hpos hle
  omega

/-- To survive more characters is to survive the first and then the others. -/
theorem survives_cons_succ :
    A.Survives active (c :: text) (k + 1) ↔
      (A.advance active c).isEmpty = false ∧ A.Survives (A.advance active c) text k := by
  constructor
  · intro hsurvives
    refine ⟨hsurvives 1 Nat.one_pos (Nat.le_add_left 1 k), ?_⟩
    intro j hpos hle
    exact hsurvives (j + 1) (Nat.succ_pos j) (Nat.succ_le_succ hle)
  · intro ⟨hfirst, hrest⟩ j hpos hle
    obtain ⟨i, rfl⟩ := Nat.exists_eq_add_one.mpr hpos
    cases i with
    | zero => exact hfirst
    | succ i => exact hrest (i + 1) (Nat.succ_pos i) (Nat.le_of_succ_le_succ hle)

/-- **A step is recorded while states are active.**  A run comes to the character
behind `k` others exactly if it survives these. -/
theorem lt_length_steps_runFrom {position : Nat} :
    k < (A.runFrom active position text).steps.length ↔
      k < text.length ∧ A.Survives active text k := by
  induction text generalizing active position k with
  | nil => simp [runFrom]
  | cons c rest ih =>
      cases k with
      | zero =>
          have hstep : 0 < (A.runFrom active position (c :: rest)).steps.length := by
            simp only [runFrom]
            split <;> exact Nat.succ_pos _
          exact iff_of_true hstep ⟨Nat.succ_pos _, survives_zero A active _⟩
      | succ k =>
          rw [survives_cons_succ]
          by_cases hempty : (A.advance active c).isEmpty = true
          · simp [runFrom, hempty]
          · simp [runFrom, hempty, ih]

theorem lt_length_steps_run :
    k < (A.run text).steps.length ↔ k < text.length ∧ A.Survives A.initial text k :=
  lt_length_steps_runFrom

/-- A run takes `k` steps if it survives every smaller number of characters, and
either does not survive these or has no more to read. -/
theorem length_steps_run (hle : k ≤ text.length)
    (hsurvives : ∀ i < k, A.Survives A.initial text i)
    (hstop : k < text.length → ¬ A.Survives A.initial text k) :
    (A.run text).steps.length = k := by
  apply Nat.le_antisymm
  · apply Nat.le_of_not_lt
    intro hlonger
    obtain ⟨hmore, hlast⟩ := lt_length_steps_run.mp hlonger
    exact hstop hmore hlast
  · apply Nat.le_of_not_lt
    intro hshorter
    have hnext := lt_length_steps_run.mpr
      ⟨Nat.lt_of_lt_of_le hshorter hle, hsurvives _ hshorter⟩
    exact Nat.lt_irrefl _ hnext

/-- **A run decides whether a path spells the text.**  After each number of
characters the active states are the ends of the paths from the start that spell
these and are empty or end with a consuming edge.  The steps of the run show
their numbers for as long as there are any, and stopping there comes to the
verdict of following the text to its end. -/
theorem run_decides_paths (A : Automaton) (text : List Char) :
    (A.accepts text = true ↔ A.Path A.start text A.accept) ∧
    (∀ k t, t ∈ A.activeAfter A.initial (text.take k) ↔
      A.Arrives A.start (text.take k) t) ∧
    (A.run text).steps <+: text.mapIdx (fun k c =>
      ⟨k, c, (A.activeAfter A.initial (text.take (k + 1))).size⟩) ∧
    (∀ k, k < (A.run text).steps.length ↔ k < text.length ∧ A.Survives A.initial text k) ∧
    A.accepts text = A.isAccepting (A.activeAfter A.initial text) := by
  refine ⟨accepts_iff_path, ?_, ?_, ?_, ?_⟩
  · intro k t
    rw [mem_activeAfter]
    simp
  · have hsteps := steps_runFrom_isPrefix A A.initial 0 text
    simp only [Nat.zero_add] at hsteps
    exact hsteps
  · intro k
    exact lt_length_steps_run
  · exact accepts_eq_isAccepting A text

end Automaton

end PatternAutomata
