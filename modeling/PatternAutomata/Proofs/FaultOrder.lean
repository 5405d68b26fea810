import PatternAutomata.Proofs.BranchProgress

/-!
# The order in which faults show

A character of a pattern is at fault or not depending on what stands in front of
it and behind (`fault_iff`), and it has one fault at most (`Fault.unique`).

Among the faults of some neighbouring characters one shows first (`Leads`), unless
these are all in order (`Faultless`).  How the two are put together follows from
where faults show.  A fault never shows before its character is met, so those of a
group come before all that follows the group (`Leads.extend`).  A `|` shows its
fault at the end of the scope, when everything behind it has been met, so it comes
last (`Leads.before_bar`).
-/

namespace PatternAutomata

section Faults

variable {w done rest : List Char} {c : Char} {flaw : Flaw} {defect : Defect}
  {low mid high shown : Nat}

/-- A text is split in one way before its character at an index. -/
theorem split_inj {front back : List Char} {d : Char}
    (hsplit : done ++ c :: rest = front ++ d :: back) (hlength : done.length = front.length) :
    done = front ∧ c = d ∧ rest = back := by
  obtain ⟨hdone, hrest⟩ := List.append_inj hsplit hlength
  exact ⟨hdone, List.cons.inj hrest⟩

/-- Whether a character is at fault is seen from what stands in front of it and behind. -/
theorem fault_iff :
    Fault (done ++ c :: rest) ⟨flaw, done.length⟩ shown ↔
      c = '(' ∧ visible rest = rest ∧ flaw = .unmatchedParenthesis ∧ shown = done.length ∨
      c = '*' ∧ (BeforeBranch done ∨ ∃ front unit, done = front ++ unit ++ ['*'] ∧
          BeforeBranch front ∧ Repeatable unit) ∧
        flaw = .nothingToRepeat ∧ shown = done.length ∨
      c = '(' ∧ (∃ back, rest = ')' :: back) ∧
        flaw = .emptyExpression ∧ shown = done.length + 1 ∨
      c = '|' ∧ (BeforeBranch done ∨ BehindBranch rest) ∧
        flaw = .emptyExpression ∧ shown = done.length + 1 + (visible rest).length := by
  constructor
  · intro hfault
    generalize hw : done ++ c :: rest = w at hfault
    generalize hd : (⟨flaw, done.length⟩ : Defect) = defect at hfault
    cases hfault with
    | unclosed hhere hnever =>
        obtain ⟨rfl, hlength⟩ := Defect.mk.inj hd
        obtain ⟨rfl, rfl, rfl⟩ := split_inj (hw.trans hhere) hlength
        exact Or.inl ⟨rfl, hnever, rfl, rfl⟩
    | leadingStar hhere hbegins =>
        obtain ⟨rfl, hlength⟩ := Defect.mk.inj hd
        obtain ⟨rfl, rfl, rfl⟩ := split_inj (hw.trans hhere) hlength
        exact Or.inr (Or.inl ⟨rfl, Or.inl hbegins, rfl, rfl⟩)
    | @secondStar front unit back hhere hbegins hsingle =>
        obtain ⟨rfl, hlength⟩ := Defect.mk.inj hd
        rw [List.append_cons] at hhere
        have hstar : done.length = (front ++ unit ++ ['*']).length := by
          simpa [Nat.add_assoc] using hlength
        obtain ⟨rfl, rfl, rfl⟩ := split_inj (hw.trans hhere) hstar
        exact Or.inr (Or.inl ⟨rfl, Or.inr ⟨front, unit, rfl, hbegins, hsingle⟩, rfl,
          by simp [Nat.add_assoc]⟩)
    | emptyGroup hhere =>
        obtain ⟨rfl, hlength⟩ := Defect.mk.inj hd
        obtain ⟨rfl, rfl, rfl⟩ := split_inj (hw.trans hhere) hlength
        exact Or.inr (Or.inr (Or.inl ⟨rfl, ⟨_, rfl⟩, rfl, rfl⟩))
    | emptyAlternative hhere hmissing =>
        obtain ⟨rfl, hlength⟩ := Defect.mk.inj hd
        obtain ⟨rfl, rfl, rfl⟩ := split_inj (hw.trans hhere) hlength
        exact Or.inr (Or.inr (Or.inr ⟨rfl, hmissing, rfl, rfl⟩))
  · intro hhere
    rcases hhere with ⟨rfl, hnever, rfl, rfl⟩ | ⟨rfl, hbegins, rfl, rfl⟩ |
      ⟨rfl, ⟨back, rfl⟩, rfl, rfl⟩ | ⟨rfl, hmissing, rfl, rfl⟩
    · exact .unclosed rfl hnever
    · rcases hbegins with hbegins | ⟨front, unit, rfl, hfront, hunit⟩
      · exact .leadingStar rfl hbegins
      · have hsecond := Fault.secondStar (List.append_cons (front ++ unit) '*' ('*' :: rest)).symm
          hfront hunit
        simpa [Nat.add_assoc] using hsecond
    · exact .emptyGroup rfl
    · exact .emptyAlternative rfl hmissing

/-- Only parentheses that open, bars and stars can be at fault. -/
theorem not_fault_of_plain (hopen : c ≠ '(') (hbar : c ≠ '|') (hstar : c ≠ '*') :
    ¬ Fault (done ++ c :: rest) ⟨flaw, done.length⟩ shown := by
  simp [fault_iff, hopen, hbar, hstar]

/-- A fault shows at its own character or behind it. -/
theorem Fault.position_le (h : Fault w defect shown) : defect.position ≤ shown := by
  cases h with
  | unclosed => exact Nat.le_refl _
  | leadingStar => exact Nat.le_refl _
  | secondStar => exact Nat.le_refl _
  | emptyGroup => exact Nat.le_succ _
  | emptyAlternative =>
      dsimp only
      omega

/-- A fault is found at a character of the text. -/
theorem Fault.exists_split (h : Fault w defect shown) :
    ∃ done c rest, w = done ++ c :: rest ∧ defect.position = done.length := by
  cases h with
  | unclosed hhere => exact ⟨_, _, _, hhere, rfl⟩
  | leadingStar hhere => exact ⟨_, _, _, hhere, rfl⟩
  | secondStar hhere =>
      rw [List.append_cons] at hhere
      exact ⟨_, _, _, hhere, by simp [Nat.add_assoc]⟩
  | emptyGroup hhere => exact ⟨_, _, _, hhere, rfl⟩
  | emptyAlternative hhere => exact ⟨_, _, _, hhere, rfl⟩

theorem Fault.position_lt_length (h : Fault w defect shown) : defect.position < w.length := by
  obtain ⟨done, c, rest, rfl, hposition⟩ := h.exists_split
  rw [hposition, List.length_append, List.length_cons]
  omega

/-- What is wrong with a character follows from where that shows. -/
theorem Fault.unique {other : Defect} (h : Fault w defect shown) (hother : Fault w other shown)
    (hposition : defect.position = other.position) : defect = other := by
  obtain ⟨done, c, rest, rfl, hsplit⟩ := h.exists_split
  obtain ⟨flaw, position⟩ := defect
  obtain ⟨flaw', position'⟩ := other
  dsimp only at hposition hsplit
  subst hposition hsplit
  rw [fault_iff] at h hother
  grind

/-- There is one fault that shows first. -/
theorem FirstFault.unique {other : Defect} (h : FirstFault w defect) (hother : FirstFault w other) :
    defect = other := by
  obtain ⟨shown, hfault, hfirst⟩ := h
  obtain ⟨later, hfault', hfirst'⟩ := hother
  have hforth := hfirst other later hfault'
  have hback := hfirst' defect shown hfault
  have hshown : shown = later := by omega
  subst hshown
  exact hfault.unique hfault' (by omega)

/-- No character from `low` up to `high` is at fault. -/
def Faultless (w : List Char) (low high : Nat) : Prop :=
  ∀ defect shown, Fault w defect shown → low ≤ defect.position → high ≤ defect.position

/-- Of the faults of the characters from `low` up to `high`, the given one shows first, and
not behind `high`; of those that show together, it is the rightmost. -/
structure Leads (w : List Char) (low high : Nat) (defect : Defect) : Prop where
  low_le : low ≤ defect.position
  shows : ∃ shown, Fault w defect shown ∧ shown ≤ high ∧
    ∀ other later, Fault w other later → low ≤ other.position → other.position < high →
      shown < later ∨ shown = later ∧ other.position ≤ defect.position

theorem Faultless.of_here (hhere : ∀ flaw shown, ¬ Fault w ⟨flaw, low⟩ shown) :
    Faultless w low (low + 1) := by
  intro ⟨flaw, position⟩ shown hfault hlow
  by_cases heq : position = low
  · exact absurd (heq ▸ hfault) (hhere flaw shown)
  · dsimp only at hlow ⊢
    omega

theorem Faultless.append (hfirst : Faultless w low mid) (hsecond : Faultless w mid high) :
    Faultless w low high := by
  intro defect shown hfault hlow
  exact hsecond defect shown hfault (hfirst defect shown hfault hlow)

namespace Leads

/-- A fault that shows at its own character shows first. -/
theorem here (hfault : Fault w ⟨flaw, low⟩ low) (hhigh : low ≤ high) :
    Leads w low high ⟨flaw, low⟩ where
  low_le := Nat.le_refl low
  shows := by
    refine ⟨low, hfault, hhigh, ?_⟩
    intro other later hother hlow _
    have hlater := hother.position_le
    dsimp only
    omega

/-- A fault of the first character shows first if it shows before those behind it. -/
theorem of_later (hfault : Fault w ⟨flaw, low⟩ shown) (hshown : shown ≤ high)
    (hhere : ∀ flaw later, Fault w ⟨flaw, low⟩ later → later = shown)
    (hbehind : ∀ other later, Fault w other later → low < other.position →
      other.position < high → shown < later) :
    Leads w low high ⟨flaw, low⟩ where
  low_le := Nat.le_refl low
  shows := by
    refine ⟨shown, hfault, hshown, ?_⟩
    intro ⟨flaw', position⟩ later hother hlow hhigh
    by_cases heq : position = low
    · subst heq
      exact Or.inr ⟨(hhere flaw' later hother).symm, Nat.le_refl _⟩
    · exact Or.inl (hbehind _ later hother (Nat.lt_of_le_of_ne hlow (Ne.symm heq)) hhigh)

theorem behind (h : Leads w mid high defect) (hfree : Faultless w low mid) (hmid : low ≤ mid) :
    Leads w low high defect where
  low_le := Nat.le_trans hmid h.low_le
  shows := by
    obtain ⟨shown, hfault, hshown, hfirst⟩ := h.shows
    refine ⟨shown, hfault, hshown, ?_⟩
    intro other later hother hlow hhigh
    exact hfirst other later hother (hfree other later hother hlow) hhigh

/-- **What shows by the end of a group comes before all that follows the group.** -/
theorem extend (h : Leads w low mid defect) (hclose : Faultless w mid (mid + 1))
    (hmid : mid ≤ high) : Leads w low high defect where
  low_le := h.low_le
  shows := by
    obtain ⟨shown, hfault, hshown, hfirst⟩ := h.shows
    refine ⟨shown, hfault, Nat.le_trans hshown hmid, ?_⟩
    intro other later hother hlow _
    by_cases hinside : other.position < mid
    · exact hfirst other later hother hlow hinside
    · have hpast := hclose other later hother (Nat.not_lt.mp hinside)
      have hlater := hother.position_le
      exact Or.inl (by omega)

/-- **What is behind a `|` comes before its own fault**, which shows at the end of the
scope. -/
theorem before_bar (h : Leads w (low + 1) high defect)
    (hbar : ∀ flaw later, Fault w ⟨flaw, low⟩ later → later = high) :
    Leads w low high defect where
  low_le := Nat.le_of_succ_le h.low_le
  shows := by
    obtain ⟨shown, hfault, hshown, hfirst⟩ := h.shows
    refine ⟨shown, hfault, hshown, ?_⟩
    intro ⟨flaw, position⟩ later hother hlow hhigh
    by_cases heq : position = low
    · subst heq
      have hlater := hbar flaw later hother
      have hright := h.low_le
      dsimp only
      omega
    · exact hfirst _ later hother (Nat.lt_of_le_of_ne hlow (Ne.symm heq)) hhigh

end Leads

end Faults

end PatternAutomata
