import PatternAutomata.Proofs.StretchReading

/-!
# A scope is read as a pattern of its own

The reading of a scope moves the cursor of the whole pattern up to the scope's
end, and never looks beyond.  What comes of it is what would come of the scope
cut out and read by itself (`cutOut`): the same tree, with the cursor at the end
of the scope, or the same flaw at the same character (`outcome_within`).

The content of a group is such a scope, from behind the parenthesis up to its
closer (`outcome_group`).
-/

namespace PatternAutomata

/-- The characters of a pattern from `a` up to `b`, as a pattern. -/
def cutOut (pattern : String) (a b : Nat) : String :=
  String.ofList (stretch pattern.toList.toArray a b)

section Scope

variable {pattern : String} {a b : Nat}

/-- Cutting out a scope and reading it is reading its stretch by itself. -/
theorem ofPattern_cutOut (pattern : String) (a b : Nat) :
    Tree.ofPattern (cutOut pattern a b) =
      match (Excerpt.read counted none (stretch pattern.toList.toArray a b)).outcome with
      | .ok tree => .ok tree
      | .error defect => .error ⟨defect, cutOut pattern a b⟩ := by
  have hread := Tree.ofPattern_eq (cutOut pattern a b)
  rw [cutOut, String.toList_ofList] at hread
  exact hread

/-- **A scope is read as it would be by itself**, up to its end. -/
theorem outcome_within (hab : a ≤ b) (hb : b ≤ pattern.toList.toArray.size) :
    (Reading.within pattern.toList.toArray b hb a none).outcome =
      match Tree.ofPattern (cutOut pattern a b) with
      | .ok tree => .ok (tree, b)
      | .error e => .error ⟨e.flaw, a + e.position⟩ := by
  rw [Excerpt.within_eq_place _ b hb a none hab, ofPattern_cutOut, Excerpt.place]
  cases (Excerpt.read counted none (stretch pattern.toList.toArray a b)).outcome with
  | error defect => rfl
  | ok tree => rfl

/-- So is the content of a group, and what follows the group is read with the group behind
the branch. -/
theorem outcome_group {close : Nat} {hbetween : a < close ∧ close < b} {branch : Option Tree}
    (hb : b ≤ pattern.toList.toArray.size) (ha : a < b)
    (hopen : pattern.toList.toArray[a] = '(')
    (hfound : closer? pattern.toList.toArray b hb a (a + 1) (Nat.lt_succ_self a) 1 =
      some ⟨close, hbetween⟩) :
    (Reading.within pattern.toList.toArray b hb a branch).outcome =
      match Tree.ofPattern (cutOut pattern (a + 1) close) with
      | .error e => .error ⟨e.flaw, a + 1 + e.position⟩
      | .ok none => .error ⟨.emptyExpression, a⟩
      | .ok (some inner) =>
        (Reading.within pattern.toList.toArray b hb (close + 1)
          (some (Tree.append branch (.group inner)))).outcome := by
  have hclose : close ≤ pattern.toList.toArray.size := Nat.le_trans (Nat.le_of_lt hbetween.2) hb
  have hcontent : (Reading.within pattern.toList.toArray close hclose (a + 1) none).outcome = _ :=
    outcome_within hbetween.1 hclose
  rw [Reading.within.eq_def, dif_pos ha, if_pos hopen, hfound]
  dsimp only
  generalize Reading.within pattern.toList.toArray close hclose (a + 1) none = content
    at hcontent ⊢
  obtain ⟨strays, outcome⟩ := content
  cases hread : Tree.ofPattern (cutOut pattern (a + 1) close) with
  | error e =>
      rw [hread] at hcontent
      cases hcontent
      rfl
  | ok tree =>
      rw [hread] at hcontent
      cases hcontent
      cases tree with
      | none => rfl
      | some inner => rfl

/-- **The cursor reads a scope as the pattern it would be by itself.**  For every scope of a
pattern the tree, or its absence, is that of the scope cut out, and the cursor is left at
the scope's end; or the flaw is that of the scope cut out, at the same character, and is
reported with the whole pattern.  In particular the content of a group is read so. -/
theorem scope_reads_as_pattern (pattern : String) (a b : Nat) (hab : a ≤ b)
    (hb : b ≤ pattern.toList.toArray.size) :
    ((Reading.within pattern.toList.toArray b hb a none).outcome =
      match Tree.ofPattern (cutOut pattern a b) with
      | .ok tree => .ok (tree, b)
      | .error e => .error ⟨e.flaw, a + e.position⟩) ∧
    ((Reading.within pattern.toList.toArray b hb a none).result pattern =
      match Tree.ofPattern (cutOut pattern a b) with
      | .ok tree => .ok tree
      | .error e => .error ⟨⟨e.flaw, a + e.position⟩, pattern⟩) ∧
    ∀ (branch : Option Tree) (close : Nat) (hbetween : a < close ∧ close < b) (ha : a < b),
      pattern.toList.toArray[a] = '(' →
      closer? pattern.toList.toArray b hb a (a + 1) (Nat.lt_succ_self a) 1 =
        some ⟨close, hbetween⟩ →
      (Reading.within pattern.toList.toArray b hb a branch).outcome =
        match Tree.ofPattern (cutOut pattern (a + 1) close) with
        | .error e => .error ⟨e.flaw, a + 1 + e.position⟩
        | .ok none => .error ⟨.emptyExpression, a⟩
        | .ok (some inner) =>
          (Reading.within pattern.toList.toArray b hb (close + 1)
            (some (Tree.append branch (.group inner)))).outcome := by
  have hscope := outcome_within hab hb
  refine ⟨hscope, ?_, ?_⟩
  · rw [Reading.result, hscope]
    cases Tree.ofPattern (cutOut pattern a b) with
    | error e => rfl
    | ok tree => rfl
  · intro branch close hbetween ha hopen hfound
    exact outcome_group hb ha hopen hfound

/-- A group with an empty alternative, between two literals: its content and the group. -/
theorem scope_reads_as_pattern_group :
    let pattern := "x(a|)y"
    (Reading.within pattern.toList.toArray 4 (by decide) 2 none).result pattern =
        .error ⟨⟨.emptyExpression, 3⟩, pattern⟩ ∧
      (Reading.within pattern.toList.toArray 6 (by decide) 1 (some (.char 'x'))).outcome =
        .error ⟨.emptyExpression, 3⟩ := by
  intro pattern
  have hcontent : Tree.ofPattern (cutOut pattern 2 4) = .error ⟨⟨.emptyExpression, 1⟩, "a|"⟩ := by
    have hcut : cutOut pattern 2 4 = String.ofList ['a', '|'] := by decide
    have hread : (Excerpt.read counted none ['a', '|']).outcome = .error ⟨.emptyExpression, 1⟩ := by
      rw [Excerpt.read_char (by decide) (by decide) (by decide) (by decide), Excerpt.read_bar,
        Excerpt.read_nil]
      rfl
    rw [hcut, Tree.ofPattern_eq_error_iff, String.toList_ofList]
    exact ⟨hread, by decide⟩
  obtain ⟨-, hresult, -⟩ := scope_reads_as_pattern pattern 2 4 (by decide) (by decide)
  obtain ⟨-, -, hgroup⟩ := scope_reads_as_pattern pattern 1 6 (by decide) (by decide)
  have hread := hgroup (some (.char 'x')) 4 (by decide) (by decide) (by decide) (by decide +kernel)
  rw [hcontent] at hresult hread
  exact ⟨hresult, hread⟩

end Scope

end PatternAutomata
