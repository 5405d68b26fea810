import PatternAutomata.Pattern.Tree

/-!
# Agreement is equality without parentheses

Trees are compared from their roots, and parentheses are taken off on the way: on both
sides where both have them, else on one.  The result does not show this order.  Two trees
agree exactly if they are the same tree once all parentheses are gone
(`agrees_iff_erase_eq`), and from that agreement inherits what equality has: it is an
equivalence, and trees built alike from parts that agree agree themselves.

Each comparison leads to comparisons of trees of which at least one is less high.  So a
comparison that is told how deep it may go has an answer as soon as it may go as deep as
both trees together are high (`agreesWithin_eq`).
-/

namespace PatternAutomata.Tree

/-- The number of nodes on the longest way down. -/
def height : Tree → Nat
  | char _ => 1
  | union left right => max left.height right.height + 1
  | concat left right => max left.height right.height + 1
  | star inner => inner.height + 1
  | group inner => inner.height + 1

/-- The comparison of two trees that may go only so deep, without an answer beyond. -/
def agreesWithin : Nat → Tree → Tree → Option Bool
  | 0, _, _ => none
  | depth + 1, group a, group b => agreesWithin depth a b
  | depth + 1, group a, t => agreesWithin depth a t
  | depth + 1, s, group b => agreesWithin depth s b
  | _ + 1, char c, char d => some (c == d)
  | depth + 1, union l₁ r₁, union l₂ r₂ => do
    if ← agreesWithin depth l₁ l₂ then agreesWithin depth r₁ r₂ else some false
  | depth + 1, concat l₁ r₁, concat l₂ r₂ => do
    if ← agreesWithin depth l₁ l₂ then agreesWithin depth r₁ r₂ else some false
  | depth + 1, star a, star b => agreesWithin depth a b
  | _ + 1, _, _ => some false

theorem height_pos (t : Tree) : 0 < t.height := by
  cases t <;> exact Nat.succ_pos _

/-- **A comparison that may go as deep as both trees together are high has an answer**, and
it is whether they agree. -/
theorem agreesWithin_eq (depth : Nat) (s t : Tree) (hdepth : s.height + t.height ≤ depth) :
    agreesWithin depth s t = some (s.agrees t) := by
  induction depth generalizing s t with
  | zero =>
      have hs := height_pos s
      omega
  | succ depth ih =>
      fun_cases agrees s t with
      | case1 a b =>
          simp only [height] at hdepth
          rw [agreesWithin, ih a b (by omega)]
      | case2 a t hungrouped =>
          simp only [height] at hdepth
          rw [agreesWithin, ih a t (by omega)]
          exact hungrouped
      | case3 s b hungrouped =>
          simp only [height] at hdepth
          rw [agreesWithin, ih s b (by omega)]
          exact hungrouped
      | case4 c d => rw [agreesWithin]
      | case5 l₁ r₁ l₂ r₂ =>
          simp only [height] at hdepth
          rw [agreesWithin, ih l₁ l₂ (by omega), ih r₁ r₂ (by omega)]
          cases agrees l₁ l₂ <;> rfl
      | case6 l₁ r₁ l₂ r₂ =>
          simp only [height] at hdepth
          rw [agreesWithin, ih l₁ l₂ (by omega), ih r₁ r₂ (by omega)]
          cases agrees l₁ l₂ <;> rfl
      | case7 a b =>
          simp only [height] at hdepth
          rw [agreesWithin, ih a b (by omega)]
      | case8 s t =>
          rw [agreesWithin]
          all_goals assumption

theorem agrees_equivalence : Equivalence fun s t : Tree => s.agrees t = true where
  refl s := (agrees_iff_erase_eq s s).mpr rfl
  symm h := (agrees_iff_erase_eq _ _).mpr ((agrees_iff_erase_eq _ _).mp h).symm
  trans h h' :=
    (agrees_iff_erase_eq _ _).mpr
      (((agrees_iff_erase_eq _ _).mp h).trans ((agrees_iff_erase_eq _ _).mp h'))

/-- **Agreement is equality of the trees without their parentheses.**  So it is an
equivalence, and whatever is built alike from parts that agree agrees.  To find out whether
two trees agree one never has to go deeper than both together are high, whatever
parentheses there are on either side. -/
theorem agreement_is_equality_without_parentheses :
    (∀ s t : Tree, s.agrees t = true ↔ s.erase = t.erase) ∧
    (Equivalence fun s t : Tree => s.agrees t = true) ∧
    (∀ s s' t t' : Tree, s.agrees s' = true → t.agrees t' = true →
      (union s t).agrees (union s' t') = true ∧ (concat s t).agrees (concat s' t') = true ∧
        (star s).agrees (star s') = true ∧ (group s).agrees (group s') = true) ∧
    ∀ (s t : Tree) (depth : Nat), s.height + t.height ≤ depth →
      agreesWithin depth s t = some (s.agrees t) := by
  refine ⟨agrees_iff_erase_eq, agrees_equivalence, ?_, fun s t depth => agreesWithin_eq depth s t⟩
  intro s s' t t' hs ht
  rw [agrees_iff_erase_eq] at hs ht
  simp only [agrees_iff_erase_eq, erase, hs, ht, and_self]

/-- Parentheses on the left only at one place, and on the right only at another. -/
theorem agreement_is_equality_without_parentheses_apart :
    let s : Tree := .concat (.group (.group (.char 'a'))) (.star (.char 'b'))
    let t : Tree := .group (.concat (.char 'a') (.star (.group (.char 'b'))))
    s.agrees t = true ∧ (star s).agrees (star t) = true ∧ s.height + t.height ≤ 9 ∧
      agreesWithin 9 s t = some true := by
  intro s t
  obtain ⟨herase, -, hcongr, hanswer⟩ := agreement_is_equality_without_parentheses
  have hagree : s.agrees t = true := (herase s t).mpr rfl
  refine ⟨hagree, (hcongr s t s t hagree hagree).2.2.1, by decide, ?_⟩
  rw [hanswer s t 9 (by decide), hagree]

end PatternAutomata.Tree
