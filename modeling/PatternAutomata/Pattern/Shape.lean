import PatternAutomata.Pattern.Tree

/-!
# The shapes in which a pattern can be read

The grammar of patterns has four ranks.  A unit is a literal or a group; a
repeated part is a unit with any number of stars; a branch is a unit with at
most one star, followed by repeated parts that are joined from the left; an
expression is a branch, or a branch and a further expression with `|` between
them.

`Tree.Shaped` says which trees have the shape of a rank.  The first part of a
branch may carry one star only, since a second star right behind a branch that
is a single starred unit has nothing left to repeat.
-/

namespace PatternAutomata

/-- Whether a character has a meaning of its own in a pattern. -/
def isReserved (c : Char) : Bool :=
  c == '(' || c == ')' || c == '|' || c == '*'

theorem isReserved_eq_false_iff {c : Char} :
    isReserved c = false ↔ c ≠ '(' ∧ c ≠ ')' ∧ c ≠ '|' ∧ c ≠ '*' := by
  simp [isReserved, and_assoc]

/-- No literal character of a tree has a meaning of its own in a pattern. -/
def Tree.IsPlain (t : Tree) : Prop :=
  ∀ c ∈ t.letters, isReserved c = false

/-- The ranks of the grammar, from the tightest to the loosest. -/
inductive Rank where
  | unit
  | repeated
  | branch
  | expression
  deriving DecidableEq, Repr

/-- The trees of each rank. -/
inductive Tree.Shaped : Rank → Tree → Prop
  | char {c : Char} (hliteral : isReserved c = false) : Shaped .unit (.char c)
  | group {t : Tree} (inner : Shaped .expression t) : Shaped .unit (.group t)
  | ofUnit {t : Tree} (single : Shaped .unit t) : Shaped .repeated t
  | again {t : Tree} (inner : Shaped .repeated t) : Shaped .repeated (.star t)
  | first {t : Tree} (single : Shaped .unit t) : Shaped .branch t
  | firstStar {t : Tree} (single : Shaped .unit t) : Shaped .branch (.star t)
  | concat {left right : Tree} (front : Shaped .branch left)
      (last : Shaped .repeated right) : Shaped .branch (.concat left right)
  | ofBranch {t : Tree} (only : Shaped .branch t) : Shaped .expression t
  | union {left right : Tree} (front : Shaped .branch left)
      (others : Shaped .expression right) : Shaped .expression (.union left right)

end PatternAutomata
