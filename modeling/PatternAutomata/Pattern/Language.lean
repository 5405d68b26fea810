import PatternAutomata.Pattern.Tree

/-!
# The language of a tree

`Tree.Matches t w` says that the word `w` belongs to the regular language of
`t`.  It is defined from the tree alone, without any automaton.
-/

namespace PatternAutomata

/-- The words of a tree's language: a literal is its own only word, a star takes
finitely many words one after another, and parentheses change nothing. -/
def Tree.Matches : Tree → List Char → Prop
  | .char c, w => w = [c]
  | .union left right, w => left.Matches w ∨ right.Matches w
  | .concat left right, w => ∃ u v, w = u ++ v ∧ left.Matches u ∧ right.Matches v
  | .star inner, w => ∃ pieces : List (List Char), w = pieces.flatten ∧
      ∀ piece ∈ pieces, inner.Matches piece
  | .group inner, w => inner.Matches w

end PatternAutomata
