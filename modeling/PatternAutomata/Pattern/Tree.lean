/-!
# Syntax trees of patterns

A pattern is written with literal characters, `|` between alternatives, `*`
behind what is repeated, and parentheses.  This file holds the tree of such a
pattern, its written form `Tree.spelling`, and the comparison `Tree.agrees`,
which looks through parentheses wherever they stand.

Parentheses are kept in the tree as `group` nodes, so that a tree remembers how
it was written; `Tree.erase` forgets them.  Joining is associative, so a chain of
joined parts can be nested in many ways; `Tree.leftNested` nests every chain to the
left, as a pattern is read.
-/

namespace PatternAutomata

/-- The syntax tree of a pattern that is not empty. -/
inductive Tree where
  /-- A literal character, which stands for itself. -/
  | char (c : Char)
  /-- Either alternative. -/
  | union (left right : Tree)
  /-- One part after the other. -/
  | concat (left right : Tree)
  /-- Any number of repetitions, zero included. -/
  | star (inner : Tree)
  /-- A part written in parentheses. -/
  | group (inner : Tree)
  deriving DecidableEq, Repr

namespace Tree

/-- The characters a tree is written with.  No parentheses are put in that the
tree does not hold, so different trees may be written alike. -/
def spelling : Tree → List Char
  | char c => [c]
  | union left right => left.spelling ++ '|' :: right.spelling
  | concat left right => left.spelling ++ right.spelling
  | star inner => inner.spelling ++ ['*']
  | group inner => '(' :: (inner.spelling ++ [')'])

/-- The written form of a tree. -/
def text (t : Tree) : String :=
  String.ofList t.spelling

/-- The tree without its parentheses, at every depth. -/
def erase : Tree → Tree
  | char c => char c
  | union left right => union left.erase right.erase
  | concat left right => concat left.erase right.erase
  | star inner => star inner.erase
  | group inner => inner.erase

/-- A tree joined with the parts of another, one by one from the left. -/
def joinLeft (left : Tree) : Tree → Tree
  | concat front last => concat (left.joinLeft front) last
  | t => concat left t

/-- The tree with every chain of joined parts nested to the left. -/
def leftNested : Tree → Tree
  | char c => char c
  | union left right => union left.leftNested right.leftNested
  | concat left right => left.leftNested.joinLeft right.leftNested
  | star inner => star inner.leftNested
  | group inner => group inner.leftNested

/-- The literal characters of a tree. -/
def letters : Tree → List Char
  | char c => [c]
  | union left right => left.letters ++ right.letters
  | concat left right => left.letters ++ right.letters
  | star inner => inner.letters
  | group inner => inner.letters

/-- The kinds of nodes. -/
inductive Kind where
  | char
  | union
  | concat
  | star
  | group
  deriving DecidableEq, Repr

/-- The number of nodes of a kind. -/
def count (kind : Kind) : Tree → Nat
  | char _ => if kind = .char then 1 else 0
  | union left right => left.count kind + right.count kind + if kind = .union then 1 else 0
  | concat left right => left.count kind + right.count kind + if kind = .concat then 1 else 0
  | star inner => inner.count kind + if kind = .star then 1 else 0
  | group inner => inner.count kind + if kind = .group then 1 else 0

/-- How many groups stand inside each other, where they are deepest. -/
def groupDepth : Tree → Nat
  | char _ => 0
  | union left right => max left.groupDepth right.groupDepth
  | concat left right => max left.groupDepth right.groupDepth
  | star inner => inner.groupDepth
  | group inner => inner.groupDepth + 1

/-- Whether two trees are the same up to parentheses.  Parentheses at the root
are taken off first, on both sides at once or on the one side that has them. -/
def agrees : Tree → Tree → Bool
  | group a, group b => agrees a b
  | group a, t => agrees a t
  | t, group b => agrees t b
  | char c, char d => c == d
  | union l₁ r₁, union l₂ r₂ => agrees l₁ l₂ && agrees r₁ r₂
  | concat l₁ r₁, concat l₂ r₂ => agrees l₁ l₂ && agrees r₁ r₂
  | star a, star b => agrees a b
  | _, _ => false
  termination_by s t => sizeOf s + sizeOf t

@[simp] theorem toList_text (t : Tree) : t.text.toList = t.spelling := by
  simp [text]

theorem length_letters (t : Tree) : t.letters.length = t.count .char := by
  induction t <;> simp_all [letters, count]

/-- Trees agree exactly if they are the same without parentheses. -/
theorem agrees_iff_erase_eq (s t : Tree) : s.agrees t = true ↔ s.erase = t.erase := by
  fun_induction agrees s t with
  | case1 a b ih => exact ih
  | case2 a t hungrouped ih => exact ih
  | case3 s b hungrouped ih => exact ih
  | case4 c d => simp [erase]
  | case5 l₁ r₁ l₂ r₂ ihl ihr => simp [erase, ihl, ihr]
  | case6 l₁ r₁ l₂ r₂ ihl ihr => simp [erase, ihl, ihr]
  | case7 a b ih => simp [erase, ih]
  | case8 s t => cases s <;> cases t <;> grind [erase]

end Tree

end PatternAutomata
