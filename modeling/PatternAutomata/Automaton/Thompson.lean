import PatternAutomata.Pattern.Tree
import PatternAutomata.Automaton.Basic

/-!
# The automaton of a tree

Each tree becomes a block of new states with one entry and one exit, built from
the blocks of its parts by silent edges.  Blocks are built one after the other in
the same automaton, so its states carry the numbers in which they are made; what
the automaton held before stays as it is, its start and accepting state included.

A literal and a `|` or star bring two states each.  Joining two parts brings none,
and parentheses bring nothing at all.
-/

namespace PatternAutomata

/-- The block of a literal: one edge, between two new states. -/
def Automaton.literal (A : Automaton) (c : Char) : Block × Automaton :=
  let ends := A.addPair
  (ends.1, ends.2.connect ends.1.entry ⟨some c, ends.1.exit⟩)

/-- A block around two others, of which one is passed. -/
def Automaton.alternate (A : Automaton) (lower upper : Block) : Block × Automaton :=
  let outer := A.addPair
  (outer.1,
    outer.2
      |>.bridge outer.1.entry lower.entry
      |>.bridge outer.1.entry upper.entry
      |>.bridge lower.exit outer.1.exit
      |>.bridge upper.exit outer.1.exit)

/-- Two blocks as one, passed one after the other. -/
def Automaton.chain (A : Automaton) (first second : Block) : Block × Automaton :=
  (⟨first.entry, second.exit⟩, A.bridge first.exit second.entry)

/-- A block around another, which is passed any number of times. -/
def Automaton.loop (A : Automaton) (body : Block) : Block × Automaton :=
  let outer := A.addPair
  (outer.1,
    outer.2
      |>.bridge outer.1.entry body.entry
      |>.bridge outer.1.entry outer.1.exit
      |>.bridge body.exit body.entry
      |>.bridge body.exit outer.1.exit)

/-- Builds the block of a tree behind the states of an automaton. -/
def Automaton.build (A : Automaton) : Tree → Block × Automaton
  | .char c => A.literal c
  | .union left right =>
    let lower := A.build left
    let upper := lower.2.build right
    upper.2.alternate lower.1 upper.1
  | .concat left right =>
    let first := A.build left
    let second := first.2.build right
    second.2.chain first.1 second.1
  | .star inner =>
    let body := A.build inner
    body.2.loop body.1
  | .group inner => A.build inner

/-- The automaton of a tree, which starts at the entry of its block and accepts at
the exit. -/
def Automaton.ofTree (t : Tree) : Automaton :=
  let whole := Automaton.blank.build t
  { whole.2 with start := whole.1.entry, accept := whole.1.exit }

/-- The automaton of a pattern's tree; without a tree it accepts the empty word. -/
def Automaton.ofTree? : Option Tree → Automaton
  | some t => ofTree t
  | none => ofEmptyWord

end PatternAutomata
