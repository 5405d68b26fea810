import PatternAutomata.Pattern.Balanced
import PatternAutomata.Pattern.Defect
import PatternAutomata.Pattern.Shape

/-!
# Faults of a stretch

Which defects a stretch of a pattern has, said without reading it: a fault is
found by the characters around an offending one.  Every fault also has the index
at which it shows when the stretch is read from left to right, and `FirstFault`
is the one that shows first.

A group or alternative that is empty shows only where it ends; for an alternative
that is the end of the scope around it.  Several empty alternatives of one scope
therefore show together, and the rightmost of them counts.
-/

namespace PatternAutomata

/-- What can stand before a branch: nothing, or an opening parenthesis or `|`
right before it. -/
def BeforeBranch (front : List Char) : Prop :=
  front = [] ∨ front.getLast? = some '(' ∨ front.getLast? = some '|'

/-- What can stand behind a branch: nothing, or a closing parenthesis or `|` right
behind it. -/
def BehindBranch (back : List Char) : Prop :=
  back = [] ∨ back.head? = some ')' ∨ back.head? = some '|'

/-- What a star can repeat: a literal or a parenthesised stretch. -/
inductive Repeatable : List Char → Prop
  | literal {c : Char} (hliteral : isReserved c = false) : Repeatable [c]
  | group {inner : List Char} (hbalanced : Balanced inner) : Repeatable ('(' :: (inner ++ [')']))

/-- A defect of a stretch, and the index at which it shows. -/
inductive Fault (cs : List Char) : Defect → Nat → Prop
  /-- An opening parenthesis that nothing behind it closes. -/
  | unclosed {front back : List Char} (hhere : cs = front ++ '(' :: back)
      (hnever : visible back = back) :
      Fault cs ⟨.unmatchedParenthesis, front.length⟩ front.length
  /-- A star right at the beginning of a branch. -/
  | leadingStar {front back : List Char} (hhere : cs = front ++ '*' :: back)
      (hbegins : BeforeBranch front) :
      Fault cs ⟨.nothingToRepeat, front.length⟩ front.length
  /-- A second star behind the first unit of a branch. -/
  | secondStar {front unit back : List Char} (hhere : cs = front ++ unit ++ '*' :: '*' :: back)
      (hbegins : BeforeBranch front) (hsingle : Repeatable unit) :
      Fault cs ⟨.nothingToRepeat, front.length + unit.length + 1⟩
        (front.length + unit.length + 1)
  /-- A pair of parentheses with nothing in it, which shows at the closing one. -/
  | emptyGroup {front back : List Char} (hhere : cs = front ++ '(' :: ')' :: back) :
      Fault cs ⟨.emptyExpression, front.length⟩ (front.length + 1)
  /-- A `|` with nothing on one side, which shows at the end of its scope. -/
  | emptyAlternative {front back : List Char} (hhere : cs = front ++ '|' :: back)
      (hmissing : BeforeBranch front ∨ BehindBranch back) :
      Fault cs ⟨.emptyExpression, front.length⟩ (front.length + 1 + (visible back).length)

/-- The defect of a stretch that shows first; of those that show together, the
rightmost. -/
def FirstFault (cs : List Char) (defect : Defect) : Prop :=
  ∃ shown, Fault cs defect shown ∧ ∀ other later, Fault cs other later →
    shown < later ∨ shown = later ∧ other.position ≤ defect.position

end PatternAutomata
