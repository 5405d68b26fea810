import PatternAutomata.Pattern.Tree
import PatternAutomata.Pattern.Scope
import PatternAutomata.Pattern.Defect

/-!
# Reading a pattern

A star binds tightest, then the joining of neighbours, then `|`.  A pattern is
read from left to right with a cursor; what has been read of the current branch
is carried along, and a star repeats its last unit.  The content of a group is
read as a scope of its own, up to the group's closer.

A `)` without a partner ends the pattern: it is noted as a `Stray`, and what
follows it is ignored.  A reading keeps the notes of a pattern that turns out to
be defective as well.

`Tree.ofPattern` is the reading of a whole pattern, and `Tree.rereading` compares
a tree with what its own written form is read as.
-/

namespace PatternAutomata

/-- A `)` that closes nothing, and the rest of the pattern, which is ignored. -/
structure Stray where
  position : Nat
  ignored : String
  deriving DecidableEq, Repr

/-- What reading a stretch of a pattern yields: the strays that were met, and
either a defect or the tree, absent for an empty stretch, with the index at which
reading came to its end. -/
structure Reading where
  strays : List Stray
  outcome : Except Defect (Option Tree × Nat)

/-- The branch read so far, with one more part behind it. -/
def Tree.append : Option Tree → Tree → Tree
  | some front, t => concat front t
  | none, t => t

/-- The branch read so far, with its last unit repeated.  A branch that is a
single repeated unit is not repeated again. -/
def Tree.repeatLast : Option Tree → Option Tree
  | none => none
  | some (star _) => none
  | some (concat front last) => some (concat front (star last))
  | some t => some (star t)

/-- Reads the stretch from `pos` up to `stop`, where `branch` has been read of the
current branch. -/
def Reading.within (cs : Array Char) (stop : Nat) (hstop : stop ≤ cs.size) (pos : Nat)
    (branch : Option Tree) : Reading :=
  if hpos : pos < stop then
    if cs[pos] = '(' then
      match closer? cs stop hstop pos (pos + 1) (by omega) 1 with
      | none => ⟨[], .error ⟨.unmatchedParenthesis, pos⟩⟩
      | some ⟨close, _⟩ =>
        match within cs close (by omega) (pos + 1) none with
        | ⟨strays, .error defect⟩ => ⟨strays, .error defect⟩
        | ⟨strays, .ok (none, _)⟩ => ⟨strays, .error ⟨.emptyExpression, pos⟩⟩
        | ⟨strays, .ok (some inner, _)⟩ =>
          match within cs stop hstop (close + 1) (some (Tree.append branch (.group inner))) with
          | ⟨later, outcome⟩ => ⟨strays ++ later, outcome⟩
    else if cs[pos] = ')' then
      ⟨[⟨pos, String.ofList (cs.toList.drop (pos + 1))⟩], .ok (branch, stop)⟩
    else if cs[pos] = '|' then
      match branch, within cs stop hstop (pos + 1) none with
      | _, ⟨strays, .error defect⟩ => ⟨strays, .error defect⟩
      | some left, ⟨strays, .ok (some right, next)⟩ =>
        ⟨strays, .ok (some (.union left right), next)⟩
      | _, ⟨strays, .ok _⟩ => ⟨strays, .error ⟨.emptyExpression, pos⟩⟩
    else if cs[pos] = '*' then
      match Tree.repeatLast branch with
      | none => ⟨[], .error ⟨.nothingToRepeat, pos⟩⟩
      | some branch => within cs stop hstop (pos + 1) (some branch)
    else
      within cs stop hstop (pos + 1) (some (Tree.append branch (.char cs[pos])))
  else
    ⟨[], .ok (branch, pos)⟩
  termination_by stop - pos

/-- The reading of a whole pattern. -/
def Reading.ofPattern (pattern : String) : Reading :=
  let cs := pattern.toList.toArray
  within cs cs.size (Nat.le_refl _) 0 none

/-- What a reading of a pattern comes to: its tree, or the error to report. -/
def Reading.result (reading : Reading) (pattern : String) : Except PatternError (Option Tree) :=
  match reading.outcome with
  | .ok (tree, _) => .ok tree
  | .error defect => .error ⟨defect, pattern⟩

/-- The tree of a pattern, absent for a pattern of which nothing counts. -/
def Tree.ofPattern (pattern : String) : Except PatternError (Option Tree) :=
  (Reading.ofPattern pattern).result pattern

/-- Whether the written form of a tree is read as a tree that agrees with it. -/
def Tree.rereading (t : Tree) : Except PatternError Bool :=
  (Tree.ofPattern t.text).map fun
    | some read => read.agrees t
    | none => false

/-- Whether two outcomes of reading are alike: trees agree up to parentheses, and
errors are the same in kind, pattern and position. -/
def Tree.alike : Except PatternError (Option Tree) → Except PatternError (Option Tree) → Bool
  | .ok (some s), .ok (some t) => s.agrees t
  | .ok none, .ok none => true
  | .error d, .error e => d == e
  | _, _ => false

end PatternAutomata
