import PatternAutomata.Automaton.Elimination
import PatternAutomata.Automaton.Thompson

/-!
# Edits of an automaton

Everything that can be done to an automaton, as data: `Edit.apply` does one edit,
and `Automaton.afterEdits` a list of them.  An edit fails only by adding an edge to
a state that does not exist, and then it changes nothing.
-/

namespace PatternAutomata

/-- One change of an automaton. -/
inductive Edit where
  /-- Start again without any states. -/
  | clear
  /-- Start again with the automaton of a tree, or of the empty word. -/
  | load (tree : Option Tree)
  | addState
  | addPair
  | connect (source : Nat) (edge : Edge)
  | bridge (source target : Nat)
  /-- Build the block of a tree behind the states there are. -/
  | build (tree : Tree)
  /-- Set the start and the accepting state, or one of them, to any number. -/
  | relocate (start accept : Option Nat)
  | eliminate
  deriving DecidableEq, Repr

/-- What an edit answers. -/
inductive Edit.Answer where
  | done
  | state (s : Nat)
  | block (ends : Block)
  | added (new : Bool)
  deriving DecidableEq, Repr

/-- Does one edit. -/
def Edit.apply (A : Automaton) : Edit → Except MissingState (Answer × Automaton)
  | clear => .ok (.done, .blank)
  | load tree => .ok (.done, .ofTree? tree)
  | addState => .ok (.state A.addState.1, A.addState.2)
  | addPair => .ok (.block A.addPair.1, A.addPair.2)
  | connect source edge => (A.connect? source edge).map fun (new, B) => (.added new, B)
  | bridge source target => (A.connect? source ⟨none, target⟩).map fun (_, B) => (.done, B)
  | build tree => .ok (.block (A.build tree).1, (A.build tree).2)
  | relocate start accept =>
    .ok (.done, { A with start := start.getD A.start, accept := accept.getD A.accept })
  | eliminate => .ok (.done, A.eliminate)

/-- The automaton after an edit, unchanged if the edit fails. -/
def Automaton.afterEdit (A : Automaton) (edit : Edit) : Automaton :=
  match edit.apply A with
  | .ok (_, B) => B
  | .error _ => A

/-- The automaton after some edits. -/
def Automaton.afterEdits (A : Automaton) (edits : List Edit) : Automaton :=
  edits.foldl afterEdit A

end PatternAutomata
