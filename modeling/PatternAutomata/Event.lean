import PatternAutomata.Pattern.Reading
import PatternAutomata.Automaton.Simulation
import PatternAutomata.Text.Quoted

/-!
# Events

What can be noted while a pattern is compiled and matched.  An event is a value;
its level, the stage of the work it belongs to and its wording are functions of
it, so that reports can be written or left out without any change to the work.
-/

namespace PatternAutomata

/-- How important an event is. -/
inductive Level where
  | warning
  | debug
  | trace
  deriving DecidableEq, Repr

/-- The part of the work an event comes from. -/
inductive Activity where
  | reading
  | construction
  | elimination
  | compilation
  | matching
  deriving DecidableEq, Repr

/-- Something worth noting. -/
inductive Event where
  /-- A closing parenthesis without a partner has ended a pattern. -/
  | stray (stray : Stray)
  /-- A tree has become an automaton of this many states and edges. -/
  | built (tree : Tree) (states edges : Nat)
  /-- Silent edges have been eliminated: edges copied, edges removed, and the
  number of silent edges from which they were removed. -/
  | eliminated (copied : Int32) (removed total : Nat)
  /-- A pattern has been compiled to the automaton drawn here. -/
  | compiled (pattern drawing : String)
  /-- A character has been consumed. -/
  | consumed (step : Step)
  deriving DecidableEq, Repr

namespace Event

/-- The level at which an event is reported. -/
def level : Event → Level
  | stray _ => .warning
  | built .. | eliminated .. | compiled .. => .debug
  | consumed _ => .trace

/-- The activity an event belongs to. -/
def activity : Event → Activity
  | stray _ => .reading
  | built .. => .construction
  | eliminated .. => .elimination
  | compiled .. => .compilation
  | consumed _ => .matching

/-- An event in words. -/
def message : Event → String
  | stray s =>
    "unmatched ')' at " ++ toString s.position ++ ", ignoring " ++ Quoted.text s.ignored
  | built tree states edges =>
    "built NFA for " ++ tree.text ++ " with " ++ toString states ++ " states and " ++
      toString edges ++ " edges"
  | eliminated copied removed total =>
    "epsilon elimination copied " ++ toString copied ++ " edges and removed " ++
      toString removed ++ " of " ++ toString total ++ " epsilon edges"
  | compiled pattern drawing => "compiled " ++ Quoted.text pattern ++ ":\n" ++ drawing
  | consumed step =>
    toString step.active ++ " active states after " ++ Quoted.char step.char ++ " at " ++
      toString step.position

end Event

end PatternAutomata
