import PatternAutomata.Event
import PatternAutomata.Automaton.Elimination
import PatternAutomata.Automaton.Graphviz
import PatternAutomata.Automaton.Thompson

/-!
# Compiled patterns

A pattern is read, built into an automaton and, if the flags ask for it, freed of
its inner silent edges.  The compiled pattern matches a text if its automaton
accepts the whole of it.

Compiling and matching also give the events on the way.  The events of a
compilation are kept when it fails, since a stray parenthesis is noted before a
later defect is found.
-/

namespace PatternAutomata

/-- How a pattern is compiled. -/
structure Flags where
  /-- Whether inner silent edges are eliminated. -/
  optimize : Bool := true
  /-- Whether the finished automaton is drawn into the events. -/
  debug : Bool := false
  deriving DecidableEq, Repr

/-- The flags as a number, with a bit for each. -/
def Flags.bits (flags : Flags) : Nat :=
  (if flags.optimize then 2 else 0) + (if flags.debug then 4 else 0)

/-- Why a pattern cannot be compiled. -/
inductive CompileError where
  /-- The pattern cannot be read. -/
  | unreadable (cause : PatternError)
  deriving DecidableEq, Repr

/-- The error that a compile error goes back to. -/
def CompileError.source : CompileError → PatternError
  | unreadable cause => cause

/-- A compile error is worded as the error it goes back to. -/
def CompileError.message (e : CompileError) (palette : Palette := .plain) : String :=
  e.source.message palette

/-- A pattern that is ready to be matched. -/
structure CompiledPattern where
  pattern : String
  flags : Flags
  automaton : Automaton

/-- The course of a compilation. -/
structure Compilation where
  events : List Event
  result : Except CompileError CompiledPattern

namespace CompiledPattern

/-- The automaton of a pattern's tree, before any elimination, with the event of
building it.  The automaton of the empty word is not reported. -/
def construct : Option Tree → List Event × Automaton
  | some t =>
    let A := Automaton.ofTree t
    ([.built t A.size A.edgeCount], A)
  | none => ([], .ofEmptyWord)

/-- The automaton with its inner silent edges eliminated if the flags ask for it. -/
def reduce (flags : Flags) (A : Automaton) : List Event × Automaton :=
  if flags.optimize then
    let e := A.elimination
    ([.eliminated e.copied e.removed e.total], e.automaton)
  else
    ([], A)

/-- The drawing of a finished automaton, if the flags ask for it. -/
def draw (pattern : String) (flags : Flags) (A : Automaton) : List Event :=
  if flags.debug then [.compiled pattern A.dot] else []

/-- Compiles a pattern. -/
def compile (pattern : String) (flags : Flags := {}) : Compilation :=
  let reading := Reading.ofPattern pattern
  let strays := reading.strays.map Event.stray
  match reading.result pattern with
  | .error e => ⟨strays, .error (.unreadable e)⟩
  | .ok tree =>
    let built := construct tree
    let reduced := reduce flags built.2
    ⟨strays ++ built.1 ++ reduced.1 ++ draw pattern flags reduced.2,
      .ok ⟨pattern, flags, reduced.2⟩⟩

/-- The run of a compiled pattern on a text. -/
def run (p : CompiledPattern) (text : String) : Run :=
  p.automaton.run text.toList

/-- Whether the whole of a text matches. -/
def accepts (p : CompiledPattern) (text : String) : Bool :=
  (p.run text).accepted

/-- The events of matching a text: one for every character consumed. -/
def matchEvents (p : CompiledPattern) (text : String) : List Event :=
  (p.run text).steps.map Event.consumed

end CompiledPattern

end PatternAutomata
