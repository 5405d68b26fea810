import PatternAutomata.Automaton.Closure

/-!
# Running an automaton

A text is read character by character with the set of states that are active.
Before each character the active states are closed under silent edges; then the
edges that consume the character lead to the next active states.  After the last
character the set is closed once more, and the text is accepted if the accepting
state is in it.

`run` stops at the first character that leaves no state active and records a step
for every character it has consumed; `stages` follows a text to its end whatever
happens, and shows the sets in full.
-/

namespace PatternAutomata

/-- A consumed character, its position, and how many states it leaves active. -/
structure Step where
  position : Nat
  char : Char
  active : Nat
  deriving DecidableEq, Repr

/-- The course of a run: its steps, and whether the text was accepted. -/
structure Run where
  steps : List Step
  accepted : Bool
  deriving DecidableEq, Repr

/-- A character, the closed set it is consumed from, and the set it leads to. -/
structure Stage where
  char : Char
  closed : StateSet
  active : StateSet

namespace Automaton

/-- The states reached from a set by one edge that consumes the character. -/
def move (A : Automaton) (states : StateSet) (c : Char) : StateSet :=
  StateSet.ofList (states.toList.flatMap (A.successors (some c)))

/-- The states that are active after one more character. -/
def advance (A : Automaton) (active : StateSet) (c : Char) : StateSet :=
  A.move (A.closure active.toList) c

/-- The states that are active after a text. -/
def activeAfter (A : Automaton) (active : StateSet) (text : List Char) : StateSet :=
  text.foldl A.advance active

/-- Whether a set of active states leads to the accepting state silently. -/
def isAccepting (A : Automaton) (active : StateSet) : Bool :=
  decide (A.accept ∈ A.closure active.toList)

/-- The run from a set of active states, where the text begins at `position`. -/
def runFrom (A : Automaton) (active : StateSet) (position : Nat) : List Char → Run
  | [] => ⟨[], A.isAccepting active⟩
  | c :: rest =>
    let next := A.advance active c
    let step : Step := ⟨position, c, next.size⟩
    if next.isEmpty then
      ⟨[step], false⟩
    else
      let later := A.runFrom next (position + 1) rest
      ⟨step :: later.steps, later.accepted⟩

/-- The states that are active before the first character. -/
def initial (A : Automaton) : StateSet :=
  StateSet.ofList [A.start]

/-- The run of the automaton on a text. -/
def run (A : Automaton) (text : List Char) : Run :=
  A.runFrom A.initial 0 text

/-- Whether the automaton accepts a text. -/
def accepts (A : Automaton) (text : List Char) : Bool :=
  (A.run text).accepted

/-- The stages of a text from a set of active states, up to its end. -/
def stagesFrom (A : Automaton) (active : StateSet) : List Char → List Stage
  | [] => []
  | c :: rest =>
    let closed := A.closure active.toList
    let next := A.move closed c
    ⟨c, closed, next⟩ :: A.stagesFrom next rest

/-- The stages of a text from the start. -/
def stages (A : Automaton) (text : List Char) : List Stage :=
  A.stagesFrom A.initial text

@[simp] theorem mem_move {A : Automaton} {states : StateSet} {c : Char} {t : Nat} :
    t ∈ A.move states c ↔ ∃ s ∈ states, ⟨some c, t⟩ ∈ A.edgesFrom s := by
  simp [move]

@[simp] theorem mem_initial {A : Automaton} {s : Nat} : s ∈ A.initial ↔ s = A.start := by
  simp [initial]

@[simp] theorem activeAfter_cons (A : Automaton) (active : StateSet) (c : Char)
    (text : List Char) :
    A.activeAfter active (c :: text) = A.activeAfter (A.advance active c) text :=
  rfl

end Automaton

end PatternAutomata
