import PatternAutomata.Automaton.Basic

/-!
# Paths

A path follows edges from one state to another and spells the characters of the
edges that consume one.  Paths say what an automaton accepts without saying how
that is found out.
-/

namespace PatternAutomata

/-- A path from one state to another that spells a word. -/
inductive Automaton.Path (A : Automaton) : Nat → List Char → Nat → Prop
  | nil (s : Nat) : Path A s [] s
  | silent {s t u : Nat} {w : List Char} (hedge : ⟨none, t⟩ ∈ A.edgesFrom s)
      (rest : Path A t w u) : Path A s w u
  | consume {s t u : Nat} {c : Char} {w : List Char} (hedge : ⟨some c, t⟩ ∈ A.edgesFrom s)
      (rest : Path A t w u) : Path A s (c :: w) u

/-- Paths that meet are joined. -/
theorem Automaton.Path.append {A : Automaton} {s t u : Nat} {v w : List Char}
    (hfront : Path A s v t) (hback : Path A t w u) : Path A s (v ++ w) u := by
  induction hfront with
  | nil => exact hback
  | silent hedge _ ih => exact .silent hedge (ih hback)
  | consume hedge _ ih => exact .consume hedge (ih hback)

/-- A path that is empty or ends with an edge that consumes a character, from one
state to another. -/
inductive Automaton.Arrives (A : Automaton) (s : Nat) : List Char → Nat → Prop
  | start : Arrives A s [] s
  | consume {t u : Nat} {c : Char} {w : List Char} (hfront : A.Path s w u)
      (hedge : ⟨some c, t⟩ ∈ A.edgesFrom u) : Arrives A s (w ++ [c]) t

theorem Automaton.Arrives.path {A : Automaton} {s t : Nat} {w : List Char}
    (harrive : A.Arrives s w t) : A.Path s w t := by
  cases harrive with
  | start => exact .nil s
  | consume hfront hedge => exact hfront.append (.consume hedge (.nil t))

/-- One state reaches another by silent edges alone. -/
def Automaton.SilentlyReaches (A : Automaton) (s t : Nat) : Prop :=
  A.Path s [] t

end PatternAutomata
