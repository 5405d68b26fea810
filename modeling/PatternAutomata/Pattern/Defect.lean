/-!
# Defects of a pattern

Why a pattern cannot be read: a `Flaw` together with the index of the character
it is reported at.  A `PatternError` adds the whole pattern, which is what a
message shows.

A message has three lines: a numbered heading, the pattern as it was given, and
a caret.  The caret is set off by one blank per character before the offending
one, whatever width those characters are shown with.
-/

namespace PatternAutomata

/-- What can be wrong with a pattern. -/
inductive Flaw where
  /-- An opening parenthesis is never closed. -/
  | unmatchedParenthesis
  /-- A star has nothing before it that it could repeat. -/
  | nothingToRepeat
  /-- A group or an alternative is empty. -/
  | emptyExpression
  deriving DecidableEq, Repr

/-- A flaw and the index of the character at which it is reported. -/
structure Defect where
  flaw : Flaw
  position : Nat
  deriving DecidableEq, Repr

/-- A defect together with the pattern it was found in. -/
structure PatternError extends Defect where
  pattern : String
  deriving DecidableEq, Repr

/-- The three digits a flaw is numbered with. -/
def Flaw.code : Flaw → String
  | unmatchedParenthesis => "001"
  | nothingToRepeat => "002"
  | emptyExpression => "003"

/-- A flaw in words. -/
def Flaw.words : Flaw → String
  | unmatchedParenthesis => "unmatched parenthesis"
  | nothingToRepeat => "nothing to repeat"
  | emptyExpression => "empty expression"

/-- Whether a message is written for a terminal that shows colours. -/
inductive Palette where
  | plain
  | coloured
  deriving DecidableEq, Repr

/-- The heading number is bold red in colour. -/
def Palette.number : Palette → String → String
  | plain, s => s
  | coloured, s => "\x1b[1;31m" ++ s ++ "\x1b[0m"

/-- The caret is green in colour. -/
def Palette.caret : Palette → String
  | plain => "^"
  | coloured => "\x1b[32m^\x1b[0m"

/-- The message of an error, without a final line break. -/
def PatternError.message (e : PatternError) (palette : Palette := .plain) : String :=
  palette.number ("[" ++ e.flaw.code ++ "]") ++ " " ++ e.flaw.words ++ ":\n | " ++ e.pattern ++
    "\n | " ++ String.ofList (List.replicate e.position ' ') ++ palette.caret

end PatternAutomata
