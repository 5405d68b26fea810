import PatternAutomata.CompiledPattern

/-!
# The command line

The first argument is a pattern and the others are texts to match it with.  Every
text gets a line of output: the text in quotes, and whether it matches.  A pattern
that cannot be compiled is reported as an error instead.
-/

namespace PatternAutomata.CommandLine

/-- What a command leaves behind: both outputs, and whether it failed. -/
structure Report where
  output : String := ""
  errors : String := ""
  failed : Bool := false
  deriving DecidableEq, Repr

/-- The exit code of a command. -/
def Report.exitCode (report : Report) : Nat :=
  if report.failed then 1 else 0

/-- The pattern that is taken without arguments. -/
def defaultPattern : String :=
  "a(b|c)*d"

/-- The text that is taken if none is given. -/
def defaultText : String :=
  "abccccccd"

/-- The pattern and the texts that a list of arguments stands for. -/
def request : List String → String × List String
  | [] => (defaultPattern, [defaultText])
  | [pattern] => (pattern, [defaultText])
  | pattern :: texts => (pattern, texts)

/-- The line of a text. -/
def line (p : CompiledPattern) (text : String) : String :=
  Quoted.text text ++ " " ++ toString (p.accepts text) ++ "\n"

/-- Runs the command with some arguments. -/
def run (arguments : List String) (palette : Palette := .plain) : Report :=
  let (pattern, texts) := request arguments
  match (CompiledPattern.compile pattern { optimize := true, debug := true }).result with
  | .ok p => { output := String.join (texts.map (line p)) }
  | .error e => { errors := e.message palette ++ "\n", failed := true }

end PatternAutomata.CommandLine
