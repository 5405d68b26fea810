import PatternAutomata.Text.Unprintable
import PatternAutomata.Text.Extending

/-!
# Quoted text

Text and single characters are shown in quotes when they stand inside a message,
so that blanks and line breaks at their ends can be seen.  A backslash, the
quote itself and four common control characters have a short escape; all other
characters that cannot be printed, and those that would merge with the character
before them, are written with their number in hexadecimal.  Everything else is
shown as it is.
-/

namespace PatternAutomata.Quoted

/-- The characters that are shown by number, unless they have a short escape. -/
def isHidden (c : Char) : Bool :=
  CharClass.unprintable.contains c || CharClass.extending.contains c

/-- One character as it is shown between quotes of the given kind. -/
def escape (quote c : Char) : List Char :=
  if c = '\\' then ['\\', '\\']
  else if c = quote then ['\\', c]
  else if c = '\n' then ['\\', 'n']
  else if c = '\r' then ['\\', 'r']
  else if c = '\t' then ['\\', 't']
  else if c = '\x00' then ['\\', '0']
  else if isHidden c then ['\\', 'u', '\x7b'] ++ Nat.toDigits 16 c.toNat ++ ['\x7d']
  else [c]

/-- Characters between quotes of the given kind. -/
def enclose (quote : Char) (cs : List Char) : String :=
  String.ofList (quote :: (cs.flatMap (escape quote) ++ [quote]))

/-- A text between double quotes. -/
def text (s : String) : String :=
  enclose '"' s.toList

/-- A character between single quotes. -/
def char (c : Char) : String :=
  enclose '\'' [c]

end PatternAutomata.Quoted
