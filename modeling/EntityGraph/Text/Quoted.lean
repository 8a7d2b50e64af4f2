import EntityGraph.Text.Unprintable

/-!
# Quoted text

Names inside messages stand in double quotes. The quote and the backslash follow a backslash, line ends, tabs and the null
character have a letter of their own, and every other unprintable character is written by its code.
-/

namespace EntityGraph.Text.Quoted

/-- The written form of one character between double quotes. -/
def encodeChar (c : Char) : List Char :=
  if c = '\x00' then ['\\', '0']
  else if c = '\t' then ['\\', 't']
  else if c = '\r' then ['\\', 'r']
  else if c = '\n' then ['\\', 'n']
  else if c = '"' ∨ c = '\\' then ['\\', c]
  else if isUnprintable c then ['\\', 'u', '{'] ++ Nat.toDigits 16 c.toNat ++ ['}']
  else [c]

/-- A text in double quotes. -/
def render (s : String) : String := String.ofList ('"' :: s.toList.flatMap encodeChar ++ ['"'])

/-- A list of texts in double quotes, in brackets. -/
def renderList (texts : List String) : String := "[" ++ ", ".intercalate (texts.map render) ++ "]"

end EntityGraph.Text.Quoted
