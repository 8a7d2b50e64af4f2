import EntityGraph.Json.Basic

/-!
# JSON text

`Json.compact` writes a value without blanks, `Json.pretty` one member or item a line, indented by two blanks. Both keep the
order of members. A floating-point number always shows a fraction or an exponent; NaN and the infinities, which the format does
not have, are written as `null`.
-/

namespace EntityGraph.Json

/-- Numbers are written with the fewest digits that identify them, without exponent from `0.00001` up to `10^16`, and otherwise
with a signed one. -/
def numberLayout : DecimalNotation where
  plainFrom := -5
  plainBelow := 16
  exponentPlus := true
  tie := .toEven

def floatText (x : Binary64) : String := if x.isFinite then numberLayout.render x else "null"

/-- The written form of one character of a string: quotes, backslashes and control characters are escaped. -/
def encodeChar (c : Char) : List Char :=
  if c = '"' then ['\\', '"']
  else if c = '\\' then ['\\', '\\']
  else if c = '\x08' then ['\\', 'b']
  else if c = '\x0c' then ['\\', 'f']
  else if c = '\n' then ['\\', 'n']
  else if c = '\r' then ['\\', 'r']
  else if c = '\t' then ['\\', 't']
  else if c.toNat < 0x20 then
    ['\\', 'u', '0', '0', Nat.digitChar (c.toNat / 16), Nat.digitChar (c.toNat % 16)]
  else [c]

def stringText (s : String) : String := String.ofList ('"' :: s.toList.flatMap encodeChar ++ ['"'])

/-- The text of a value that has no parts. -/
def scalarText : Json → String
  | .null => "null"
  | .bool b => if b then "true" else "false"
  | .int n => toString n
  | .float x => floatText x
  | .string s => stringText s
  | .list _ => "[]"
  | .object _ => "\x7b\x7d"

mutual

/-- The text of a value without blanks. -/
def compact : Json → String
  | .list items => "[" ++ ",".intercalate (compactItems items) ++ "]"
  | .object members => "\x7b" ++ ",".intercalate (compactMembers members) ++ "\x7d"
  | .null => scalarText .null
  | .bool b => scalarText (.bool b)
  | .int n => scalarText (.int n)
  | .float x => scalarText (.float x)
  | .string s => scalarText (.string s)

def compactItems : List Json → List String
  | [] => []
  | j :: js => j.compact :: compactItems js

def compactMembers : List (String × Json) → List String
  | [] => []
  | (key, j) :: rest => (stringText key ++ ":" ++ j.compact) :: compactMembers rest

end

/-- A line end followed by the indentation of a depth. -/
def lineStart (depth : Nat) : String := String.ofList ('\n' :: List.replicate (2 * depth) ' ')

/-- Parts between brackets, each on a line of its own one step deeper; without parts the brackets stand together. -/
def block (depth : Nat) (opening closing : String) (parts : List String) : String :=
  if parts.isEmpty then opening ++ closing
  else opening ++ lineStart (depth + 1) ++ ("," ++ lineStart (depth + 1)).intercalate parts ++ lineStart depth ++ closing

mutual

/-- The indented text of a value that starts at the given depth. -/
def prettyAt (depth : Nat) : Json → String
  | .list items => block depth "[" "]" (prettyItems (depth + 1) items)
  | .object members => block depth "\x7b" "\x7d" (prettyMembers (depth + 1) members)
  | .null => scalarText .null
  | .bool b => scalarText (.bool b)
  | .int n => scalarText (.int n)
  | .float x => scalarText (.float x)
  | .string s => scalarText (.string s)

def prettyItems (depth : Nat) : List Json → List String
  | [] => []
  | j :: js => prettyAt depth j :: prettyItems depth js

def prettyMembers (depth : Nat) : List (String × Json) → List String
  | [] => []
  | (key, j) :: rest => (stringText key ++ ": " ++ prettyAt depth j) :: prettyMembers depth rest

end

def pretty (j : Json) : String := prettyAt 0 j

end EntityGraph.Json
