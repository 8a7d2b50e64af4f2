import EntityGraph.Json.Numeral

/-!
# JSON tokens

`Token.scan?` cuts a text into the tokens of the format: brackets, separators and the values without parts. Each step takes at
least one character off the text, which is why the scan ends.
-/

namespace EntityGraph.Json

/-- A token of the format. -/
inductive Token
  | openList
  | closeList
  | openObject
  | closeObject
  | comma
  | colon
  /-- A string; it has no content if it writes one half of a pair of units. -/
  | text (content? : Option String)
  /-- A numeral or a word such as `true`; a number beyond the finite ones has no value. -/
  | word (value? : Option Json)

namespace Token

def isBlank (c : Char) : Bool := c = ' ' || c = '\n' || c = '\t' || c = '\r'

/-! ## Strings -/

def hexDigit? (c : Char) : Option Nat :=
  if '0' ≤ c ∧ c ≤ '9' then some (c.toNat - '0'.toNat)
  else if 'a' ≤ c ∧ c ≤ 'f' then some (c.toNat - 'a'.toNat + 10)
  else if 'A' ≤ c ∧ c ≤ 'F' then some (c.toNat - 'A'.toNat + 10)
  else none

/-- The 16-bit unit that four hexadecimal digits write. -/
def unit? (a b c d : Char) : Option Nat := do
  return (((← hexDigit? a) * 16 + (← hexDigit? b)) * 16 + (← hexDigit? c)) * 16 + (← hexDigit? d)

/-- The character that the letter after a backslash stands for. -/
def unescape? (c : Char) : Option Char :=
  if c = '"' ∨ c = '\\' ∨ c = '/' then some c
  else if c = 'b' then some '\x08'
  else if c = 'f' then some '\x0c'
  else if c = 'n' then some '\n'
  else if c = 'r' then some '\r'
  else if c = 't' then some '\t'
  else none

/-- A part of a written string: a character, or a 16-bit unit given by its number. -/
inductive Piece
  | char (c : Char)
  | unit (value : Nat)

/-- Reads a string after its opening quote: its pieces, and the text after the closing quote. Control characters have to be
escaped. -/
def readPieces? : List Char → Option (List Piece × List Char)
  | [] => none
  | '"' :: rest => some ([], rest)
  | '\\' :: 'u' :: a :: b :: c :: d :: rest =>
    match unit? a b c d, readPieces? rest with
    | some value, some (pieces, rest) => some (.unit value :: pieces, rest)
    | _, _ => none
  | '\\' :: c :: rest =>
    match unescape? c, readPieces? rest with
    | some c, some (pieces, rest) => some (.char c :: pieces, rest)
    | _, _ => none
  | c :: rest =>
    if c = '\\' ∨ c.toNat < 0x20 then none
    else
      match readPieces? rest with
      | some (pieces, rest) => some (.char c :: pieces, rest)
      | none => none

/-- What is left after a string is shorter than what it was read from. -/
theorem readPieces?_length {cs : List Char} {r : List Piece × List Char} (h : readPieces? cs = some r) :
    r.2.length < cs.length := by
  fun_induction readPieces? cs generalizing r <;> simp_all <;> subst h <;> simp_all <;> omega

/-- The characters of a string. A unit stands for a character of its own, or for the first half of a pair whose second half
follows at once. -/
def joinPieces? : List Piece → Option (List Char)
  | [] => some []
  | .char c :: rest => (joinPieces? rest).map (c :: ·)
  | .unit high :: .unit low :: rest =>
    if 0xd800 ≤ high ∧ high < 0xdc00 then
      if 0xdc00 ≤ low ∧ low < 0xe000 then
        (joinPieces? rest).map (Char.ofNat (0x10000 + (high - 0xd800) * 0x400 + (low - 0xdc00)) :: ·)
      else none
    else if 0xdc00 ≤ high ∧ high < 0xe000 then none
    else (joinPieces? (.unit low :: rest)).map (Char.ofNat high :: ·)
  | .unit value :: rest =>
    if 0xd800 ≤ value ∧ value < 0xe000 then none else (joinPieces? rest).map (Char.ofNat value :: ·)

/-! ## Scanning -/

/-- Whether a character can be part of a numeral or of a word such as `true`. -/
def isWordChar (c : Char) : Bool := c.isAlphanum || c = '+' || c = '-' || c = '.'

/-- The token of a word or a numeral. -/
def ofWord? (word : List Char) : Option Token :=
  if word = ['n', 'u', 'l', 'l'] then some (.word (some .null))
  else if word = ['t', 'r', 'u', 'e'] then some (.word (some (.bool true)))
  else if word = ['f', 'a', 'l', 's', 'e'] then some (.word (some (.bool false)))
  else (Numeral.read? word).map fun numeral => .word numeral.toJson?

/-- The token that a character is on its own. -/
def ofBracket? (c : Char) : Option Token :=
  if c = '[' then some .openList
  else if c = ']' then some .closeList
  else if c = '{' then some .openObject
  else if c = '}' then some .closeObject
  else if c = ',' then some .comma
  else if c = ':' then some .colon
  else none

/-- The tokens of a text, or nothing if a part of it is no token. -/
def scan? : List Char → Option (List Token)
  | [] => some []
  | c :: cs =>
    if isBlank c then scan? cs
    else if c = '"' then
      match h : readPieces? cs with
      | none => none
      | some (pieces, rest) =>
        have : rest.length < cs.length := readPieces?_length h
        (scan? rest).map (.text ((joinPieces? pieces).map String.ofList) :: ·)
    else
      match ofBracket? c with
      | some token => (scan? cs).map (token :: ·)
      | none =>
        have : (cs.dropWhile isWordChar).length ≤ cs.length := (List.dropWhile_suffix _).length_le
        match ofWord? (c :: cs.takeWhile isWordChar), scan? (cs.dropWhile isWordChar) with
        | some token, some tokens => some (token :: tokens)
        | _, _ => none
termination_by cs => cs.length

end Token

end EntityGraph.Json
