import EntityGraph.Toml.Token

/-!
# TOML words

The values that are written without quotes: truth values, numbers and dates. Dates have no place among settings, so that a date
is kept as an object, which no setting can be.
-/

namespace EntityGraph.Toml

/-- The digits that a character may be in a base up to sixteen. -/
def digitOf? (base : Nat) (c : Char) : Option Nat := (Json.Token.hexDigit? c).filter (· < base)

/-- The digits of a number. An underscore may stand between two digits. -/
def digitsOf? (base : Nat) : List Char → Option (List Nat)
  | [] => none
  | [c] => (digitOf? base c).map fun d => [d]
  | c :: '_' :: cs =>
    match digitOf? base c, digitsOf? base cs with
    | some d, some ds => some (d :: ds)
    | _, _ => none
  | c :: cs =>
    match digitOf? base c, digitsOf? base cs with
    | some d, some ds => some (d :: ds)
    | _, _ => none

/-- A natural number in a base. -/
def naturalOf? (base : Nat) (cs : List Char) : Option Nat :=
  (digitsOf? base cs).map fun ds => ds.foldl (fun n d => base * n + d) 0

/-- An integer of 64 bits. -/
def intOf? (negative : Bool) (n : Nat) : Option Json :=
  let i : Int := if negative then -n else n
  if Json.fitsInt64 i then some (.int i) else none

/-- Decimal digits without a leading zero. -/
def plainDigits? (cs : List Char) : Option (List Nat) :=
  match digitsOf? 10 cs with
  | some (0 :: _ :: _) => none
  | ds => ds

/-- The exponent after its letter. -/
def exponentOf? : List Char → Option Int
  | '-' :: cs => (naturalOf? 10 cs).map fun n => -(n : Int)
  | '+' :: cs => (naturalOf? 10 cs).map Int.ofNat
  | cs => (naturalOf? 10 cs).map Int.ofNat

/-- A number with a fraction or an exponent, after its sign. Exponents beyond any finite number are cut. -/
def floatOf? (negative : Bool) (cs : List Char) : Option Json := do
  let isE (c : Char) : Bool := c = 'e' || c = 'E'
  let mantissa := cs.takeWhile fun c => !isE c
  let exponent ← match cs.dropWhile fun c => !isE c with
    | [] => some 0
    | _ :: e => exponentOf? e
  let whole ← plainDigits? (mantissa.takeWhile (· ≠ '.'))
  let fraction ← match mantissa.dropWhile (· ≠ '.') with
    | [] => some []
    | _ :: f => digitsOf? 10 f
  let n := Json.Numeral.ofDigits (whole ++ fraction)
  let e := max (-5000) (min 5000 (exponent - fraction.length))
  return .float (.ofRatio negative (n * Nat.pow 10 e.toNat) (Nat.pow 10 (-e).toNat))

/-- A number after its sign. -/
def numberOf? (negative : Bool) (cs : List Char) : Option Json :=
  if cs = "inf".toList then some (.float (.infinity negative))
  else if cs = "nan".toList then some (.float .nan)
  else
    match plainDigits? cs with
    | some ds => intOf? negative (Json.Numeral.ofDigits ds)
    | none => floatOf? negative cs

/-- A text with a zero for every digit. -/
def shape (cs : List Char) : List Char := cs.map fun c => if c.isDigit then '0' else c

/-- Whether a text is the offset of a time from the universal time, or nothing. -/
def isOffset (cs : List Char) : Bool :=
  [[], ['Z'], ['z'], "+00:00".toList, "-00:00".toList].contains (shape cs)

/-- Whether a text is a time of day, with a fraction of the second and an offset perhaps. -/
def isTime (cs : List Char) : Bool :=
  shape (cs.take 8) = "00:00:00".toList &&
    match cs.drop 8 with
    | '.' :: rest => !(rest.takeWhile Char.isDigit).isEmpty && isOffset (rest.dropWhile Char.isDigit)
    | rest => isOffset rest

def isDay (cs : List Char) : Bool := shape cs = "0000-00-00".toList

/-- Whether a word is a day, a time of day, or both. -/
def isDate (cs : List Char) : Bool :=
  isTime cs || (isDay (cs.take 10) &&
    match cs.drop 10 with
    | [] => true
    | c :: time => (c = 'T' || c = 't') && isTime time)

/-- The value that a word writes. -/
def scalarOf? (word : List Char) : Option Json :=
  if word = "true".toList then some (.bool true)
  else if word = "false".toList then some (.bool false)
  else if isDate word then some (.object [("date", .string (String.ofList word))])
  else
    match word with
    | '0' :: 'x' :: cs => (naturalOf? 16 cs).bind (intOf? false)
    | '0' :: 'o' :: cs => (naturalOf? 8 cs).bind (intOf? false)
    | '0' :: 'b' :: cs => (naturalOf? 2 cs).bind (intOf? false)
    | '-' :: cs => numberOf? true cs
    | '+' :: cs => numberOf? false cs
    | cs => numberOf? false cs

end EntityGraph.Toml
