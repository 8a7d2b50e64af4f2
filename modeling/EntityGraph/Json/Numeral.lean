import EntityGraph.Json.Basic

/-!
# JSON numerals

`Numeral.read?` takes a written number apart. `Numeral.toJson?` gives its value: an integer, if it has no fraction and exponent
and fits 64 bits, and otherwise a floating-point number. The latter is formed in 64 bits: the leading digits, as many as fit,
are the significand, digits after them only move the exponent, and the significand is then scaled by a power of ten, with one
rounding for each of these steps. A number beyond the finite ones is refused.
-/

namespace EntityGraph

namespace Binary64

/-- The power of ten nearest to `10 ^ n`. -/
def tenTo (n : Nat) : Binary64 := ofNat (Nat.pow 10 n)

/-- Divides by `10^308` as often as the count says, and stops at zero. -/
def divTenTo308 (x : Binary64) : Nat → Binary64
  | 0 => x
  | n + 1 => if x.magnitude = 0 then x else divTenTo308 (x.div (tenTo 308)) n

/-- The finite number `x * 10 ^ e`, rounded after each multiplication or division, or nothing if it is infinite. Powers of ten
below `10^-308` are applied in several steps. -/
def scaleTen? (x : Binary64) (e : Int) : Option Binary64 :=
  if 0 ≤ e then
    if x.magnitude = 0 then some x
    else if 308 < e then none
    else
      let y := x.mul (tenTo e.toNat)
      if y.isFinite then some y else none
  else
    -- whole steps as long as the rest is below 10^-308, then one division by what is left
    let steps := ((-e).toNat - 1) / 308
    some ((x.divTenTo308 steps).div (tenTo ((-e).toNat - 308 * steps)))

end Binary64

namespace Json

/-- A written number, taken apart. -/
structure Numeral where
  negative : Bool
  /-- The digits before the point. -/
  whole : List Nat
  /-- The digits after the point. -/
  fraction : List Nat
  /-- The exponent, if one is written. -/
  exponent : Option Int
deriving DecidableEq, Repr

namespace Numeral

def digit? (c : Char) : Option Nat := if c.isDigit then some (c.toNat - '0'.toNat) else none

/-- The digits at the front of a text, and the rest of it. -/
def readDigits : List Char → List Nat × List Char
  | [] => ([], [])
  | c :: cs =>
    match digit? c with
    | some d => (d :: (readDigits cs).1, (readDigits cs).2)
    | none => ([], c :: cs)

/-- The number that digits write. -/
def ofDigits (digits : List Nat) : Nat := digits.foldl (fun n d => 10 * n + d) 0

/-- Reads the exponent at the end of a number, after its mark. -/
def readExponent? : List Char → Option Int
  | '-' :: cs => (magnitude? cs).map fun n => -(n : Int)
  | '+' :: cs => (magnitude? cs).map fun n => (n : Int)
  | cs => (magnitude? cs).map fun n => (n : Int)
where
  /-- A sequence of at least one digit and nothing else. -/
  magnitude? (cs : List Char) : Option Nat :=
    match readDigits cs with
    | (d :: ds, []) => some (ofDigits (d :: ds))
    | _ => none

/-- The end of a numeral: nothing, or an exponent. -/
def readEnd? (numeral : Numeral) : List Char → Option Numeral
  | [] => some numeral
  | c :: cs =>
    if c = 'e' ∨ c = 'E' then (readExponent? cs).map fun e => { numeral with exponent := some e } else none

/-- Reads a number without sign. Its whole part has no leading zero, and a point has digits on both sides. -/
def readUnsigned? (negative : Bool) (cs : List Char) : Option Numeral :=
  match readDigits cs with
  | ([], _) => none
  | (0 :: _ :: _, _) => none
  | (whole, '.' :: rest) =>
    match readDigits rest with
    | ([], _) => none
    | (fraction, rest) => readEnd? ⟨negative, whole, fraction, none⟩ rest
  | (whole, rest) => readEnd? ⟨negative, whole, [], none⟩ rest

/-- Reads a whole text as a number. -/
def read? : List Char → Option Numeral
  | '-' :: cs => readUnsigned? true cs
  | cs => readUnsigned? false cs

/-- Appends digits to a significand as long as it fits 64 bits; the second part counts the digits left out. -/
def absorb (significand : Nat) : List Nat → Nat × Nat
  | [] => (significand, 0)
  | d :: ds =>
    if 10 * significand + d < UInt64.size then absorb (10 * significand + d) ds else (significand, ds.length + 1)

/-- The floating-point number that a numeral stands for, or nothing if it is beyond the finite ones. -/
def toFloat? (numeral : Numeral) : Option Binary64 :=
  let whole := absorb 0 numeral.whole
  let all := absorb whole.1 numeral.fraction
  let places : Int := (numeral.fraction.length : Int) - all.2
  let scaled? := (Binary64.ofNat all.1).scaleTen? (whole.2 - places + numeral.exponent.getD 0)
  scaled?.map fun x => if numeral.negative then x.neg else x

/-- The value of a numeral. Negative zero is a floating-point number, as integers have one zero only. -/
def toJson? (numeral : Numeral) : Option Json :=
  let n := ofDigits numeral.whole
  if numeral.fraction.isEmpty && numeral.exponent.isNone then
    if !numeral.negative && n < UInt64.size then some (.int n)
    else if numeral.negative && 0 < n && fitsInt64 (-n) then some (.int (-n))
    else numeral.toFloat?.map .float
  else numeral.toFloat?.map .float

end Numeral

end Json

end EntityGraph
