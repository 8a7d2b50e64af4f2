import EntityGraph.Number.Binary64

/-!
# Decimal text of binary64 numbers

`Binary64.shortest` selects the decimal with the fewest digits among those that round to the number, the nearest of them if
there are several; `DecimalNotation.render` lays the digits out. The decisions of an output format (where exponents begin, how
they are written, which way a tie between two nearest decimals goes) are the fields of a `DecimalNotation`.
-/

namespace EntityGraph

/-- The decimal `digits * 10 ^ exponent`. -/
structure Decimal where
  digits : Nat
  exponent : Int
deriving DecidableEq, Repr

/-- Which of two equally near neighbours a tie goes to. -/
inductive TieRule
  | toEven
  | up
deriving DecidableEq, Repr

namespace Binary64

/-! ## The decimals that read back -/

/-- The lower end of the interval of reals that round to a finite number, in quarters of its last place. The gap to the next
number below is half as wide at a power of two. -/
def lowerEnd (x : Binary64) : Nat :=
  if x.significand = Nat.pow 2 52 ∧ -1074 < x.exponent then 4 * x.significand - 1 else 4 * x.significand - 2

/-- The upper end of that interval. -/
def upperEnd (x : Binary64) : Nat := 4 * x.significand + 2

/-- The ratio of `10 ^ e` to a quarter of the last place of `x`. -/
def gridStep (x : Binary64) (e : Int) : Nat × Nat :=
  let scaled := shifted (Nat.pow 10 e.toNat) (Nat.pow 10 (-e).toNat) (x.exponent - 2)
  (scaled.1, scaled.2)

/-- Whether the decimal `digits * 10 ^ e` rounds to `x`. The ends of the interval belong to it if the significand is even. -/
def readsBack (x : Binary64) (digits : Nat) (e : Int) : Bool :=
  let step := x.gridStep e
  let point := digits * step.1
  let low := x.lowerEnd * step.2
  let high := x.upperEnd * step.2
  (low < point && point < high) || (x.significand % 2 == 0 && (low == point || point == high))

/-- The multiple of `10 ^ e` nearest to `x` that rounds to `x`, if there is one. Only the two neighbours of `x` on that grid come
into question. -/
def onGrid? (x : Binary64) (tie : TieRule) (e : Int) : Option Decimal :=
  let step := x.gridStep e
  let value := 4 * x.significand * step.2
  let below := value / step.1
  let twiceOver := 2 * (value % step.1)
  match x.readsBack below e, x.readsBack (below + 1) e with
  | false, false => none
  | true, false => some ⟨below, e⟩
  | false, true => some ⟨below + 1, e⟩
  | true, true =>
    if twiceOver < step.1 ∨ (twiceOver = step.1 ∧ tie = .toEven ∧ below % 2 = 0) then some ⟨below, e⟩
    else some ⟨below + 1, e⟩

/-- The exact decimal value of a finite number. -/
def exactDecimal (x : Binary64) : Decimal :=
  ⟨x.significand * Nat.pow 2 x.exponent.toNat * Nat.pow 5 (-x.exponent).toNat, min x.exponent 0⟩

/-- A power of ten that no number which rounds to `x` exceeds. -/
def coarsestGrid (x : Binary64) : Int := (((x.significand.log2 : Int) + x.exponent + 2) * 30103) / 100000 + 1

/-- The decimal with the fewest digits that rounds to a finite number other than zero, the nearest one if there are several: the
nearest point on the coarsest decimal grid that has such a point. Seventeen digits suffice for every number, and the grids
searched reach beyond them. -/
def shortest (x : Binary64) (tie : TieRule) : Decimal :=
  ((List.range 25).findSome? fun (i : Nat) => x.onGrid? tie (x.coarsestGrid - i)).getD x.exactDecimal

end Binary64

/-! ## Layout -/

/-- How the digits of a number are laid out. -/
structure DecimalNotation where
  /-- The least exponent of a leading digit that is written without an exponent. -/
  plainFrom : Int
  /-- The first exponent of a leading digit that is written with an exponent again. -/
  plainBelow : Int
  /-- Whether a positive exponent has a plus sign. -/
  exponentPlus : Bool
  tie : TieRule

namespace DecimalNotation

/-- The digits of a decimal without an exponent, at least one of them after the point. -/
def plain (digits : List Char) (exponent : Int) : List Char :=
  if 0 ≤ exponent then digits ++ List.replicate exponent.toNat '0' ++ ['.', '0']
  else
    let places := (-exponent).toNat
    if places < digits.length then
      digits.take (digits.length - places) ++ '.' :: digits.drop (digits.length - places)
    else '0' :: '.' :: List.replicate (places - digits.length) '0' ++ digits

/-- One digit before the point, the others after it, and the exponent of the leading digit. -/
def scientific (layout : DecimalNotation) (digits : List Char) (leading : Int) : List Char :=
  let fraction := if digits.length ≤ 1 then [] else '.' :: digits.drop 1
  let sign := if leading < 0 then ['-'] else if layout.exponentPlus then ['+'] else []
  digits.take 1 ++ fraction ++ 'e' :: sign ++ (toString leading.natAbs).toList

/-- The text of a finite number: the shortest decimal that reads back, in the given layout. Zero keeps its sign. -/
def render (layout : DecimalNotation) (x : Binary64) : String :=
  let sign := if x.isNegative then ['-'] else []
  if x.magnitude = 0 then String.ofList (sign ++ ['0', '.', '0'])
  else
    let decimal := x.shortest layout.tie
    let digits := (toString decimal.digits).toList
    let leading := decimal.exponent + digits.length - 1
    let body :=
      if layout.plainFrom ≤ leading ∧ leading < layout.plainBelow then plain digits decimal.exponent
      else layout.scientific digits leading
    String.ofList (sign ++ body)

end DecimalNotation

end EntityGraph
