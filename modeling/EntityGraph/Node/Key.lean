import Std.Data.ExtTreeMap
import Std.Data.ExtTreeSet

/-!
# Node keys

A `NodeKey` identifies a node in memory, whether or not it has an id in a store. Keys are 128-bit numbers and are ordered as
numbers; their text is a numeral in base 32.
-/

namespace EntityGraph

/-- The identity of a node in memory. -/
structure NodeKey where
  val : Nat
deriving DecidableEq, Repr

namespace NodeKey

instance : Ord NodeKey := ⟨compareOn val⟩

instance : Std.TransOrd NodeKey := inferInstanceAs (Std.TransCmp (compareOn val))

instance : Std.LawfulEqOrd NodeKey where
  eq_of_compare {a b} h := by
    cases a
    cases b
    simp only [mk.injEq]
    exact Std.LawfulEqOrd.eq_of_compare h

/-- The digits of base 32: the decimal ones and the capital letters except I, L, O and U. -/
def digits : List Char := "0123456789ABCDEFGHJKMNPQRSTVWXYZ".toList

/-- The last digits of a number in base 32, as many as stated. -/
def lastDigits : Nat → Nat → List Char
  | 0, _ => []
  | count + 1, n => lastDigits count (n / 32) ++ [digits.getD (n % 32) '0']

/-- The text of a key: 26 digits in base 32, which hold 128 bits. -/
def text (key : NodeKey) : String := String.ofList (lastDigits 26 key.val)

end NodeKey

/-- A set of nodes, in the order of their keys. -/
abbrev KeySet := Std.ExtTreeSet NodeKey

end EntityGraph
