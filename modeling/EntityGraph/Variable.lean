import EntityGraph.Text.Quoted
import Std.Data.ExtTreeMap

/-!
# Pattern variables

A `Variable` names a node in a pattern. `Variable.parse` admits the names that are safe inside query text; `NameSupply` hands
out variables derived from a root variable, each a different one.
-/

namespace EntityGraph

/-- A variable that stands for a node. -/
structure Variable where
  name : String
deriving DecidableEq, Repr

/-- A text that is no name of a variable. -/
structure InvalidVariable where
  name : String
deriving DecidableEq, Repr

namespace InvalidVariable

def message (e : InvalidVariable) : String :=
  "Invalid pattern variable " ++ Text.Quoted.render e.name ++
    ": expected a letter or '_' followed by letters, digits or '_'"

end InvalidVariable

namespace Variable

instance : Ord Variable := ⟨compareOn name⟩

instance : Std.TransOrd Variable := inferInstanceAs (Std.TransCmp (compareOn name))

instance : Std.LawfulEqOrd Variable where
  eq_of_compare {a b} h := by
    cases a
    cases b
    simp only [mk.injEq]
    exact Std.LawfulEqOrd.eq_of_compare h

/-- The characters a name may begin with: the letters of ASCII and the underscore. -/
def isInitial (c : Char) : Bool := c.isAlpha || c == '_'

/-- The characters a name may go on with. -/
def isSubsequent (c : Char) : Bool := c.isAlphanum || c == '_'

/-- Whether a text is a name: an initial character followed by subsequent ones. -/
def isName : List Char → Bool
  | [] => false
  | c :: cs => isInitial c && cs.all isSubsequent

/-- The variable with the given name, if the text is a name. -/
def parse (name : String) : Except InvalidVariable Variable :=
  if isName name.toList then .ok ⟨name⟩ else .error ⟨name⟩

end Variable

/-- A supply of variables derived from a root: the root's name, `_r` and a number that counts up. -/
structure NameSupply where
  root : Variable
  next : Nat := 0
deriving DecidableEq, Repr

namespace NameSupply

/-- The variable with a number. -/
def numbered (root : Variable) (n : Nat) : Variable := ⟨root.name ++ "_r" ++ toString n⟩

/-- The next variable, and the supply after it. -/
def fresh (names : NameSupply) : Variable × NameSupply :=
  (numbered names.root names.next, { names with next := names.next + 1 })

end NameSupply

end EntityGraph
