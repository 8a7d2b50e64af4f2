import EntityGraph.Json.Shape

/-!
# Written values

A text that is well formed may still write something that has no value: a number beyond the finite ones, or a string with one half
of a pair of units. `Written` keeps such a text apart from its value. `Written.value?` asks for the value of all that is written,
`Written.select?` for the parts that a shape names.
-/

namespace EntityGraph.Json

/-- A value as it is written. Scalars and keys that stand for nothing are `none`. -/
inductive Written
  | scalar (value? : Option Json)
  | list (items : List Written)
  | object (members : List (Option String × Written))

namespace Written

/-- How deep lists and objects may be nested. -/
def maxDepth : Nat := 127

mutual

/-- The value of all that is written, if lists and objects are nested no deeper than stated. -/
def valueWithin? (depth : Nat) : Written → Option Json
  | .scalar value? => value?
  | .list items => if depth = 0 then none else (itemsWithin? (depth - 1) items).map .list
  | .object members => if depth = 0 then none else (membersWithin? (depth - 1) members).map .object

def itemsWithin? (depth : Nat) : List Written → Option (List Json)
  | [] => some []
  | w :: ws => do return (← w.valueWithin? depth) :: (← itemsWithin? depth ws)

def membersWithin? (depth : Nat) : List (Option String × Written) → Option (List (String × Json))
  | [] => some []
  | (key?, w) :: rest => do return (← key?, ← w.valueWithin? depth) :: (← membersWithin? depth rest)

end

/-- The value of all that is written. -/
def value? (w : Written) : Option Json := w.valueWithin? maxDepth

mutual

/-- The parts that a shape names. Members that a record does not name are left out, and need not have a value; their keys need
one. -/
def select? : Shape → Written → Option Json
  | .list item, .list items => (selectItems? item items).map .list
  | .record fields, .list items => (selectFields? (fields.map Prod.snd) items).map .list
  | .record fields, .object members => (selectMembers? fields members).map .object
  | _, w => w.value?

def selectItems? (item : Shape) : List Written → Option (List Json)
  | [] => some []
  | w :: ws => do return (← w.select? item) :: (← selectItems? item ws)

/-- The fields of a record that is written as a list; there may be items beyond the fields. -/
def selectFields? : List Shape → List Written → Option (List Json)
  | _, [] => some []
  | [], w :: ws => do return (← w.value?) :: (← selectFields? [] ws)
  | shape :: shapes, w :: ws => do return (← w.select? shape) :: (← selectFields? shapes ws)

def selectMembers? (fields : List (String × Shape)) : List (Option String × Written) → Option (List (String × Json))
  | [] => some []
  | (key?, w) :: rest => do
    let key ← key?
    match fields.lookup key with
    | none => selectMembers? fields rest
    | some shape => return (key, ← w.select? shape) :: (← selectMembers? fields rest)

end

end Written

end EntityGraph.Json
