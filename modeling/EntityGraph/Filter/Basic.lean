import EntityGraph.Filter.Operator
import EntityGraph.Schema.Basic

/-!
# Filters

A filter on nodes of a kind is a list of entries that must all hold. `Filter.condition` compiles it to a condition on the node
that a variable stands for. Every quantified entry takes a variable of its own from a supply that runs through the whole filter
in reading order.
-/

namespace EntityGraph

/-- A test of an attribute. -/
inductive Predicate
  | compare (op : Comparison) (value : Value)
  | isIn (values : List Value)
  /-- Whether the attribute is null is as stated. -/
  | isNull (expected : Bool)
deriving DecidableEq, Repr

namespace Predicate

/-- The condition that the test holds of an attribute of the node that a variable stands for. -/
def condition (subject : Variable) (attr : String) : Predicate → Condition
  | .compare op value => .compare subject attr op value
  | .isIn values => .isIn subject attr values
  | .isNull true => .isNull subject attr
  | .isNull false => .not (.isNull subject attr)

end Predicate

/-- An entry of a filter; a filter is a list of entries. -/
inductive FilterEntry
  /-- All tests hold of the attribute. -/
  | scalar (attr : String) (predicates : List Predicate)
  | and (filters : List (List FilterEntry))
  | or (filters : List (List FilterEntry))
  | not (filter : List FilterEntry)
  /-- The filter holds of all, of some or of none of the related nodes. -/
  | quantified (quantifier : Quantifier) (relationship : Relationship) (filter : List FilterEntry)

/-- A filter on nodes of one kind. -/
abbrev Filter := List FilterEntry

mutual

/-- The condition that an entry holds of the node that a variable stands for, and the supply of variables left. -/
def FilterEntry.compile (subject : Variable) : FilterEntry → NameSupply → Condition × NameSupply
  | .scalar attr predicates, names => (.allOf (predicates.map (Predicate.condition subject attr)), names)
  | .and filters, names =>
    let compiled := compileFilters subject filters names
    (.allOf compiled.1, compiled.2)
  | .or filters, names =>
    let compiled := compileFilters subject filters names
    (.anyOf compiled.1, compiled.2)
  | .not filter, names =>
    let compiled := compileEntries subject filter names
    (.not (.allOf compiled.1), compiled.2)
  | .quantified quantifier relationship filter, names =>
    let related := names.fresh
    let compiled := compileEntries related.1 filter related.2
    (.quantified quantifier (relationship.pattern subject related.1) (.allOf compiled.1), compiled.2)

/-- The conditions of the entries of a filter. -/
def FilterEntry.compileEntries (subject : Variable) : List FilterEntry → NameSupply → List Condition × NameSupply
  | [], names => ([], names)
  | entry :: entries, names =>
    let first := entry.compile subject names
    let others := compileEntries subject entries first.2
    (first.1 :: others.1, others.2)

/-- The conditions of several filters. -/
def FilterEntry.compileFilters (subject : Variable) : List (List FilterEntry) → NameSupply → List Condition × NameSupply
  | [], names => ([], names)
  | filter :: filters, names =>
    let first := compileEntries subject filter names
    let others := compileFilters subject filters first.2
    (.allOf first.1 :: others.1, others.2)

end

/-- The condition that an entry by itself holds of the node that a variable stands for. -/
def FilterEntry.condition (entry : FilterEntry) (subject : Variable) : Condition := (entry.compile subject ⟨subject, 0⟩).1

namespace Filter

/-- The condition that a filter holds of the node that a variable stands for. -/
def condition (filter : Filter) (subject : Variable) : Condition :=
  .allOf (FilterEntry.compileEntries subject filter ⟨subject, 0⟩).1

end Filter

end EntityGraph
