import EntityGraph.Filter.Basic
import EntityGraph.Filter.Definition

/-!
# Reading filters

`FilterSchema.parse` reads a JSON value as a filter on a kind. Keys are taken in the order the object has them, and the first
thing that does not fit is reported with the path that leads to it. The readers keep this path as a stack: the step to a part is
pushed before the part is read and popped after it.
-/

namespace EntityGraph

/-- A step from a JSON value to a part of it. -/
inductive Segment
  | key (name : String)
  | index (n : Nat)
deriving DecidableEq, Repr

/-- The way from the root of a filter to a part of it, outermost step first. -/
abbrev Path := List Segment

namespace Path

/-- Adds the text of a step to that of the steps before it. -/
def appendSegment (text : String) : Segment → String
  | .key name => if text.isEmpty then name else text ++ "." ++ name
  | .index n => text ++ "[" ++ toString n ++ "]"

def render (path : Path) : String := if path.isEmpty then "<root>" else path.foldl appendSegment ""

end Path

namespace Filter

/-- A reader of a part of a filter. It is run on the stack of the steps that lead to the part. -/
structure Reader (α : Type) where
  run : Path → Except FilterError α × Path
  /-- A reader that succeeds leaves the stack as it found it. -/
  restores : ∀ {path : Path} {a : α} {after : Path}, run path = (.ok a, after) → after = path

namespace Reader

variable {α β : Type}

instance : Monad Reader where
  pure a := ⟨fun path => (.ok a, path), fun h => (Prod.mk.inj h).2.symm⟩
  bind m f := {
    run := fun path =>
      match m.run path with
      | (.ok a, after) => (f a).run after
      | (.error e, stack) => (.error e, stack)
    restores := by
      intro path b after h
      cases hm : m.run path with
      | mk result middle =>
        rw [hm] at h
        cases result with
        | ok a =>
          obtain rfl := m.restores hm
          exact (f a).restores h
        | error e => cases h }

/-- Gives up with an error that tells where. -/
def fail (error : Path → FilterError) : Reader α where
  run path := (.error (error path), path)
  restores := nofun

/-- A result that does not depend on the place. -/
def lift (result : Except FilterError α) : Reader α where
  run path := (result, path)
  restores h := (Prod.mk.inj h).2.symm

/-- Reads a part. An offence in it leaves the steps to the offence on the stack. -/
def inside (segment : Segment) (m : Reader α) : Reader α where
  run path :=
    match m.run (path ++ [segment]) with
    | (.ok a, after) => (.ok a, after.dropLast)
    | (.error e, stack) => (.error e, stack)
  restores := by
    intro path a after h
    cases hm : m.run (path ++ [segment]) with
    | mk result middle =>
      rw [hm] at h
      cases result with
      | ok value =>
        obtain rfl := m.restores hm
        rw [← (Prod.mk.inj h).2, List.dropLast_concat]
      | error e => cases h

def invalid (expected : String) (found : Json) : Reader α :=
  fail fun path => .invalidValue path.render expected found.typeName

def unknown (key definition : String) : Reader α := fail fun path => .unknownField key definition path.render

end Reader

open Reader

/-! ## Literals and tests -/

/-- The value that a literal gives an attribute of a type. A type for whole numbers takes the integers of 64 signed bits, one for
floating point takes any number. -/
def literal? (type : AttributeType) (j : Json) : Option Value :=
  match type, j with
  | .string, .string s => some (.string s)
  | .id, .string s => some (.string s)
  | .int, .int n => if Json.fitsInt64 n then some (.int (Int64.ofInt n)) else none
  | .float, .int n => some (.float (Binary64.ofInt n))
  | .float, .float x => some (.float x)
  | .boolean, .bool b => some (.bool b)
  | _, _ => none

def parseLiteral (type : AttributeType) (j : Json) : Reader Value :=
  match literal? type j with
  | some value => return value
  | none => invalid type.name j

/-- The literals of a list, from the given index on. -/
def parseLiterals (type : AttributeType) (index : Nat) : List Json → Reader (List Value)
  | [] => return []
  | j :: js => do
    let value ← inside (.index index) (parseLiteral type j)
    return value :: (← parseLiterals type (index + 1) js)

/-- The test that an operator makes with its argument. -/
def parsePredicate (type : AttributeType) (op : Operator) (j : Json) : Reader Predicate :=
  match op.comparison? with
  | some comparison => return .compare comparison (← parseLiteral type j)
  | none =>
    if op = .isIn then
      match j with
      | .list items => return .isIn (← parseLiterals type 0 items)
      | _ => invalid ("list of " ++ type.name) j
    else
      match j with
      | .bool expected => return .isNull expected
      | _ => invalid "boolean" j

/-- The operator with a name, if it is one of those given. -/
def supported? (operators : List Operator) (name : String) : Option Operator :=
  (Operator.ofName? name).filter fun op => operators.contains op

/-- The test under a key. -/
def parseTest (decl : AttributeDecl) (operators : List Operator) (key : String) (j : Json) : Reader Predicate :=
  match supported? operators key with
  | none => unknown key (FilterField.scalar decl operators).typeName
  | some op => parsePredicate decl.type op j

/-- The tests that the members of an object make. -/
def parsePredicates (decl : AttributeDecl) (operators : List Operator) : List (String × Json) → Reader (List Predicate)
  | [] => return []
  | (key, j) :: rest => do
    let predicate ← inside (.key key) (parseTest decl operators key j)
    return predicate :: (← parsePredicates decl operators rest)

/-- The entry for an attribute. -/
def parseScalar (decl : AttributeDecl) (operators : List Operator) (j : Json) : Reader FilterEntry :=
  match j with
  | .object members => return .scalar decl.name (← parsePredicates decl operators members)
  | _ => invalid "object of operators" j

/-! ## Filters -/

mutual

/-- Reads a filter on the kind of a definition. -/
def parseAt (filters : FilterSchema) (definition : FilterDefinition) (j : Json) : Reader (List FilterEntry) :=
  match j with
  | .object members => parseMembers filters definition members
  | _ => invalid "filter object" j

/-- The entries that the members of a filter object give. -/
def parseMembers (filters : FilterSchema) (definition : FilterDefinition) :
    List (String × Json) → Reader (List FilterEntry)
  | [] => return []
  | (key, j) :: rest => do
    let entries ← inside (.key key) <|
      if key = "and" then return [.and (← parseList filters definition j)]
      else if key = "or" then return [.or (← parseList filters definition j)]
      else if key = "not" then return [.not (← parseSingle filters definition j)]
      else
        match definition.fields[key]? with
        | some (.scalar decl operators) => return [← parseScalar decl operators j]
        | some (.related relationship) => parseRelated filters relationship j
        | none => unknown key definition.typeName
    return entries ++ (← parseMembers filters definition rest)

/-- The filters of a list. -/
def parseList (filters : FilterSchema) (definition : FilterDefinition) (j : Json) : Reader (List (List FilterEntry)) :=
  match j with
  | .list items => parseItems filters definition 0 items
  | _ => invalid "list of filter objects" j

/-- The filters of a list, from the given index on. -/
def parseItems (filters : FilterSchema) (definition : FilterDefinition) (index : Nat) :
    List Json → Reader (List (List FilterEntry))
  | [] => return []
  | j :: js => do
    let filter ← inside (.index index) (parseAt filters definition j)
    return filter :: (← parseItems filters definition (index + 1) js)

/-- A filter, or a list that holds one filter and nothing else. -/
def parseSingle (filters : FilterSchema) (definition : FilterDefinition) (j : Json) : Reader (List FilterEntry) :=
  match j with
  | .list [item] => inside (.index 0) (parseAt filters definition item)
  | .object members => parseMembers filters definition members
  | _ => invalid "filter object or single-element list" j

/-- The entries for a relationship, one for each quantifier. -/
def parseRelated (filters : FilterSchema) (relationship : Relationship) (j : Json) : Reader (List FilterEntry) :=
  match j with
  | .object members => parseQuantifiers filters relationship members
  | _ => invalid "object with all, some or none" j

def parseQuantifiers (filters : FilterSchema) (relationship : Relationship) :
    List (String × Json) → Reader (List FilterEntry)
  | [] => return []
  | (key, j) :: rest => do
    let entry ← inside (.key key) <|
      match Quantifier.ofName? key with
      | none => unknown key (FilterField.related relationship).typeName
      | some quantifier => do
        let definition ← lift (filters.definition relationship.relatedKind)
        return .quantified quantifier relationship (← parseAt filters definition j)
    return entry :: (← parseQuantifiers filters relationship rest)

end

end Filter

namespace FilterSchema

/-- The reader of a JSON value as a filter on a kind. -/
def reader (filters : FilterSchema) (kind : String) (j : Json) : Filter.Reader Filter := do
  Filter.parseAt filters (← .lift (filters.definition kind)) j

/-- Reads a JSON value as a filter on a kind, with no steps on the stack at first. -/
def parse (filters : FilterSchema) (kind : String) (j : Json) : Except FilterError Filter :=
  ((filters.reader kind j).run []).1

end FilterSchema

end EntityGraph
