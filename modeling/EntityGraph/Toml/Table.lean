import EntityGraph.Json.Basic

/-!
# TOML tables

The tables of a file of settings while it is read. A table says how it came about, as that decides whether it may still be
extended: each table has one header at most, and what a value holds is closed.
-/

namespace EntityGraph.Toml

/-- How a table came about. -/
inductive Origin
  /-- It has a header. -/
  | header
  /-- The header of a table inside it names it. -/
  | implied
  /-- A key with dots names it. -/
  | dotted
deriving DecidableEq, Repr

/-- What a key stands for. -/
inductive Entry
  | value (j : Json)
  | table (origin : Origin) (members : List (String × Entry))
  /-- A list of tables with a header each, in reverse order. -/
  | tables (items : List (List (String × Entry)))

/-- The keys of a table with what they stand for, in the order in which they came up. -/
abbrev Table := List (String × Entry)

namespace Table

/-- Replaces what a key stands for, or appends the key. -/
def put (key : String) (entry : Entry) : Table → Table
  | [] => [(key, entry)]
  | (name, old) :: rest => if name = key then (key, entry) :: rest else (name, old) :: put key entry rest

/-- Adds a value under a key, which may have dots. -/
def addValue? (value : Json) : List String → Table → Option Table
  | [], _ => none
  | [key], table => if (table.lookup key).isSome then none else some (table.put key (.value value))
  | key :: keys, table =>
    match table.lookup key with
    | none => (addValue? value keys []).map fun inner => table.put key (.table .dotted inner)
    | some (.table .dotted inner) => (addValue? value keys inner).map fun inner => table.put key (.table .dotted inner)
    | some _ => none

/-- Changes the table that a path leads to; tables on the way come about as needed, and of a list of tables the last counts. -/
def changeAt? (change : Option Entry → Option Entry) : List String → Table → Option Table
  | [], _ => none
  | [key], table => (change (table.lookup key)).map fun entry => table.put key entry
  | key :: keys, table =>
    match table.lookup key with
    | none => (changeAt? change keys []).map fun inner => table.put key (.table .implied inner)
    | some (.table origin inner) => (changeAt? change keys inner).map fun inner => table.put key (.table origin inner)
    | some (.tables (last :: items)) =>
      (changeAt? change keys last).map fun last => table.put key (.tables (last :: items))
    | some _ => none

/-- Opens a table by its header. -/
def openTable? (path : List String) (table : Table) : Option Table :=
  changeAt? (fun
    | none => some (.table .header [])
    | some (.table .implied members) => some (.table .header members)
    | some _ => none) path table

/-- Opens a new table of a list by its header. -/
def openItem? (path : List String) (table : Table) : Option Table :=
  changeAt? (fun
    | none => some (.tables [[]])
    | some (.tables items) => some (.tables ([] :: items))
    | some _ => none) path table

/-- Adds a value to the table that is open. -/
def addValueAt? (opened : List String) (keys : List String) (value : Json) (table : Table) : Option Table :=
  if opened.isEmpty then table.addValue? value keys
  else
    changeAt? (fun
      | some (.table origin members) => (addValue? value keys members).map (.table origin)
      | some (.tables (last :: items)) => (addValue? value keys last).map fun last => .tables (last :: items)
      | _ => none) opened table

mutual

/-- The value of an entry. -/
def entryJson : Entry → Json
  | .value j => j
  | .table _ members => .object (membersJson members)
  | .tables items => .list (itemsJson items).reverse

def membersJson : List (String × Entry) → List (String × Json)
  | [] => []
  | (key, entry) :: rest => (key, entryJson entry) :: membersJson rest

def itemsJson : List (List (String × Entry)) → List Json
  | [] => []
  | members :: items => .object (membersJson members) :: itemsJson items

end

def toJson (table : Table) : Json := .object (membersJson table)

end Table

end EntityGraph.Toml
