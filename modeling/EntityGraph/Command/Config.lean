import EntityGraph.Schema.Build
import EntityGraph.Toml.Layout

/-!
# Configuration

A `Config` declares the kinds of a schema, and which pattern variable filters are compiled for when none is asked for.
-/

namespace EntityGraph

/-- The settings of the command line. -/
structure Config where
  defaultVariable : Option String
  kinds : List KindDecl
deriving DecidableEq, Repr

namespace Config

def empty : Config := ⟨none, []⟩

def ofJson? (j : Json) : Option Config :=
  match j.record? ["default_variable", "kinds"] with
  | some [name?, kinds?] => do
    return ⟨← (name?.map fun name => name.string?.map some).getD (some none),
      ← (kinds?.map (Json.listOf? KindDecl.ofJson?)).getD (some [])⟩
  | _ => none

def shape : Json.Shape := .record [("default_variable", .whole), ("kinds", .list KindDecl.shape)]

/-- The configuration that settings hold. -/
def ofSettings? (settings : Json) : Option Config := ofJson? (Toml.arrange shape settings)

/-- The variable that filters are compiled for: the one asked for, else the one configured, else `n`. -/
def patternVariable (config : Config) (asked : Option String) : Except InvalidVariable Variable :=
  Variable.parse (asked.getD (config.defaultVariable.getD "n"))

end Config

end EntityGraph
