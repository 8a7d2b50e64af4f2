import EntityGraph.Command.Config
import EntityGraph.Dataset
import EntityGraph.Filter.Description
import EntityGraph.Filter.Parser
import EntityGraph.Toml.Reader

/-!
# Commands

What the command line is asked to do (`Request`), the files it may read (`Files`), and the errors it can end with.
-/

namespace EntityGraph

/-- The commands, with their arguments. A filter is given as text, or as `@` and the path of a file. -/
inductive Command
  /-- Checks the schema. -/
  | check
  /-- Describes the filters on one kind, or on all. -/
  | describe (kind : Option String)
  /-- Compiles a filter on a kind to a condition. -/
  | compile (kind filter : String) (asked : Option String)
  /-- Runs a filter on a kind against a dataset. -/
  | query (kind filter : String) (asked : Option String) (data : String)
deriving DecidableEq, Repr

/-- A command with the options that all commands have. -/
structure Request where
  /-- The path of the configuration, if one is given. -/
  config : Option String
  /-- The path of a file whose kinds take the place of those configured. -/
  schema : Option String
  format : String
  quiet : Bool
  command : Command
deriving DecidableEq, Repr

/-- Output is JSON if the format is `json`, in capital or small letters, and text otherwise. -/
def Request.wantsJson (request : Request) : Bool := request.format.map Char.toLower == "json"

/-- What a file of settings holds. -/
inductive Settings
  /-- There is no such file. -/
  | absent
  /-- It cannot be read as text. -/
  | unreadable
  /-- It is no file of settings. -/
  | malformed
  | content (value : Json)

/-- What a text of settings holds. -/
def Settings.ofText (text : String) : Settings :=
  match Toml.read? text with
  | some j => .content j
  | none => .malformed

/-- The files that a command can read, by path. -/
structure Files where
  /-- The path of the configuration that is used if none is given. -/
  defaultConfig : String
  settings : String → Settings
  text : String → Option String

/-- Why a command fails. -/
inductive CommandError
  | unreadableSettings (path : String)
  | malformedSettings (path : String)
  | invalidConfig (path : String) (cause : InvalidVariable)
  | noKinds
  | schema (error : SchemaError)
  | filter (error : FilterError)
  | unreadableFilter (path : String)
  | malformedFilter
  | variableName (error : InvalidVariable)
  | unreadableDataset (path : String)
  | malformedDataset (path : String)
  | dataset (error : DatasetError)
  | store (error : StoreError)
deriving DecidableEq, Repr

namespace CommandError

def message : CommandError → String
  | .unreadableSettings path => "Failed to read " ++ path
  | .malformedSettings path => "Failed to parse " ++ path
  | .invalidConfig path _ => "Invalid config " ++ path
  | .noKinds => "No entity kinds declared; pass --config or --schema"
  | .schema e => e.message
  | .filter e => e.message
  | .unreadableFilter path => "Failed to read filter file " ++ path
  | .malformedFilter => "Filter is not valid JSON"
  | .variableName e => e.message
  | .unreadableDataset path => "Failed to read dataset " ++ path
  | .malformedDataset path => "Failed to parse dataset " ++ path
  | .dataset e => e.message
  | .store e => e.message NodeKey.text

/-- What lies behind an error, where that is an error of its own. -/
def cause? : CommandError → Option String
  | .invalidConfig _ cause => some cause.message
  | _ => none

instance : MonadLift (Except SchemaError) (Except CommandError) := ⟨Except.mapError .schema⟩

instance : MonadLift (Except FilterError) (Except CommandError) := ⟨Except.mapError .filter⟩

instance : MonadLift (Except InvalidVariable) (Except CommandError) := ⟨Except.mapError .variableName⟩

instance : MonadLift (Except DatasetError) (Except CommandError) := ⟨Except.mapError .dataset⟩

instance : MonadLift (Except StoreError) (Except CommandError) := ⟨Except.mapError .store⟩

end CommandError

end EntityGraph
