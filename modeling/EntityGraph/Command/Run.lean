import EntityGraph.Command.Report
import EntityGraph.Json.Reader

/-!
# Running commands

`Request.run` gives the output of a command, or the error it ends with. The configuration is read first and the schema is
checked; a filter is read and compiled before the dataset is looked at.
-/

namespace EntityGraph

/-- The configuration in a file of settings. Its default variable must be a name. -/
def Config.ofSettings (path : String) : Settings → Except CommandError Config
  | .absent => throw (.unreadableSettings path)
  | .unreadable => throw (.unreadableSettings path)
  | .malformed => throw (.malformedSettings path)
  | .content j =>
    match Config.ofSettings? j with
    | none => throw (.malformedSettings path)
    | some config =>
      match config.defaultVariable.map Variable.parse with
      | some (.error e) => throw (.invalidConfig path e)
      | _ => return config

/-- The JSON of a filter that is given as text or as `@` and a path. -/
def Files.readFilter (files : Files) (filter : String) : Except CommandError Json := do
  let text ← match filter.toList with
    | '@' :: path =>
      match files.text (String.ofList path) with
      | some text => pure text
      | none => throw (CommandError.unreadableFilter (String.ofList path))
    | _ => pure filter
  match Json.read? text with
  | some j => return j.normalize
  | none => throw .malformedFilter

def Files.readDataset (files : Files) (path : String) : Except CommandError Dataset :=
  match files.text path with
  | none => throw (.unreadableDataset path)
  | some text =>
    match Dataset.read? text with
    | some dataset => return dataset
    | none => throw (.malformedDataset path)

namespace Request

/-- The configuration that is asked for, or the default one if there is one. -/
def readConfig (request : Request) (files : Files) : Except CommandError Config :=
  match request.config with
  | some path => Config.ofSettings path (files.settings path)
  | none =>
    match files.settings files.defaultConfig with
    | .absent => return .empty
    | settings => Config.ofSettings files.defaultConfig settings

/-- The configuration with the kinds of the schema file, if one is asked for. -/
def configure (request : Request) (files : Files) : Except CommandError Config := do
  let config ← request.readConfig files
  match request.schema with
  | none => return config
  | some path => return { config with kinds := (← Config.ofSettings path (files.settings path)).kinds }

/-- The condition that a filter on a kind is compiled to, with its variable. -/
def compileFilter (files : Files) (config : Config) (filters : FilterSchema) (kind filter : String) (asked : Option String) :
    Except CommandError (Variable × Condition) := do
  let filter ← filters.parse kind (← files.readFilter filter)
  let subject ← config.patternVariable asked
  return (subject, filter.condition subject)

/-- The output of a command. -/
def run (request : Request) (files : Files) : Except CommandError String := do
  let config ← request.configure files
  if config.kinds.isEmpty then throw .noKinds
  let schema ← Schema.build config.kinds
  let filters ← FilterSchema.build schema
  match request.command with
  | .check =>
    if request.wantsJson then return linesText [schema.summary.pretty]
    else return linesText (if request.quiet then [] else schema.lines)
  | .describe kind? =>
    let descriptions ← match kind? with
      | some kind => do pure [← filters.describe kind]
      | none => pure filters.describeAll
    if request.wantsJson then return linesText [(Json.list (descriptions.map FilterDescription.toJson)).pretty]
    else return linesText (FilterDescription.allLines descriptions)
  | .compile kind filter asked =>
    let (subject, condition) ← compileFilter files config filters kind filter asked
    if request.wantsJson then return linesText [(compiledJson kind subject condition).pretty]
    else return linesText [condition.render]
  | .query kind filter asked data =>
    let (subject, condition) ← compileFilter files config filters kind filter asked
    let store ← (← files.readDataset data).load schema
    let (nodes, _) ← store.query kind subject condition
    let found := nodes.map DatasetNode.ofNode
    if request.wantsJson then return linesText [(Json.list (found.map DatasetNode.toJson)).pretty]
    else return linesText (resultLines kind request.quiet found)

end Request

end EntityGraph
