import EntityGraph.Command.Arguments
import EntityGraph.Command.Run

/-!
# The command line program

Reads the files that a command needs, runs it, and prints its output or the error. The program looks for its configuration
under the name that it is installed by: first in the variable of the environment that has the name in capital letters with
`_CONFIG` after it, then in the directory of configurations.
-/

namespace EntityGraph

/-- The text of a file, or nothing if it cannot be read. -/
def readText (path : String) : IO (Option String) :=
  tryCatch (do return some (← IO.FS.readFile path)) fun _ => return none

/-- A file of settings. One that can be opened but is no text counts as unreadable. -/
def readSettings (path : String) : IO Settings := do
  match ← readText path with
  | some text => return .ofText text
  | none => tryCatch (do let _ ← IO.FS.readBinFile path; return .unreadable) fun _ => return .absent

/-- The name that the program is installed by. -/
def programName : IO String := do
  let path := (toString (← IO.appPath)).toList
  return String.ofList (path.reverse.takeWhile (· ≠ '/')).reverse

/-- The path of the configuration that is used if none is named. -/
def defaultConfigPath (program : String) : IO String := do
  let directory ← match ← IO.getEnv "XDG_CONFIG_HOME" with
    | some path => if path.startsWith "/" then pure path else homeConfig
    | none => homeConfig
  return directory ++ "/" ++ program ++ "/" ++ program ++ ".toml"
where
  homeConfig : IO String := do
    match ← IO.getEnv "HOME" with
    | some home => return home ++ "/.config"
    | none => return "."

/-- The files that a request needs, read. -/
def readFiles (request : Request) (defaultConfig : String) : IO Files := do
  let paths := request.config.getD defaultConfig :: request.schema.toList
  let settings ← paths.mapM fun path => return (path, ← readSettings path)
  let texts ← request.textPaths.mapM fun path => return (path, ← readText path)
  return {
    defaultConfig := defaultConfig
    settings := fun path => (settings.lookup path).getD .absent
    text := fun path => (texts.lookup path).join }

end EntityGraph

open EntityGraph in
/-- Runs the command that the arguments ask for. -/
def main (arguments : List String) : IO UInt32 := do
  let program ← programName
  let configElsewhere ← IO.getEnv (program.map Char.toUpper ++ "_CONFIG")
  match Request.ofArguments configElsewhere arguments with
  | .error e =>
    IO.eprintln ("error: " ++ e.message)
    return 2
  | .ok request =>
    match request.run (← readFiles request (← defaultConfigPath program)) with
    | .ok output =>
      IO.print output
      return 0
    | .error e =>
      IO.eprintln ("Error: " ++ e.message)
      match e.cause? with
      | some cause => IO.eprintln ("\nCaused by:\n    " ++ cause)
      | none => pure ()
      return 1
