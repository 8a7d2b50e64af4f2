import EntityGraph.Command.Basic

/-!
# Command line arguments

`Request.ofArguments` reads the arguments of the command line. Options may stand anywhere among them; an option that takes a value
has it in the next argument, or after an equals sign, or right after its letter.
-/

namespace EntityGraph

/-- An option of the command line. -/
inductive CommandOption
  | config
  | schema
  | format
  | data
  | asked
  | quiet
  | verbose
deriving DecidableEq, Repr

namespace CommandOption

def ofName? (name : String) : Option CommandOption :=
  [("config", config), ("schema", schema), ("format", format), ("data", data), ("var", asked), ("quiet", quiet),
    ("verbose", verbose)].lookup name

def ofLetter? (letter : Char) : Option CommandOption :=
  [('c', config), ('s', schema), ('f', format), ('d', data), ('q', quiet), ('v', verbose)].lookup letter

def takesValue : CommandOption → Bool
  | .quiet => false
  | .verbose => false
  | _ => true

end CommandOption

/-- Arguments, sorted. Options without a value have an empty one. -/
structure Arguments where
  options : List (CommandOption × String)
  /-- The arguments that are no options. -/
  operands : List String
deriving DecidableEq, Repr

/-- What is wrong with the arguments. -/
inductive UsageError
  | unknownOption (text : String)
  | missingValue (text : String)
  | unexpectedValue (text : String)
  | noSuchCommand (operands : List String)
deriving DecidableEq, Repr

def UsageError.message : UsageError → String
  | .unknownOption text => "unexpected argument " ++ text
  | .missingValue text => "a value is required for " ++ text
  | .unexpectedValue text => "no value is expected for " ++ text
  | .noSuchCommand [] => "no command; expected check, describe, compile or query"
  | .noSuchCommand operands => "not a command: " ++ " ".intercalate operands

namespace Arguments

def withOption (args : Arguments) (option : CommandOption) (value : String) : Arguments :=
  { args with options := args.options ++ [(option, value)] }

/-- The option that a letter stands for among others behind one dash; what is behind one that takes a value is the value. -/
def readLetters (args : Arguments) : List Char → Except UsageError (Arguments × Option (CommandOption × Char))
  | [] => return (args, none)
  | letter :: rest =>
    match CommandOption.ofLetter? letter with
    | none => throw (.unknownOption ("-" ++ String.singleton letter))
    | some option =>
      if !option.takesValue then readLetters (args.withOption option "") rest
      else
        match rest with
        | [] => return (args, some (option, letter))
        | '=' :: value => return (args.withOption option (String.ofList value), none)
        | value => return (args.withOption option (String.ofList value), none)

/-- Sorts the arguments. An option whose value is still awaited takes the next one. -/
def read (args : Arguments) (awaiting : Option (CommandOption × String)) : List String → Except UsageError Arguments
  | [] =>
    match awaiting with
    | some (_, text) => throw (.missingValue text)
    | none => return args
  | arg :: rest =>
    match awaiting, arg.toList with
    | some (option, _), _ => read (args.withOption option arg) none rest
    | none, ['-', '-'] => return { args with operands := args.operands ++ rest }
    | none, '-' :: '-' :: long =>
      let name := String.ofList (long.takeWhile (· ≠ '='))
      match CommandOption.ofName? name, long.dropWhile (· ≠ '=') with
      | none, _ => throw (.unknownOption arg)
      | some option, [] =>
        if option.takesValue then read args (some (option, arg)) rest else read (args.withOption option "") none rest
      | some option, _ :: value =>
        if option.takesValue then read (args.withOption option (String.ofList value)) none rest
        else throw (.unexpectedValue arg)
    | none, '-' :: letter :: letters => do
      let (args, awaiting) ← args.readLetters (letter :: letters)
      read args (awaiting.map fun (option, letter) => (option, "-" ++ String.singleton letter)) rest
    | none, _ => read { args with operands := args.operands ++ [arg] } none rest

/-- The value of an option; if it is given several times, the last counts. -/
def value? (args : Arguments) (option : CommandOption) : Option String := args.options.reverse.lookup option

end Arguments

namespace Request

/-- The request that arguments make. The configuration may also be named elsewhere, which counts if the arguments do not. -/
def ofArguments (configElsewhere : Option String) (arguments : List String) : Except UsageError Request := do
  let args ← Arguments.read ⟨[], []⟩ none arguments
  let asked := args.value? .asked
  let command ← match args.operands, args.value? .data with
    | ["check"], _ => pure Command.check
    | ["describe"], _ => pure (Command.describe none)
    | ["describe", kind], _ => pure (Command.describe (some kind))
    | ["compile", kind, filter], _ => pure (Command.compile kind filter asked)
    | ["query", kind, filter], some data => pure (Command.query kind filter asked data)
    | ["query", _, _], none => throw (UsageError.missingValue "--data")
    | operands, _ => throw (UsageError.noSuchCommand operands)
  return {
    config := args.value? .config <|> configElsewhere
    schema := args.value? .schema
    format := (args.value? .format).getD "text"
    quiet := (args.value? .quiet).isSome
    command := command }

/-- The paths of the texts that a command reads. -/
def textPaths (request : Request) : List String :=
  let ofFilter (filter : String) : List String :=
    match filter.toList with
    | '@' :: path => [String.ofList path]
    | _ => []
  match request.command with
  | .check => []
  | .describe _ => []
  | .compile _ filter _ => ofFilter filter
  | .query _ filter _ data => data :: ofFilter filter

end Request

end EntityGraph
