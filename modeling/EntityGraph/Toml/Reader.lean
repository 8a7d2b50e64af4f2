import EntityGraph.Toml.Scalar
import EntityGraph.Toml.Table

/-!
# Reading TOML

`Toml.read?` reads a text of settings as an object. A text is a sequence of lines; each is empty, assigns a value to a key, or
is the header of a table that the lines after it belong to. Lists and tables inside a value may be nested 79 deep, and a key has
79 names at most. Every step of the reader takes a token, so the number of tokens bounds the steps.
-/

namespace EntityGraph.Toml

/-- How deep the lists and tables of a value may be nested, and how many names a key may have. -/
def maxDepth : Nat := 79

/-- What a word holds at the place of a key: names, with `none` for each dot. -/
def wordPieces : List Char → List (Option (List Char))
  | [] => []
  | '.' :: cs => none :: wordPieces cs
  | c :: cs =>
    match wordPieces cs with
    | some name :: rest => some (c :: name) :: rest
    | rest => some [c] :: rest

/-- The pieces of a key, up to the first token that cannot be part of one. -/
def keyPieces : List Token → List (Option (List Char)) × List Token
  | .word chars :: ts => (wordPieces chars ++ (keyPieces ts).1, (keyPieces ts).2)
  | .quoted chars false :: ts => (some chars :: (keyPieces ts).1, (keyPieces ts).2)
  | ts => ([], ts)

/-- The names of a key, if there is a dot between each two of them and nowhere else. -/
def namesOf? : List (Option (List Char)) → Option (List String)
  | [some name] => some [String.ofList name]
  | some name :: none :: rest => (namesOf? rest).map (String.ofList name :: ·)
  | _ => none

/-- Whether the words in a key hold only what may stand there without quotes. -/
def isKeyToken : Token → Bool
  | .word chars => chars.all fun c => c ≠ '+' && c ≠ ':'
  | _ => true

/-- Reads a key: its names, and the rest. -/
def readKey? (ts : List Token) : Option (List String × List Token) :=
  let (pieces, rest) := keyPieces ts
  if (ts.take (ts.length - rest.length)).all isKeyToken then
    (namesOf? pieces).bind fun names => if names.length ≤ maxDepth then some (names, rest) else none
  else none

def skipLineEnds (ts : List Token) : List Token := ts.dropWhile (· = .lineEnd)

/-- A day and the time after it are two words for one value. -/
def skipTime (word : List Char) : List Token → List Token
  | .word time :: ts => if isDay word ∧ isTime time then ts else .word time :: ts
  | ts => ts

mutual

/-- Reads a value nested as deep as stated, in as many steps as stated at most. -/
def readValue? (depth : Nat) : Nat → List Token → Option (Json × List Token)
  | 0, _ => none
  | _ + 1, .quoted text _ :: ts => some (.string (String.ofList text), ts)
  | _ + 1, .word word :: ts => (scalarOf? word).map fun j => (j, skipTime word ts)
  | n + 1, .mark '[' :: ts =>
    if depth < maxDepth then
      (readItems? (depth + 1) n (skipLineEnds ts)).map fun (items, rest) => (.list items, rest)
    else none
  | n + 1, .mark '{' :: .mark '}' :: ts => if depth < maxDepth ∧ n ≠ 0 then some (.object [], ts) else none
  | n + 1, .mark '{' :: ts =>
    if depth < maxDepth then (readMembers? (depth + 1) n [] ts).map fun (table, rest) => (table.toJson, rest) else none
  | _ + 1, _ => none

/-- Reads the items of a list. A comma may follow the last one. -/
def readItems? (depth : Nat) : Nat → List Token → Option (List Json × List Token)
  | 0, _ => none
  | _ + 1, .mark ']' :: ts => some ([], ts)
  | n + 1, ts =>
    match readValue? depth n ts with
    | none => none
    | some (j, rest) =>
      match skipLineEnds rest with
      | .mark ',' :: rest => (readItems? depth n (skipLineEnds rest)).map fun (js, rest) => (j :: js, rest)
      | .mark ']' :: rest => some ([j], rest)
      | _ => none

/-- Reads the members of a table that is written on one line. -/
def readMembers? (depth : Nat) : Nat → Table → List Token → Option (Table × List Token)
  | 0, _, _ => none
  | n + 1, table, ts =>
    match readKey? ts with
    | some (keys, .mark '=' :: rest) =>
      match readValue? depth n rest with
      | none => none
      | some (j, rest) =>
        match table.addValue? j keys, rest with
        | some table, .mark ',' :: rest => readMembers? depth n table rest
        | some table, .mark '}' :: rest => some (table, rest)
        | _, _ => none
    | _ => none

end

/-- Reads lines into a table; the path leads to the table that is open. -/
def readLines? : Nat → List String → Table → List Token → Option Table
  | 0, _, _, _ => none
  | _ + 1, _, table, [] => some table
  | n + 1, opened, table, .lineEnd :: ts => readLines? n opened table ts
  | n + 1, _, table, .mark '[' :: .mark '[' :: ts =>
    match readKey? ts with
    | some (path, .mark ']' :: .mark ']' :: rest) => (table.openItem? path).bind fun table => endLine? n path table rest
    | _ => none
  | n + 1, _, table, .mark '[' :: ts =>
    match readKey? ts with
    | some (path, .mark ']' :: rest) => (table.openTable? path).bind fun table => endLine? n path table rest
    | _ => none
  | n + 1, opened, table, ts =>
    match readKey? ts with
    | some (keys, .mark '=' :: rest) =>
      match readValue? 0 n rest with
      | some (j, rest) => (table.addValueAt? opened keys j).bind fun table => endLine? n opened table rest
      | none => none
    | _ => none
where
  /-- Goes on with the next line; nothing else may stand on this one. -/
  endLine? : Nat → List String → Table → List Token → Option Table
    | _, _, table, [] => some table
    | 0, _, _, _ :: _ => none
    | n + 1, opened, table, .lineEnd :: ts => readLines? n opened table ts
    | _ + 1, _, _, _ :: _ => none

/-- The object that a text of settings writes. -/
def read? (text : String) : Option Json :=
  (Token.scan? text.toList).bind fun tokens => (readLines? (2 * tokens.length + 2) [] [] tokens).map Table.toJson

end EntityGraph.Toml
