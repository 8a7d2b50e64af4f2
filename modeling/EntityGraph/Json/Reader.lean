import EntityGraph.Json.Token
import EntityGraph.Json.Written

/-!
# Reading JSON

`Written.read?` reads a text as one written value. The reader takes one token after the other and keeps the lists and objects
that are still open on a stack, so it recurses on the tokens. Members of objects stay as they are written, in their order and with
repeated keys. `Json.read?` gives the value of the text, `Json.readParts?` the parts of it that a shape names.
-/

namespace EntityGraph.Json

namespace Written

/-- A list or object whose end has not been read. What it holds so far is in reverse order. -/
inductive Frame
  | list (items : List Written)
  /-- An object, and the key of the member whose value is awaited. -/
  | object (members : List (Option String × Written)) (key : Option String)

/-- What the next token has to be. -/
inductive Expectation
  /-- A value, or the end of a list that has no items, if that is allowed. -/
  | value (orEnd : Bool)
  /-- A key of an object with these members, or the end of the object, if that is allowed. -/
  | key (members : List (Option String × Written)) (orEnd : Bool)
  /-- The colon after a key. -/
  | colon (members : List (Option String × Written)) (key : Option String)
  /-- What follows a value that is complete. -/
  | after (value : Written)

/-- A state of the reader: the open lists and objects, the innermost first, and what is expected. -/
structure ReadState where
  frames : List Frame
  expected : Expectation

namespace ReadState

/-- Takes one token, or refuses it. -/
def step? (state : ReadState) (token : Token) : Option ReadState :=
  match state.expected, token, state.frames with
  | .value _, .word value?, frames => some ⟨frames, .after (.scalar value?)⟩
  | .value _, .text content?, frames => some ⟨frames, .after (.scalar (content?.map .string))⟩
  | .value _, .openList, frames => some ⟨.list [] :: frames, .value true⟩
  | .value _, .openObject, frames => some ⟨frames, .key [] true⟩
  | .value true, .closeList, .list [] :: frames => some ⟨frames, .after (.list [])⟩
  | .key members _, .text key?, frames => some ⟨frames, .colon members key?⟩
  | .key members true, .closeObject, frames => some ⟨frames, .after (.object members.reverse)⟩
  | .colon members key?, .colon, frames => some ⟨.object members key? :: frames, .value false⟩
  | .after value, .comma, .list items :: frames => some ⟨.list (value :: items) :: frames, .value false⟩
  | .after value, .closeList, .list items :: frames => some ⟨frames, .after (.list (value :: items).reverse)⟩
  | .after value, .comma, .object members key? :: frames => some ⟨frames, .key ((key?, value) :: members) false⟩
  | .after value, .closeObject, .object members key? :: frames =>
    some ⟨frames, .after (.object ((key?, value) :: members).reverse)⟩
  | _, _, _ => none

/-- Takes all tokens; the text is a value if nothing is open at the end. -/
def run? (state : ReadState) : List Token → Option Written
  | [] =>
    match state.expected, state.frames with
    | .after value, [] => some value
    | _, _ => none
  | token :: tokens => (state.step? token).bind fun state => state.run? tokens

end ReadState

/-- What a text writes, if it is well formed. -/
def read? (text : String) : Option Written :=
  (Token.scan? text.toList).bind fun tokens => (ReadState.mk [] (.value false)).run? tokens

end Written

/-- The value that a text writes, with the members of objects as they are written. -/
def read? (text : String) : Option Json := (Written.read? text).bind Written.value?

/-- The parts of the value that a text writes that a shape names. -/
def readParts? (shape : Shape) (text : String) : Option Json := (Written.read? text).bind (Written.select? shape)

end EntityGraph.Json
