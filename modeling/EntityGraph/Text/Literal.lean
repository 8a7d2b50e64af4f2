/-!
# String literals

A string inside a condition stands in single quotes; a quote or a backslash in it follows a backslash.
-/

namespace EntityGraph.Text.Literal

/-- The mark at both ends of a literal. -/
def mark : Char := '\x27'

/-- The characters of a string between the marks. -/
def encode : List Char → List Char
  | [] => []
  | c :: cs => if c = mark ∨ c = '\\' then '\\' :: c :: encode cs else c :: encode cs

/-- A string as a literal. -/
def render (s : String) : String := String.ofList (mark :: encode s.toList ++ [mark])

end EntityGraph.Text.Literal
