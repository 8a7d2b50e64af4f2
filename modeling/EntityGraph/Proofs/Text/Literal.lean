import EntityGraph.Text.Literal

/-!
# Reading string literals

`Literal.read?` reads a literal from the text after its opening mark, with no other rule than that a backslash takes the character
after it as it is. Whatever the string, what `Literal.encode` writes is read back to the closing mark and no further
(`read?_encode`).
-/

namespace EntityGraph.Text.Literal

/-- The characters of a literal whose opening mark is read already, and the text after its closing mark. -/
def read? : List Char → Option (List Char × List Char)
  | [] => none
  | '\\' :: c :: cs => (read? cs).map fun (s, rest) => (c :: s, rest)
  | c :: cs => if c = mark then some ([], cs) else (read? cs).map fun (s, rest) => (c :: s, rest)

theorem read?_mark (rest : List Char) : read? (mark :: rest) = some ([], rest) := rfl

theorem read?_escaped (c : Char) (cs : List Char) :
    read? ('\\' :: c :: cs) = (read? cs).map fun (s, rest) => (c :: s, rest) := rfl

theorem read?_plain {c : Char} (hc : ¬(c = mark ∨ c = '\\')) (cs : List Char) :
    read? (c :: cs) = (read? cs).map fun (s, rest) => (c :: s, rest) := by
  rw [not_or] at hc
  rw [read?]
  · rw [if_neg hc.1]
  · intro d ds h
    exact absurd h hc.2

/-- A string that was written as a literal is read back, and the reading ends at the literal's own closing mark. -/
theorem read?_encode (s rest : List Char) : read? (encode s ++ mark :: rest) = some (s, rest) := by
  induction s with
  | nil => exact read?_mark rest
  | cons c cs ih =>
    rw [encode]
    split
    case isTrue hc => rw [List.cons_append, List.cons_append, read?_escaped, ih, Option.map_some]
    case isFalse hc => rw [List.cons_append, read?_plain hc, ih, Option.map_some]

end EntityGraph.Text.Literal
