import EntityGraph.Json.Reader
import EntityGraph.Proofs.Json.Tokens

/-!
# Reading what was written

The text of a value is read as that value (`Json.Written.read?_compact`). The reader takes the tokens of a part and is then after
that part, with the same lists and objects open (`Written.run?_tokens`). The reader itself has no limit of depth; the limit counts
where the value is taken (`Written.valueWithin?_ofJson`).
-/

namespace EntityGraph.Json

mutual

/-- How deep lists and objects are nested in a value. -/
def depth : Json → Nat
  | .list items => itemsDepth items + 1
  | .object members => membersDepth members + 1
  | _ => 0

def itemsDepth : List Json → Nat
  | [] => 0
  | j :: js => max j.depth (itemsDepth js)

def membersDepth : List (String × Json) → Nat
  | [] => 0
  | (_, j) :: rest => max j.depth (membersDepth rest)

end

namespace Written

mutual

/-- What the text of a value writes. -/
def ofJson : Json → Written
  | .list items => .list (ofItems items)
  | .object members => .object (ofMembers members)
  | j => .scalar (some j)

def ofItems : List Json → List Written
  | [] => []
  | j :: js => ofJson j :: ofItems js

def ofMembers : List (String × Json) → List (Option String × Written)
  | [] => []
  | (key, j) :: rest => (some key, ofJson j) :: ofMembers rest

end

/-! ## The value of what is written -/

mutual

/-- A written value is the value itself, if it is nested no deeper than allowed. -/
theorem valueWithin?_ofJson (j : Json) (limit : Nat) :
    (ofJson j).valueWithin? limit = if j.depth ≤ limit then some j else none := by
  match j, limit with
  | .null, _ | .bool _, _ | .int _, _ | .float _, _ | .string _, _ => rfl
  | .list _, 0 | .object _, 0 => rfl
  | .list items, limit + 1 =>
    rw [ofJson, valueWithin?, if_neg (Nat.succ_ne_zero limit), Nat.add_sub_cancel, itemsWithin?_ofItems items limit]
    simp only [depth, Nat.add_le_add_iff_right]
    split <;> rfl
  | .object members, limit + 1 =>
    rw [ofJson, valueWithin?, if_neg (Nat.succ_ne_zero limit), Nat.add_sub_cancel, membersWithin?_ofMembers members limit]
    simp only [depth, Nat.add_le_add_iff_right]
    split <;> rfl

theorem itemsWithin?_ofItems (items : List Json) (limit : Nat) :
    itemsWithin? limit (ofItems items) = if itemsDepth items ≤ limit then some items else none := by
  match items with
  | [] => rfl
  | j :: js =>
    rw [ofItems, itemsWithin?, valueWithin?_ofJson j limit, itemsWithin?_ofItems js limit]
    simp only [itemsDepth, Nat.max_le]
    by_cases hj : j.depth ≤ limit <;> by_cases hjs : itemsDepth js ≤ limit <;> simp [hj, hjs]

theorem membersWithin?_ofMembers (members : List (String × Json)) (limit : Nat) :
    membersWithin? limit (ofMembers members) = if membersDepth members ≤ limit then some members else none := by
  match members with
  | [] => rfl
  | (key, j) :: rest =>
    rw [ofMembers, membersWithin?, valueWithin?_ofJson j limit, membersWithin?_ofMembers rest limit]
    simp only [membersDepth, Nat.max_le]
    by_cases hj : j.depth ≤ limit <;> by_cases hrest : membersDepth rest ≤ limit <;> simp [hj, hrest]

end

/-! ## The reader on the tokens of a value -/

open ReadState

mutual

/-- The tokens of a value take the reader from where a value is expected to after that value. -/
theorem run?_tokens (j : Json) (frames : List Frame) (orEnd : Bool) (rest : List Token) :
    run? ⟨frames, .value orEnd⟩ (j.tokens ++ rest) = run? ⟨frames, .after (ofJson j)⟩ rest := by
  match j with
  | .null | .bool _ | .int _ | .float _ | .string _ => rfl
  | .list [] | .object [] => rfl
  | .list (j :: js) =>
    rw [tokens, List.append_assoc, List.cons_append]
    exact run?_itemTokens (j :: js) (List.cons_ne_nil _ _) [] frames true rest
  | .object (member :: members) =>
    rw [tokens, List.append_assoc, List.cons_append]
    exact run?_memberTokens (member :: members) (List.cons_ne_nil _ _) [] frames true rest

/-- Items are added to those read so far, up to the end of the list. -/
theorem run?_itemTokens (items : List Json) (hne : items ≠ []) (read : List Written) (frames : List Frame) (orEnd : Bool)
    (rest : List Token) :
    run? ⟨.list read :: frames, .value orEnd⟩ ([Token.comma].intercalate (itemTokens items) ++ .closeList :: rest) =
      run? ⟨frames, .after (.list (read.reverse ++ ofItems items))⟩ rest := by
  match items with
  | [j] =>
    rw [itemTokens, itemTokens, List.intercalate_singleton, run?_tokens j, ofItems, ofItems, ← List.reverse_cons]
    rfl
  | j :: j' :: js =>
    have hrest := run?_itemTokens (j' :: js) (List.cons_ne_nil _ _) (ofJson j :: read) frames false rest
    rw [List.reverse_cons, List.append_assoc, List.singleton_append] at hrest
    rw [itemTokens, itemTokens, List.intercalate_cons_cons, List.append_assoc, List.append_assoc, run?_tokens j, ofItems]
    exact hrest

/-- Members are added to those read so far, up to the end of the object. -/
theorem run?_memberTokens (members : List (String × Json)) (hne : members ≠ []) (read : List (Option String × Written))
    (frames : List Frame) (orEnd : Bool) (rest : List Token) :
    run? ⟨frames, .key read orEnd⟩ ([Token.comma].intercalate (memberTokens members) ++ .closeObject :: rest) =
      run? ⟨frames, .after (.object (read.reverse ++ ofMembers members))⟩ rest := by
  match members with
  | [(key, j)] =>
    rw [memberTokens, memberTokens, List.intercalate_singleton, ofMembers, ofMembers, ← List.reverse_cons]
    exact run?_tokens j (.object read (some key) :: frames) false (.closeObject :: rest)
  | (key, j) :: member :: members =>
    have hrest := run?_memberTokens (member :: members) (List.cons_ne_nil _ _) ((some key, ofJson j) :: read) frames false rest
    rw [List.reverse_cons, List.append_assoc, List.singleton_append] at hrest
    rw [memberTokens, memberTokens, List.intercalate_cons_cons, List.append_assoc, List.append_assoc, ofMembers]
    exact (run?_tokens j (.object read (some key) :: frames) false _).trans hrest

end

/-- The text of a value is well formed and writes the value. -/
theorem read?_compact {j : Json} (h : j.Readable) : read? j.compact = some (ofJson j) := by
  rw [read?, scan?_compact h, Option.bind_some, ← List.append_nil j.tokens, run?_tokens j]
  rfl

end Written

end EntityGraph.Json
