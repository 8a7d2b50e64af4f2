import EntityGraph.Schema.Basic

/-!
# Edits

An `Edit` changes a state step by step. It stops at the first step that fails, and the steps before that one stay done: the state
reached is returned together with the error. Edits are composed in sequence, and applied to the members of a list one after the
other.
-/

namespace EntityGraph

/-- A change of a state that may stop at an error: the state reached, and the error that stopped the edit, if one did. -/
abbrev Edit (σ : Type) := σ → σ × Option SchemaError

namespace Edit

variable {σ α : Type}

/-- The edit that changes nothing. -/
def done : Edit σ := fun s => (s, none)

/-- The edit that stops at once. -/
def fail (e : SchemaError) : Edit σ := fun s => (s, some e)

/-- One edit, and then another if the first was not stopped. -/
def andThen (first second : Edit σ) : Edit σ := fun s =>
  match first s with
  | (s, none) => second s
  | stopped => stopped

/-- Several edits in the order of the list. -/
def inOrder : List (Edit σ) → Edit σ
  | [] => done
  | e :: es => e.andThen (inOrder es)

/-- An edit that depends on a value, which may be missing for a reason. -/
def withValue (value : Except SchemaError α) (f : α → Edit σ) : Edit σ :=
  match value with
  | .ok a => f a
  | .error e => fail e

/-- An edit of the second part of a state, which leaves the first as it is. -/
def onSecond (e : Edit α) : Edit (σ × α) := fun (s, a) =>
  let (a, stop) := e a
  ((s, a), stop)

/-- Applies an edit to the members of a list in order, each together with a state that they share. When it is stopped at one
member, the members after that one stay as they are. -/
def along (e : Edit (σ × α)) : List α → σ → (σ × List α) × Option SchemaError
  | [], s => ((s, []), none)
  | a :: as, s =>
    match e (s, a) with
    | ((s, a), none) =>
      let ((s, as), stop) := along e as s
      ((s, a :: as), stop)
    | ((s, a), stop) => ((s, a :: as), stop)

/-- The edit of a shared state and a list that applies an edit along the list. -/
def onEach (e : Edit (σ × α)) : Edit (σ × List α) := fun (s, as) => along e as s

end Edit

end EntityGraph
