import EntityGraph.Proofs.Filter.Accepted

/-!
# Places in a filter

A path leads from a JSON value to a place in it (`Json.at?`). What a filter may have at a place is its position: `Schema.next?`
gives the position of each part of a value by the position of the value. A value conforms to a position if the value at every place
in it fits the position there (`Schema.Conforms`).
-/

namespace EntityGraph

/-! ## Places in a value -/

/-- One part of a value is read before the other. -/
inductive Segment.Before : Segment → Segment → Prop
  | key {a b : String} : a < b → Before (.key a) (.key b)
  | index {m n : Nat} : m < n → Before (.index m) (.index n)

/-- One place in a value is read before the other: it encloses the other, or comes before it in the value that encloses both. -/
def Path.Before (p q : Path) : Prop := List.Lex Segment.Before p q

theorem Segment.Before.asymm {a b : Segment} (h : a.Before b) : ¬ b.Before a := by
  intro h'
  cases h with
  | key h =>
    cases h' with
    | key h' => exact String.lt_asymm h h'
  | index h =>
    cases h' with
    | index h' => exact Nat.lt_asymm h h'

theorem Segment.Before.ne {a b : Segment} (h : a.Before b) : a ≠ b := by
  rintro rfl
  exact h.asymm h

namespace Json

/-- The items of a list from an index on, each with the step that leads to it. -/
def itemParts (index : Nat) (items : List Json) : List (Segment × Json) :=
  (items.zipIdx index).map fun item => (.index item.2, item.1)

/-- The members of an object, each with the step that leads to it. -/
def memberParts (members : List (String × Json)) : List (Segment × Json) :=
  members.map fun member => (.key member.1, member.2)

/-- The parts of a value in the order in which they are read. -/
def parts : Json → List (Segment × Json)
  | .list items => itemParts 0 items
  | .object members => memberParts members
  | _ => []

/-- The part that a step leads to. -/
def part? (j : Json) (segment : Segment) : Option Json := j.parts.lookup segment

/-- The value at the place that a path leads to. -/
def at? (j : Json) (path : Path) : Option Json := path.foldlM part? j

theorem at?_nil (j : Json) : j.at? [] = some j := rfl

theorem at?_cons (j : Json) (segment : Segment) (path : Path) :
    j.at? (segment :: path) = (j.part? segment).bind fun part => part.at? path := by
  rw [at?, List.foldlM_cons]
  rfl

theorem itemsInKeyOrder_iff {items : List Json} : ItemsInKeyOrder items ↔ ∀ item ∈ items, item.InKeyOrder := by
  induction items with
  | nil => simp [ItemsInKeyOrder]
  | cons item items ih => rw [ItemsInKeyOrder, ih, List.forall_mem_cons]

/-- The parts of a value with its keys in order are values with their keys in order. -/
theorem InKeyOrder.of_mem_parts {j : Json} (hj : j.InKeyOrder) {part : Segment × Json} (h : part ∈ j.parts) :
    part.2.InKeyOrder := by
  match j with
  | .list items =>
    obtain ⟨item, hitem, rfl⟩ := List.mem_map.mp h
    exact itemsInKeyOrder_iff.mp hj _ (List.fst_mem_of_mem_zipIdx hitem)
  | .object members =>
    obtain ⟨member, hmember, rfl⟩ := List.mem_map.mp h
    exact membersInKeyOrder_iff.mp hj.2 _ hmember

/-- Where keys are in order, each part is read before the later ones. -/
theorem InKeyOrder.pairwise_parts {j : Json} (hj : j.InKeyOrder) : j.parts.Pairwise fun a b => a.1.Before b.1 := by
  match j with
  | .list items =>
    have hindices : (items.zipIdx.map Prod.snd).Pairwise (· < ·) := by
      rw [List.zipIdx_map_snd]
      exact List.pairwise_lt_range'
    exact List.pairwise_map.mpr ((List.pairwise_map.mp hindices).imp .index)
  | .object members => exact List.pairwise_map.mpr ((List.pairwise_map.mp hj.1).imp .key)
  | .null | .bool _ | .int _ | .float _ | .string _ => exact .nil

theorem mem_parts_of_part? {j : Json} {segment : Segment} {part : Json} (h : j.part? segment = some part) :
    (segment, part) ∈ j.parts := by
  obtain ⟨before, after, hparts, _⟩ := List.lookup_eq_some_iff.mp h
  rw [hparts]
  exact List.mem_append_right _ List.mem_cons_self

/-- The parts before one that a value has are those that are read before it. -/
theorem InKeyOrder.part?_eq {j : Json} (hj : j.InKeyOrder) {before after : List (Segment × Json)} {segment : Segment}
    {part : Json} (hparts : j.parts = before ++ (segment, part) :: after) :
    j.part? segment = some part ∧
      ∀ earlier value, earlier.Before segment → j.part? earlier = some value → (earlier, value) ∈ before := by
  have hordered := hj.pairwise_parts
  rw [hparts, List.pairwise_append, List.pairwise_cons] at hordered
  obtain ⟨_, ⟨hafter, _⟩, hbefore⟩ := hordered
  refine ⟨List.lookup_eq_some_iff.mpr ⟨before, after, hparts, fun other ho => ?_⟩, fun earlier value hlt hvalue => ?_⟩
  · simpa using (hbefore other ho _ List.mem_cons_self).ne.symm
  · have hmem := mem_parts_of_part? hvalue
    rw [hparts, List.mem_append, List.mem_cons] at hmem
    rcases hmem with hmem | hmem | hmem
    · exact hmem
    · exact absurd (Prod.mk.inj hmem).1 hlt.ne
    · exact absurd (hafter _ hmem) hlt.asymm

end Json

/-! ## Positions -/

/-- What may stand at a place in a filter. -/
inductive Position
  /-- A filter on a kind. -/
  | filter (kind : EntityKind)
  /-- Filters on a kind that are combined. -/
  | filters (kind : EntityKind)
  /-- A filter on a kind that is negated, or a list of just it. -/
  | negated (kind : EntityKind)
  /-- Tests of an attribute. -/
  | tests (decl : AttributeDecl)
  | literal (type : AttributeType)
  | literals (type : AttributeType)
  | flag
  /-- Filters on the nodes of a relationship, by their quantifiers. -/
  | quantifiers (r : Relationship)

namespace Position

/-- What messages say is expected at a position. -/
def expected : Position → String
  | .filter _ => "filter object"
  | .filters _ => "list of filter objects"
  | .negated _ => "filter object or single-element list"
  | .tests _ => "object of operators"
  | .literal type => type.name
  | .literals type => "list of " ++ type.name
  | .flag => "boolean"
  | .quantifiers _ => "object with all, some or none"

/-- The name of the definition that offers the keys of objects at a position. -/
def definition? : Position → Option String
  | .filter kind => some (kind.name ++ "FilterInput")
  | .negated kind => some (kind.name ++ "FilterInput")
  | .tests decl => some (decl.type.name.capitalize ++ "FilterInput")
  | .quantifiers r => some (r.relatedKind ++ "ListFilterInput")
  | _ => none

/-- A value is acceptable at a position as far as its parts are not asked. -/
inductive Fits : Position → Json → Prop
  | filter (kind : EntityKind) (members : List (String × Json)) : Fits (.filter kind) (.object members)
  | filters (kind : EntityKind) (items : List Json) : Fits (.filters kind) (.list items)
  | negated (kind : EntityKind) (members : List (String × Json)) : Fits (.negated kind) (.object members)
  | negatedItem (kind : EntityKind) (item : Json) : Fits (.negated kind) (.list [item])
  | tests (decl : AttributeDecl) (members : List (String × Json)) : Fits (.tests decl) (.object members)
  | literal {type : AttributeType} {j : Json} {value : Value} : type.Reads j value → Fits (.literal type) j
  | literals (type : AttributeType) (items : List Json) : Fits (.literals type) (.list items)
  | flag (b : Bool) : Fits .flag (.bool b)
  | quantifiers (r : Relationship) (members : List (String × Json)) : Fits (.quantifiers r) (.object members)

/-- The position of the argument of an operator on attributes of a type. -/
def argument (type : AttributeType) : Operator → Position
  | .isIn => .literals type
  | .isNull => .flag
  | _ => .literal type

/-- The position under a key of a filter on a kind. -/
def ofKey? (kind : EntityKind) (key : String) : Option Position :=
  if key = "and" ∨ key = "or" then some (.filters kind)
  else if key = "not" then some (.negated kind)
  else match kind.attribute? key with
    | some decl => some (.tests decl)
    | none => (kind.relationship? key).map .quantifiers

end Position

/-- The position of the value of a field. -/
def FilterField.position : FilterField → Position
  | .scalar decl _ => .tests decl
  | .related r => .quantifiers r

namespace Schema

variable {schema : Schema} {p : Position} {j : Json}

/-- The position of a part of a value, by the position of the value and the step that leads to the part. -/
def next? (schema : Schema) : Position → Segment → Option Position
  | .filter kind, .key key => Position.ofKey? kind key
  | .filters kind, .index _ => some (.filter kind)
  | .negated kind, .key key => Position.ofKey? kind key
  | .negated kind, .index _ => some (.filter kind)
  | .tests decl, .key key =>
    ((decl.type.operators?.getD []).find? fun op => op.name == key).map (.argument decl.type)
  | .literals type, .index _ => some (.literal type)
  | .quantifiers r, .key key => do
    let _ ← Quantifier.ofName? key
    let related ← schema.kinds[r.relatedKind]?
    return .filter related
  | _, _ => none

/-- The position at the end of a path. -/
def position? (schema : Schema) (p : Position) (path : Path) : Option Position := path.foldlM schema.next? p

theorem position?_cons (schema : Schema) (p : Position) (segment : Segment) (path : Path) :
    schema.position? p (segment :: path) = (schema.next? p segment).bind fun q => schema.position? q path := by
  rw [position?, List.foldlM_cons]
  rfl

theorem position?_concat {path : Path} {q : Position} (h : schema.position? p path = some q) (segment : Segment) :
    schema.position? p (path ++ [segment]) = schema.next? q segment := by
  rw [position?] at h ⊢
  simp [List.foldlM_append, h]

/-- A value fits the position at the end of a path. -/
def FitsAt (schema : Schema) (p : Position) (path : Path) (place : Json) : Prop :=
  ∃ q, schema.position? p path = some q ∧ q.Fits place

/-- The value at every place in a value fits the position there. -/
def Conforms (schema : Schema) (p : Position) (j : Json) : Prop :=
  ∀ path place, j.at? path = some place → schema.FitsAt p path place

/-- The step to a part of a value leads to a position that the part conforms to. -/
def PartConforms (schema : Schema) (p : Position) (part : Segment × Json) : Prop :=
  ∃ q, schema.next? p part.1 = some q ∧ schema.Conforms q part.2

theorem fitsAt_nil (hf : p.Fits j) : schema.FitsAt p [] j := ⟨p, rfl, hf⟩

/-- What fits in a part fits in the value. -/
theorem FitsAt.inside {segment : Segment} {q : Position} (hnext : schema.next? p segment = some q) {path : Path} {place : Json}
    (h : schema.FitsAt q path place) : schema.FitsAt p (segment :: path) place := by
  obtain ⟨position, hposition, hfits⟩ := h
  refine ⟨position, ?_, hfits⟩
  rw [position?_cons, hnext]
  exact hposition

/-- The values at the places in a part that conforms fit. -/
theorem PartConforms.fitsAt {segment : Segment} {part : Json} (h : schema.PartConforms p (segment, part)) {path : Path}
    {place : Json} (hplace : part.at? path = some place) : schema.FitsAt p (segment :: path) place := by
  obtain ⟨next, hnext, hpart⟩ := h
  exact (hpart path place hplace).inside hnext

/-- A value that fits conforms if its parts do. -/
theorem conforms_of_parts (hf : p.Fits j) (h : ∀ part ∈ j.parts, schema.PartConforms p part) : schema.Conforms p j := by
  intro path place hplace
  match path with
  | [] =>
    obtain rfl := Option.some.inj (j.at?_nil.symm.trans hplace)
    exact fitsAt_nil hf
  | segment :: path =>
    rw [Json.at?_cons, Option.bind_eq_some_iff] at hplace
    obtain ⟨part, hpart, hplace⟩ := hplace
    exact (h _ (Json.mem_parts_of_part? hpart)).fitsAt hplace

end Schema

end EntityGraph
