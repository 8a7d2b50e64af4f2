import EntityGraph.Condition.Json
import EntityGraph.Proofs.Json.Reading

/-!
# Reading conditions back

A condition is read back from its JSON value, form by form, and from the text of that value, if its floating-point numbers are
(`Condition.json_round_trip`).
-/

namespace EntityGraph

/-! ## Scalars and names -/

namespace Value

/-- The floating-point number that a value is. -/
def float? : Value → Option Binary64
  | .float x => some x
  | _ => none

theorem fitsInt64_toInt (n : Int64) : Json.fitsInt64 n.toInt :=
  Json.fitsInt64_iff.mpr ⟨Int64.le_toInt n, Int64.toInt_le n⟩

theorem ofJson?_toJson (value : Value) : ofJson? value.toJson = some value := by
  cases value with
  | int n => rw [toJson, ofJson?, if_pos (fitsInt64_toInt n), Int64.ofInt_toInt]
  | null | bool | float | string => rfl

theorem readable_toJson {value : Value} (h : ∀ x ∈ value.float?, x.ReadsBack) : value.toJson.Readable := by
  cases value with
  | int n =>
    have hmax : n.toInt < UInt64.size := Int.lt_of_le_of_lt (Int64.toInt_le n) (by decide)
    exact ⟨Int64.le_toInt n, hmax⟩
  | float x => exact h x rfl
  | null | bool | string => trivial

theorem itemsReadable_map {values : List Value} (h : ∀ x ∈ values.flatMap fun value => value.float?.toList, x.ReadsBack) :
    Json.ItemsReadable (values.map toJson) := by
  induction values with
  | nil => trivial
  | cons value values ih =>
    rw [List.flatMap_cons, List.forall_mem_append] at h
    exact ⟨readable_toJson fun x hx => h.1 x (Option.mem_toList.mpr hx), ih h.2⟩

end Value

theorem Comparison.ofJson?_name (op : Comparison) : Comparison.ofJson? (.string op.name) = some op := by
  cases op <;> decide

theorem Quantifier.ofJson?_name (quantifier : Quantifier) : Quantifier.ofJson? (.string quantifier.name) =
    Option.some quantifier := by
  cases quantifier <;> decide

theorem Direction.ofJson?_name (direction : Direction) : Direction.ofJson? (.string direction.name) = some direction := by
  cases direction <;> decide

theorem EdgePattern.ofJson?_toJson (pattern : EdgePattern) : EdgePattern.ofJson? pattern.toJson = some pattern := by
  have hrecord : pattern.toJson.record? ["root", "related", "label", "direction"] =
      some [some (.string pattern.root.name), some (.string pattern.related.name), some (.string pattern.label),
        some (.string pattern.direction.name)] := rfl
  rw [ofJson?, hrecord]
  simp [Variable.ofJson?, Json.string?, Direction.ofJson?_name]

theorem Json.listOf?_map {α : Type} {write : α → Json} {read? : Json → Option α} (h : ∀ a, read? (write a) = some a)
    (as : List α) : Json.listOf? read? (.list (as.map write)) = some as := by
  induction as with
  | nil => rfl
  | cons a as ih =>
    rw [listOf?] at ih ⊢
    rw [List.map_cons, List.mapM_cons, h, ih]
    rfl

namespace Condition

/-! ## The value -/

mutual

/-- A condition is read back from its JSON value. -/
theorem ofJson?_toJson (c : Condition) : ofJson? c.toJson = some c := by
  match c with
  | .true => rfl
  | .false => rfl
  | .compare v attr op value =>
    have hfields : fields? ["variable", "attribute", "op", "value"] (.object [("variable", .string v.name),
        ("attribute", .string attr), ("op", .string op.name), ("value", value.toJson)]) =
        some [some (.string v.name), some (.string attr), some (.string op.name), some value.toJson] := rfl
    simp [toJson, ofJson?, ofLeaf?, hfields, Variable.ofJson?, Json.string?, Comparison.ofJson?_name, Value.ofJson?_toJson]
  | .isIn v attr values =>
    have hfields : fields? ["variable", "attribute", "values"] (.object [("variable", .string v.name),
        ("attribute", .string attr), ("values", .list (values.map Value.toJson))]) =
        some [some (.string v.name), some (.string attr), some (.list (values.map Value.toJson))] := rfl
    simp [toJson, ofJson?, ofLeaf?, hfields, Variable.ofJson?, Json.string?, Json.listOf?_map Value.ofJson?_toJson]
  | .isNull v attr =>
    have hfields : fields? ["variable", "attribute"] (.object [("variable", .string v.name), ("attribute", .string attr)]) =
        some [some (.string v.name), some (.string attr)] := rfl
    simp [toJson, ofJson?, ofLeaf?, hfields, Variable.ofJson?, Json.string?]
  | .and cs => simp [toJson, ofJson?, ofList?, ofItems?_toJsonAll cs]
  | .or cs => simp [toJson, ofJson?, ofList?, ofItems?_toJsonAll cs]
  | .not c => simp [toJson, ofJson?, ofJson?_toJson c]
  | .quantified quantifier pattern predicate =>
    have hquantifier : Json.field? [("quantifier", .string quantifier.name), ("pattern", pattern.toJson),
        ("predicate", predicate.toJson)] "quantifier" = some (some (.string quantifier.name)) := rfl
    have hpattern : Json.field? [("quantifier", .string quantifier.name), ("pattern", pattern.toJson),
        ("predicate", predicate.toJson)] "pattern" = some (some pattern.toJson) := rfl
    have hpredicate : predicate? [("quantifier", .string quantifier.name), ("pattern", pattern.toJson),
        ("predicate", predicate.toJson)] = some predicate := by
      simp [predicate?, ofJson?_toJson predicate]
    simp [toJson, ofJson?, ofQuantified?, hquantifier, hpattern, hpredicate, Quantifier.ofJson?_name,
      EdgePattern.ofJson?_toJson]

theorem ofItems?_toJsonAll (cs : List Condition) : ofItems? (toJsonAll cs) = some cs := by
  cases cs with
  | nil => rfl
  | cons c cs =>
    rw [toJsonAll, ofItems?, ofJson?_toJson c, ofItems?_toJsonAll cs]
    rfl

end

/-! ## The text -/

mutual

/-- The floating-point numbers in a condition. -/
def floats : Condition → List Binary64
  | .compare _ _ _ value => value.float?.toList
  | .isIn _ _ values => values.flatMap fun value => value.float?.toList
  | .and conditions => floatsIn conditions
  | .or conditions => floatsIn conditions
  | .not condition => condition.floats
  | .quantified _ _ predicate => predicate.floats
  | _ => []

def floatsIn : List Condition → List Binary64
  | [] => []
  | c :: cs => c.floats ++ floatsIn cs

end

mutual

/-- Every number in the JSON value of a condition is read back if the floating-point numbers of the condition are. -/
theorem readable_toJson (c : Condition) (h : ∀ x ∈ c.floats, x.ReadsBack) : c.toJson.Readable := by
  match c with
  | .true | .false => trivial
  | .compare v attr op value =>
    have hvalue : value.toJson.Readable := Value.readable_toJson fun x hx => h x (Option.mem_toList.mpr hx)
    simpa [toJson, Json.Readable, Json.MembersReadable] using hvalue
  | .isIn v attr values =>
    have hvalues : Json.ItemsReadable (values.map Value.toJson) := Value.itemsReadable_map h
    simpa [toJson, Json.Readable, Json.MembersReadable] using hvalues
  | .isNull v attr => simp [toJson, Json.Readable, Json.MembersReadable]
  | .and cs => simpa [toJson, Json.Readable, Json.MembersReadable] using itemsReadable_toJsonAll cs h
  | .or cs => simpa [toJson, Json.Readable, Json.MembersReadable] using itemsReadable_toJsonAll cs h
  | .not c => simpa [toJson, Json.Readable, Json.MembersReadable] using readable_toJson c h
  | .quantified quantifier pattern predicate =>
    simpa [toJson, EdgePattern.toJson, Json.Readable, Json.MembersReadable] using readable_toJson predicate h

theorem itemsReadable_toJsonAll (cs : List Condition) (h : ∀ x ∈ floatsIn cs, x.ReadsBack) :
    Json.ItemsReadable (toJsonAll cs) := by
  cases cs with
  | nil => trivial
  | cons c cs =>
    rw [floatsIn, List.forall_mem_append] at h
    exact ⟨readable_toJson c h.1, itemsReadable_toJsonAll cs h.2⟩

end

/-! ## Refused objects -/

/-- The names of the forms of a condition. -/
def formNames : List String := ["true", "false", "compare", "in", "is_null", "and", "or", "not", "quantified"]

/-- Whether an object holds exactly one member, named for a form. -/
def HoldsForm (members : List (String × Json)) : Prop := ∃ name ∈ formNames, ∃ content, members = [(name, content)]

theorem ofJson?_object {members : List (String × Json)} (h : ¬HoldsForm members) : ofJson? (.object members) = none := by
  match members with
  | [] => rfl
  | [(name, content)] =>
    have hname : name ∉ formNames := fun hmem => h ⟨name, hmem, content, rfl⟩
    simp only [formNames, List.mem_cons, List.not_mem_nil, or_false, not_or] at hname
    simp [ofJson?, ofLeaf?, hname]
  | _ :: _ :: _ => rfl

/-- The part stands in the JSON value where a condition is expected. -/
inductive ExpectedIn (part : Json) : Json → Prop
  | whole : ExpectedIn part part
  | joined {name : String} {items : List Json} {j : Json} (joins : name = "and" ∨ name = "or") (mem : j ∈ items)
    (inside : ExpectedIn part j) : ExpectedIn part (.object [(name, .list items)])
  | negated {j : Json} (inside : ExpectedIn part j) : ExpectedIn part (.object [("not", j)])
  | predicate {members : List (String × Json)} {j : Json} (mem : ("predicate", j) ∈ members) (inside : ExpectedIn part j) :
    ExpectedIn part (.object [("quantified", .object members)])

theorem ofItems?_eq_none {items : List Json} {j : Json} (hmem : j ∈ items) (h : ofJson? j = none) : ofItems? items = none := by
  induction items with
  | nil => cases hmem
  | cons first items ih =>
    rw [ofItems?]
    rcases List.mem_cons.mp hmem with rfl | hmem
    · rw [h]
      rfl
    · rw [ih hmem]
      cases ofJson? first <;> rfl

theorem predicate?_eq_none {members : List (String × Json)} {j : Json} (hmem : ("predicate", j) ∈ members)
    (h : ofJson? j = none) : predicate? members = none := by
  induction members with
  | nil => cases hmem
  | cons first members ih =>
    obtain ⟨key, content⟩ := first
    rw [predicate?]
    rcases List.mem_cons.mp hmem with heq | hmem
    · obtain ⟨rfl, rfl⟩ := Prod.mk.inj heq
      rw [if_pos rfl, h, ite_self]
    · split
      · rw [if_pos (List.any_eq_true.mpr ⟨_, hmem, beq_self_eq_true "predicate"⟩)]
      · exact ih hmem

/-- What is refused inside a condition makes the whole refused. -/
theorem ExpectedIn.ofJson?_eq_none {part j : Json} (hin : ExpectedIn part j) (h : ofJson? part = none) : ofJson? j = none := by
  induction hin with
  | whole => exact h
  | joined joins mem _ ih =>
    rcases joins with rfl | rfl <;> simp [ofJson?, ofList?, ofItems?_eq_none mem ih]
  | negated _ ih => simp [ofJson?, ih]
  | predicate mem _ ih => simp [ofJson?, ofQuantified?, predicate?_eq_none mem ih]

/-- A condition survives its JSON form.
1. It is read back from its JSON value.
2. If its floating-point numbers are read back from their texts, the text of the value is well formed, and read with a limit of
   depth it gives the condition back just if the value keeps to the limit.
3. A value is refused if an object stands in it where a condition is expected and the object does not hold exactly one member,
   named for a form. -/
theorem json_round_trip (c : Condition) :
    ofJson? c.toJson = some c ∧
    ((∀ x ∈ c.floats, x.ReadsBack) → ∃ written, Json.Written.read? c.toJson.compact = some written ∧
      ∀ limit, (written.valueWithin? limit).bind ofJson? = if c.toJson.depth ≤ limit then some c else none) ∧
    ∀ j members, ExpectedIn (.object members) j → ¬HoldsForm members → ofJson? j = none := by
  refine ⟨ofJson?_toJson c, fun hfloats => ?_, fun j members hin hform => hin.ofJson?_eq_none (ofJson?_object hform)⟩
  refine ⟨_, Json.Written.read?_compact (readable_toJson c hfloats), fun limit => ?_⟩
  rw [Json.Written.valueWithin?_ofJson]
  split
  · exact ofJson?_toJson c
  · rfl

end Condition

/-- Numbers that are near to another type: an integer in floating point, and the extreme integers. -/
def Example.weighed : Condition :=
  .not (.quantified .none ⟨⟨"n"⟩, ⟨"n_r0"⟩, "HAS_TAG", .incoming⟩
    (.or [.compare ⟨"n_r0"⟩ "weight" .lte (.float (.ofNat 2)), .isIn ⟨"n_r0"⟩ "rank" [.int Int64.minValue, .int Int64.maxValue]]))

/-- They keep their type in the text. -/
theorem weighed_read_back : (∀ x ∈ Example.weighed.floats, x.ReadsBack) ∧
    (Json.read? Example.weighed.toJson.compact).bind Condition.ofJson? = some Example.weighed := by
  have hfloats : ∀ x ∈ Example.weighed.floats, x.ReadsBack := by
    intro x hx
    obtain rfl : x = .ofNat 2 := List.mem_singleton.mp hx
    exact ⟨by decide +kernel, by decide +kernel⟩
  obtain ⟨written, hread, hlimit⟩ := (Condition.json_round_trip Example.weighed).2.1 hfloats
  refine ⟨hfloats, ?_⟩
  rw [Json.read?, hread, Option.bind_some]
  exact (hlimit Json.Written.maxDepth).trans (if_pos (by decide +kernel))

end EntityGraph
