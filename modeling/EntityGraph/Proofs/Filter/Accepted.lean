import EntityGraph.Filter.Parser
import EntityGraph.Proofs.Filter.Definitions
import EntityGraph.Proofs.Filter.Grammar

/-!
# The filters that are accepted

A reader that succeeds leaves the stack of steps as it found it, so every part of a value is read at its own path
(`Filter.Reader.result_bind_eq_ok_iff`, `Filter.Reader.result_inside`). `FilterSchema.parse` accepts just the filters of the
grammar, and gives just the entries that the grammar reads off them (`FilterSchema.parse_accepts_grammar`). What the program reads
has the members of objects in the order of their keys (`Json.normalize`), so the entries are in the order of theirs.
-/

namespace EntityGraph

/-! ## Readers at the end of a path -/

namespace Filter.Reader

variable {α β : Type}

/-- What a reader gives for the part at the end of a path. -/
def result (m : Reader α) (path : Path) : Except FilterError α := (m.run path).1

variable {m : Reader α} {f : α → Reader β} {path stack : Path} {segment : Segment} {a : α} {e : FilterError}

/-! ### The stack -/

/-- The stack after a success is the path that was read at. -/
theorem run_eq_of_result (h : m.result path = .ok a) : m.run path = (.ok a, path) :=
  have hrun : m.run path = (.ok a, (m.run path).2) := Prod.ext h rfl
  Prod.ext h (m.restores hrun)

theorem run_bind_ok (h : m.run path = (.ok a, stack)) : (m >>= f).run path = (f a).run path := by
  obtain rfl := m.restores h
  simp only [bind, h]

/-- The first offence ends the reading, with the steps to it on the stack. -/
theorem run_bind_error (h : m.run path = (.error e, stack)) : (m >>= f).run path = (.error e, stack) := by
  simp only [bind, h]

theorem run_inside_ok (h : m.run (path ++ [segment]) = (.ok a, stack)) : (inside segment m).run path = (.ok a, path) := by
  obtain rfl := m.restores h
  simp only [inside, h, List.dropLast_concat]

theorem run_inside_error (h : m.run (path ++ [segment]) = (.error e, stack)) :
    (inside segment m).run path = (.error e, stack) := by
  simp only [inside, h]

theorem lift_ok_bind : lift (.ok a) >>= f = f a := rfl

/-! ### Results -/

@[simp]
theorem result_pure_eq_ok_iff {b : α} : (pure a : Reader α).result path = .ok b ↔ b = a := by
  rw [show (pure a : Reader α).result path = .ok a from rfl, Except.ok.injEq, eq_comm]

@[simp]
theorem result_lift {result : Except FilterError α} : (lift result).result path = result := rfl

@[simp]
theorem result_invalid_ne_ok {expected : String} {found : Json} : (invalid expected found : Reader α).result path ≠ .ok a :=
  nofun

@[simp]
theorem result_unknown_ne_ok {key definition : String} : (unknown key definition : Reader α).result path ≠ .ok a := nofun

/-- What is read next is read at the same path. -/
theorem result_bind_eq_ok_iff {b : β} :
    (m >>= f).result path = .ok b ↔ ∃ a, m.result path = .ok a ∧ (f a).result path = .ok b := by
  rcases hm : m.run path with ⟨e | a, stack⟩
  · simp [result, run_bind_error hm, hm]
  · simp [result, run_bind_ok hm, hm]

/-- A part is read at the path with the step to it. -/
@[simp]
theorem result_inside : (inside segment m).result path = m.result (path ++ [segment]) := by
  rcases hm : m.run (path ++ [segment]) with ⟨e | a, stack⟩
  · rw [result, result, run_inside_error hm, hm]
  · rw [result, result, run_inside_ok hm, hm]

end Filter.Reader

/-! ## Literals and tests are read by the grammar -/

namespace Operator

theorem ofName?_eq_some_iff {key : String} {op : Operator} : ofName? key = some op ↔ op.name = key := by
  constructor
  · intro h
    simpa using List.find?_some h
  · rintro rfl
    cases op <;> decide

theorem name_injective {a b : Operator} (h : a.name = b.name) : a = b :=
  Option.some.inj ((ofName?_eq_some_iff.mpr h).symm.trans (ofName?_eq_some_iff.mpr rfl))

/-- The form of the test that an operator makes. -/
def form : Operator → TestForm
  | .equals => .compare .eq
  | .notEquals => .compare .neq
  | .isIn => .isIn
  | .isNull => .isNull
  | .lt => .compare .lt
  | .lte => .compare .lte
  | .gt => .compare .gt
  | .gte => .compare .gte
  | .contains => .compare .contains
  | .startsWith => .compare .startsWith
  | .endsWith => .compare .endsWith

/-- An operator has the name that the grammar has for its test. -/
theorem key_form (op : Operator) : op.form.key = op.name := by
  cases op <;> rfl

/-- Every form of test is made by an operator. -/
theorem exists_form (form : TestForm) : ∃ op : Operator, op.form = form := by
  rcases form with comparison | _ | _
  · cases comparison
    exacts [⟨.equals, rfl⟩, ⟨.notEquals, rfl⟩, ⟨.lt, rfl⟩, ⟨.lte, rfl⟩, ⟨.gt, rfl⟩, ⟨.gte, rfl⟩, ⟨.contains, rfl⟩,
      ⟨.startsWith, rfl⟩, ⟨.endsWith, rfl⟩]
  · exact ⟨.isIn, rfl⟩
  · exact ⟨.isNull, rfl⟩

theorem form_eq_of_key {op : Operator} {form : TestForm} (h : form.key = op.name) : op.form = form := by
  obtain ⟨other, rfl⟩ := exists_form form
  rw [name_injective (other.key_form.symm.trans h)]

theorem comparison?_eq_some_iff {op : Operator} {comparison : Comparison} :
    op.comparison? = some comparison ↔ op.form = .compare comparison := by
  cases op <;> simp [comparison?, form]

end Operator

/-- The operators of a type make the tests that the grammar has for it. -/
theorem AttributeType.tests_eq (type : AttributeType) : type.tests = (type.operators?.getD []).map Operator.form := by
  cases type <;> rfl

theorem AttributeType.offers_iff {type : AttributeType} {operators : List Operator} (ho : type.operators? = some operators)
    {form : TestForm} : type.Offers form ↔ ∃ op ∈ operators, op.form = form := by
  rw [Offers, tests_eq, ho, Option.getD_some, List.mem_map]

namespace Filter

open Reader

theorem literal?_eq_some_iff {type : AttributeType} {j : Json} {value : Value} :
    literal? type j = some value ↔ type.Reads j value := by
  constructor
  · intro h
    unfold literal? at h
    split at h
    · obtain rfl := Option.some.inj h
      exact .string _
    · obtain rfl := Option.some.inj h
      exact .id _
    · split at h
      · next hfits =>
        obtain rfl := Option.some.inj h
        obtain ⟨hlow, hhigh⟩ := Bool.and_eq_true_iff.mp hfits
        rw [decide_eq_true_eq] at hlow hhigh
        exact .int hlow hhigh
      · cases h
    · obtain rfl := Option.some.inj h
      exact .whole _
    · obtain rfl := Option.some.inj h
      exact .float _
    · obtain rfl := Option.some.inj h
      exact .boolean _
    · cases h
  · intro h
    cases h with
    | @int n hlow hhigh =>
      have hfits : Json.fitsInt64 n = true := by
        rw [Json.fitsInt64, Bool.and_eq_true_iff, decide_eq_true_eq, decide_eq_true_eq]
        exact ⟨hlow, hhigh⟩
      rw [literal?, if_pos hfits]
    | _ => rfl

theorem parseLiteral_eq_ok_iff {type : AttributeType} {path : Path} {j : Json} {value : Value} :
    (parseLiteral type j).result path = .ok value ↔ type.Reads j value := by
  rw [← literal?_eq_some_iff, parseLiteral]
  cases literal? type j with
  | some found => rw [result_pure_eq_ok_iff, Option.some.injEq, eq_comm]
  | none => simp

theorem parseLiterals_eq_ok_iff {type : AttributeType} {path : Path} {index : Nat} {js : List Json} {values : List Value} :
    (parseLiterals type index js).result path = .ok values ↔ List.Forall₂ type.Reads js values := by
  induction js generalizing index values with
  | nil => simp [parseLiterals]
  | cons j js ih =>
    simp only [parseLiterals, result_bind_eq_ok_iff, result_inside, parseLiteral_eq_ok_iff, ih, result_pure_eq_ok_iff,
      List.forall₂_cons_left_iff]
    constructor
    · rintro ⟨value, hvalue, rest, hrest, rfl⟩
      exact ⟨value, rest, hvalue, hrest, rfl⟩
    · rintro ⟨value, rest, hvalue, hrest, rfl⟩
      exact ⟨value, hvalue, rest, hrest, rfl⟩

theorem supported?_eq_some_iff {operators : List Operator} {key : String} {op : Operator} :
    supported? operators key = some op ↔ op ∈ operators ∧ op.name = key := by
  rw [supported?, Option.filter_eq_some_iff, Operator.ofName?_eq_some_iff, List.contains_iff_mem, and_comm]

/-- An operator that a type has reads its argument by the grammar. -/
theorem parsePredicate_eq_ok_iff {type : AttributeType} {path : Path} {op : Operator} (ho : type.Offers op.form) {j : Json}
    {predicate : Predicate} :
    (parsePredicate type op j).result path = .ok predicate ↔ type.ReadsTest (op.name, j) predicate := by
  constructor
  · intro h
    unfold parsePredicate at h
    rw [← op.key_form]
    split at h
    · next comparison hc =>
      obtain ⟨value, hvalue, h⟩ := result_bind_eq_ok_iff.mp h
      obtain rfl := result_pure_eq_ok_iff.mp h
      rw [Operator.comparison?_eq_some_iff.mp hc] at ho ⊢
      exact .compare ho (parseLiteral_eq_ok_iff.mp hvalue)
    · next hc =>
      split at h
      · next hin =>
        subst hin
        split at h
        · obtain ⟨values, hvalues, h⟩ := result_bind_eq_ok_iff.mp h
          obtain rfl := result_pure_eq_ok_iff.mp h
          exact .isIn ho (parseLiterals_eq_ok_iff.mp hvalues)
        · exact absurd h result_invalid_ne_ok
      · next hin =>
        -- The only operator left that makes no comparison is the one for null.
        obtain rfl : op = .isNull := by
          cases op <;> first | rfl | exact absurd rfl hin | cases hc
        split at h
        · obtain rfl := result_pure_eq_ok_iff.mp h
          exact .isNull _ ho
        · exact absurd h result_invalid_ne_ok
  · generalize hm : (op.name, j) = member
    intro h
    cases h with
    | @compare comparison _ value _ hvalue =>
      obtain ⟨hname, rfl⟩ := Prod.mk.inj hm
      have hc := Operator.comparison?_eq_some_iff.mpr (Operator.form_eq_of_key hname.symm)
      simp only [parsePredicate, hc]
      exact result_bind_eq_ok_iff.mpr ⟨value, parseLiteral_eq_ok_iff.mpr hvalue, rfl⟩
    | @isIn items values _ hvalues =>
      obtain ⟨hname, rfl⟩ := Prod.mk.inj hm
      obtain rfl : op = .isIn := Operator.name_injective hname
      exact result_bind_eq_ok_iff.mpr ⟨values, parseLiterals_eq_ok_iff.mpr hvalues, rfl⟩
    | isNull expected _ =>
      obtain ⟨hname, rfl⟩ := Prod.mk.inj hm
      obtain rfl : op = .isNull := Operator.name_injective hname
      rfl

/-- A member is read as a test by the grammar. -/
theorem parseTest_eq_ok_iff {decl : AttributeDecl} {operators : List Operator} (ho : decl.type.operators? = some operators)
    {path : Path} {key : String} {j : Json} {predicate : Predicate} :
    (parseTest decl operators key j).result path = .ok predicate ↔ decl.type.ReadsTest (key, j) predicate := by
  rw [parseTest]
  cases hs : supported? operators key with
  | none =>
    simp only [result_unknown_ne_ok, false_iff]
    intro htest
    -- Every test has the name of an operator of the type.
    have hnone : ∀ form, decl.type.Offers form → form.key ≠ key := by
      rintro form hoffered hkey
      obtain ⟨op, hmem, rfl⟩ := (AttributeType.offers_iff ho).mp hoffered
      rw [supported?_eq_some_iff.mpr ⟨hmem, op.key_form.symm.trans hkey⟩] at hs
      cases hs
    generalize hm : (key, j) = member at htest
    cases htest with
    | compare hoffers _ => exact hnone _ hoffers (Prod.mk.inj hm).1.symm
    | isIn hoffers _ => exact hnone .isIn hoffers (Prod.mk.inj hm).1.symm
    | isNull _ hoffers => exact hnone .isNull hoffers (Prod.mk.inj hm).1.symm
  | some op =>
    obtain ⟨hmem, rfl⟩ := supported?_eq_some_iff.mp hs
    exact parsePredicate_eq_ok_iff ((AttributeType.offers_iff ho).mpr ⟨op, hmem, rfl⟩)

theorem parsePredicates_eq_ok_iff {decl : AttributeDecl} {operators : List Operator}
    (ho : decl.type.operators? = some operators) {path : Path} {members : List (String × Json)} {predicates : List Predicate} :
    (parsePredicates decl operators members).result path = .ok predicates ↔
      List.Forall₂ decl.type.ReadsTest members predicates := by
  induction members generalizing predicates with
  | nil => simp [parsePredicates]
  | cons member rest ih =>
    simp only [parsePredicates, result_bind_eq_ok_iff, result_inside, parseTest_eq_ok_iff ho, ih, result_pure_eq_ok_iff,
      List.forall₂_cons_left_iff]
    constructor
    · rintro ⟨predicate, hp, others, hothers, rfl⟩
      exact ⟨predicate, others, hp, hothers, rfl⟩
    · rintro ⟨predicate, others, hp, hothers, rfl⟩
      exact ⟨predicate, hp, others, hothers, rfl⟩

end Filter

/-! ## Filters are read by the grammar -/

theorem Quantifier.ofName?_eq_some_iff {key : String} {q : Quantifier} : ofName? key = Option.some q ↔ q.HasKey key := by
  constructor
  · intro h
    obtain rfl : q.name = key := by simpa using List.find?_some h
    cases q <;> constructor
  · intro h
    cases h <;> rfl

theorem Quantifier.hasKey_name (q : Quantifier) : q.HasKey q.name := by
  cases q <;> constructor

namespace Schema

variable {schema : Schema}

/-- What the members of a filter object can be. -/
theorem readsMember_iff {kind : EntityKind} {key : String} {j : Json} {entries : Filter} :
    schema.ReadsMember kind key j entries ↔
      (key = "and" ∧ ∃ items filters, j = .list items ∧ schema.ReadsItems kind items filters ∧ entries = [.and filters]) ∨
      (key = "or" ∧ ∃ items filters, j = .list items ∧ schema.ReadsItems kind items filters ∧ entries = [.or filters]) ∨
      (key = "not" ∧ ∃ filter, (schema.Reads kind j filter ∨ ∃ item, j = .list [item] ∧ schema.Reads kind item filter) ∧
        entries = [.not filter]) ∨
      (∃ decl ∈ kind.attributes, decl.name = key ∧ ∃ members predicates, j = .object members ∧
        List.Forall₂ decl.type.ReadsTest members predicates ∧ entries = [.scalar decl.name predicates]) ∨
      ∃ r ∈ kind.relationships, r.field = key ∧ ∃ related members, schema.kinds[r.relatedKind]? = some related ∧
        j = .object members ∧ schema.ReadsQuantifiers related r members entries := by
  constructor
  · intro h
    cases h with
    | and hitems => exact Or.inl ⟨rfl, _, _, rfl, hitems, rfl⟩
    | or hitems => exact Or.inr (Or.inl ⟨rfl, _, _, rfl, hitems, rfl⟩)
    | not hfilter => exact Or.inr (Or.inr (Or.inl ⟨rfl, _, Or.inl hfilter, rfl⟩))
    | notItem hfilter => exact Or.inr (Or.inr (Or.inl ⟨rfl, _, Or.inr ⟨_, rfl, hfilter⟩, rfl⟩))
    | scalar hd htests => exact Or.inr (Or.inr (Or.inr (Or.inl ⟨_, hd, rfl, _, _, rfl, htests, rfl⟩)))
    | relationship hr hk hquantifiers =>
      exact Or.inr (Or.inr (Or.inr (Or.inr ⟨_, hr, rfl, _, _, hk, rfl, hquantifiers⟩)))
  · rintro (⟨rfl, items, filters, rfl, hitems, rfl⟩ | ⟨rfl, items, filters, rfl, hitems, rfl⟩ |
      ⟨rfl, filter, hfilter | ⟨item, rfl, hfilter⟩, rfl⟩ | ⟨decl, hd, rfl, members, predicates, rfl, htests, rfl⟩ |
      ⟨r, hr, rfl, related, members, hk, rfl, hquantifiers⟩)
    · exact .and hitems
    · exact .or hitems
    · exact .not hfilter
    · exact .notItem hfilter
    · exact .scalar hd htests
    · exact .relationship hr hk hquantifiers

end Schema

namespace Filter

open Reader Schema

variable {schema : Schema} {filters : FilterSchema}

/-- A key that combines filters is no field of a kind. -/
theorem not_field_of_reserved (hs : schema.WellFormed) {name : String} {kind : EntityKind}
    (hk : schema.kinds[name]? = some kind) {key : String} (hkey : key ∈ reservedFieldNames) :
    (∀ decl ∈ kind.attributes, decl.name ≠ key) ∧ ∀ r ∈ kind.relationships, r.field ≠ key := by
  refine ⟨fun decl hd hname => ?_, fun r hr hname => ?_⟩
  · exact hs.unreserved hk key (List.mem_append_left _ (hname ▸ List.mem_map_of_mem hd)) hkey
  · exact hs.unreserved hk key (List.mem_append_right _ (hname ▸ List.mem_map_of_mem hr)) hkey

/-- A key that combines filters is read as what it combines. -/
theorem readsMember_reserved_iff (hs : schema.WellFormed) {name : String} {kind : EntityKind}
    (hk : schema.kinds[name]? = some kind) {key : String} (hkey : key ∈ reservedFieldNames) {j : Json} {entries : Filter} :
    schema.ReadsMember kind key j entries ↔
      (key = "and" ∧ ∃ items filters, j = .list items ∧ schema.ReadsItems kind items filters ∧ entries = [.and filters]) ∨
      (key = "or" ∧ ∃ items filters, j = .list items ∧ schema.ReadsItems kind items filters ∧ entries = [.or filters]) ∨
      (key = "not" ∧ ∃ filter, (schema.Reads kind j filter ∨ ∃ item, j = .list [item] ∧ schema.Reads kind item filter) ∧
        entries = [.not filter]) := by
  obtain ⟨hattr, hrel⟩ := not_field_of_reserved hs hk hkey
  rw [readsMember_iff]
  refine or_congr_right (or_congr_right (or_iff_left ?_))
  rintro (⟨decl, hd, h, _⟩ | ⟨r, hr, h, _⟩)
  · exact hattr decl hd h
  · exact hrel r hr h

theorem readsMember_and_iff (hs : schema.WellFormed) {name : String} {kind : EntityKind}
    (hk : schema.kinds[name]? = some kind) {j : Json} {entries : Filter} :
    schema.ReadsMember kind "and" j entries ↔
      ∃ inner, (∃ items, j = .list items ∧ schema.ReadsItems kind items inner) ∧ entries = [.and inner] := by
  rw [readsMember_reserved_iff hs hk (by decide)]
  simp only [true_and, show ("and" : String) ≠ "or" by decide, show ("and" : String) ≠ "not" by decide, false_and, or_false]
  constructor
  · rintro ⟨items, inner, hj, hitems, rfl⟩
    exact ⟨inner, ⟨items, hj, hitems⟩, rfl⟩
  · rintro ⟨inner, ⟨items, hj, hitems⟩, rfl⟩
    exact ⟨items, inner, hj, hitems, rfl⟩

theorem readsMember_or_iff (hs : schema.WellFormed) {name : String} {kind : EntityKind}
    (hk : schema.kinds[name]? = some kind) {j : Json} {entries : Filter} :
    schema.ReadsMember kind "or" j entries ↔
      ∃ inner, (∃ items, j = .list items ∧ schema.ReadsItems kind items inner) ∧ entries = [.or inner] := by
  rw [readsMember_reserved_iff hs hk (by decide)]
  simp only [true_and, show ("or" : String) ≠ "and" by decide, show ("or" : String) ≠ "not" by decide, false_and, or_false,
    false_or]
  constructor
  · rintro ⟨items, inner, hj, hitems, rfl⟩
    exact ⟨inner, ⟨items, hj, hitems⟩, rfl⟩
  · rintro ⟨inner, ⟨items, hj, hitems⟩, rfl⟩
    exact ⟨items, inner, hj, hitems, rfl⟩

theorem readsMember_not_iff (hs : schema.WellFormed) {name : String} {kind : EntityKind}
    (hk : schema.kinds[name]? = some kind) {j : Json} {entries : Filter} :
    schema.ReadsMember kind "not" j entries ↔
      ∃ inner, (schema.Reads kind j inner ∨ ∃ item, j = .list [item] ∧ schema.Reads kind item inner) ∧
        entries = [.not inner] := by
  rw [readsMember_reserved_iff hs hk (by decide)]
  simp only [true_and, show ("not" : String) ≠ "and" by decide, show ("not" : String) ≠ "or" by decide, false_and, false_or]

/-- A key that does not combine filters is read as the field of the definition says. -/
theorem readsMember_field_iff (hs : schema.WellFormed) {name : String} {kind : EntityKind}
    (hk : schema.kinds[name]? = some kind) {definition : FilterDefinition}
    (hd : FilterDefinition.ofKind kind = .ok definition) {key : String} (hkey : key ∉ reservedFieldNames) {j : Json}
    {entries : Filter} :
    schema.ReadsMember kind key j entries ↔ ∃ field, definition.fields[key]? = some field ∧
      match field with
      | .scalar decl _ => ∃ members predicates, j = .object members ∧
          List.Forall₂ decl.type.ReadsTest members predicates ∧ entries = [.scalar decl.name predicates]
      | .related r => ∃ related members, schema.kinds[r.relatedKind]? = some related ∧ j = .object members ∧
          schema.ReadsQuantifiers related r members entries := by
  have hfields : ∀ field, definition.fields[key]? = some field ↔ _ := fun _ => FilterSchema.fields_eq_some_iff hs hk hd
  simp only [reservedFieldNames, List.mem_cons, List.not_mem_nil, or_false, not_or] at hkey
  simp only [readsMember_iff, hkey, false_and, false_or]
  constructor
  · rintro (⟨decl, hdecl, rfl, hread⟩ | ⟨r, hr, rfl, hread⟩)
    · obtain ⟨operators, ho⟩ := FilterSchema.operators_of_ofKind hd decl hdecl
      exact ⟨_, (hfields _).mpr ⟨rfl, Or.inl ⟨decl, hdecl, operators, ho, rfl⟩⟩, hread⟩
    · exact ⟨_, (hfields _).mpr ⟨rfl, Or.inr ⟨r, hr, rfl⟩⟩, hread⟩
  · rintro ⟨field, hfield, hread⟩
    obtain ⟨rfl, ⟨decl, hdecl, operators, _, rfl⟩ | ⟨r, hr, rfl⟩⟩ := (hfields field).mp hfield
    · exact Or.inl ⟨decl, hdecl, rfl, hread⟩
    · exact Or.inr ⟨r, hr, rfl, hread⟩

theorem parseScalar_eq_ok_iff {decl : AttributeDecl} {operators : List Operator}
    (ho : decl.type.operators? = some operators) {path : Path} {j : Json} {entry : FilterEntry} :
    (parseScalar decl operators j).result path = .ok entry ↔ ∃ members predicates, j = .object members ∧
      List.Forall₂ decl.type.ReadsTest members predicates ∧ entry = .scalar decl.name predicates := by
  cases j with
  | object members =>
    simp only [parseScalar, result_bind_eq_ok_iff, parsePredicates_eq_ok_iff ho, result_pure_eq_ok_iff, Json.object.injEq,
      exists_and_left, exists_eq_left']
  | _ => simp [parseScalar]

variable (hs : schema.WellFormed) (hb : FilterSchema.build schema = .ok filters)

include hs hb

-- The hypotheses are passed along the mutual recursion, where the linter does not look.
set_option linter.unusedSectionVars false

mutual

/-- Every value is read as the grammar says, or refused. -/
theorem parseAt_eq_ok_iff {name : String} {kind : EntityKind} (hk : schema.kinds[name]? = some kind)
    {definition : FilterDefinition} (hd : FilterDefinition.ofKind kind = .ok definition) (path : Path) (j : Json)
    (filter : Filter) : (parseAt filters definition j).result path = .ok filter ↔ schema.Reads kind j filter := by
  match j with
  | .object members =>
    rw [parseAt, parseMembers_eq_ok_iff hk hd path members filter]
    exact ⟨.object, fun | .object h => h⟩
  | .null | .bool _ | .int _ | .float _ | .string _ | .list _ =>
    simp only [parseAt, result_invalid_ne_ok, false_iff]
    exact nofun

theorem parseMembers_eq_ok_iff {name : String} {kind : EntityKind} (hk : schema.kinds[name]? = some kind)
    {definition : FilterDefinition} (hd : FilterDefinition.ofKind kind = .ok definition) (path : Path)
    (members : List (String × Json)) (filter : Filter) :
    (parseMembers filters definition members).result path = .ok filter ↔ schema.ReadsMembers kind members filter := by
  match members with
  | [] =>
    rw [parseMembers, result_pure_eq_ok_iff]
    exact ⟨fun h => h ▸ .nil, fun | .nil => rfl⟩
  | (key, j) :: rest =>
    have hlist := parseList_eq_ok_iff hk hd (path ++ [.key key]) j
    have hsingle := parseSingle_eq_ok_iff hk hd (path ++ [.key key]) j
    have hrelated := fun r hr => parseRelated_eq_ok_iff hk (r := r) hr (path ++ [.key key]) j
    have hrest := parseMembers_eq_ok_iff hk hd path rest
    -- What the member is read as decides about the object, whichever of its readers is chosen.
    have hcons : ∀ member : Reader Filter,
        (∀ entries, member.result (path ++ [.key key]) = .ok entries ↔ schema.ReadsMember kind key j entries) →
        ((inside (.key key) member >>= fun entries => parseMembers filters definition rest >>= fun others =>
          pure (entries ++ others)).result path = .ok filter ↔ schema.ReadsMembers kind ((key, j) :: rest) filter) := by
      intro member hmember
      simp only [result_bind_eq_ok_iff, result_inside, hmember, hrest, result_pure_eq_ok_iff]
      constructor
      · rintro ⟨entries, hentries, others, hothers, rfl⟩
        exact .cons hentries hothers
      · intro h
        cases h with
        | cons hentries hothers => exact ⟨_, hentries, _, hothers, rfl⟩
    rw [parseMembers]
    refine hcons _ fun entries => ?_
    split
    · next hkey =>
      subst hkey
      simp only [result_bind_eq_ok_iff, result_pure_eq_ok_iff, hlist, readsMember_and_iff hs hk]
    · next hand =>
      split
      · next hkey =>
        subst hkey
        simp only [result_bind_eq_ok_iff, result_pure_eq_ok_iff, hlist, readsMember_or_iff hs hk]
      · next hor =>
        split
        · next hkey =>
          subst hkey
          simp only [result_bind_eq_ok_iff, result_pure_eq_ok_iff, hsingle, readsMember_not_iff hs hk]
        · next hnot =>
          have hkey : key ∉ reservedFieldNames := by simp [reservedFieldNames, hand, hor, hnot]
          have hfield : schema.ReadsMember kind key j entries ↔ _ := readsMember_field_iff hs hk hd hkey
          rw [hfield]
          cases hf : definition.fields[key]? with
          | none => simp
          | some field =>
            simp only [Option.some.injEq, exists_eq_left']
            obtain ⟨_, ⟨decl, _, operators, ho, rfl⟩ | ⟨r, hr, rfl⟩⟩ := (FilterSchema.fields_eq_some_iff hs hk hd).mp hf
            · simp only [result_bind_eq_ok_iff, result_pure_eq_ok_iff, parseScalar_eq_ok_iff ho]
              constructor
              · rintro ⟨_, ⟨items, predicates, hj, htests, rfl⟩, rfl⟩
                exact ⟨items, predicates, hj, htests, rfl⟩
              · rintro ⟨items, predicates, hj, htests, rfl⟩
                exact ⟨_, ⟨items, predicates, hj, htests, rfl⟩, rfl⟩
            · exact hrelated r hr entries

theorem parseList_eq_ok_iff {name : String} {kind : EntityKind} (hk : schema.kinds[name]? = some kind)
    {definition : FilterDefinition} (hd : FilterDefinition.ofKind kind = .ok definition) (path : Path) (j : Json)
    (inner : List Filter) :
    (parseList filters definition j).result path = .ok inner ↔ ∃ items, j = .list items ∧ schema.ReadsItems kind items inner := by
  match j with
  | .list items =>
    rw [parseList, parseItems_eq_ok_iff hk hd path 0 items inner]
    simp
  | .null | .bool _ | .int _ | .float _ | .string _ | .object _ => simp [parseList]

theorem parseItems_eq_ok_iff {name : String} {kind : EntityKind} (hk : schema.kinds[name]? = some kind)
    {definition : FilterDefinition} (hd : FilterDefinition.ofKind kind = .ok definition) (path : Path) (index : Nat)
    (items : List Json) (inner : List Filter) :
    (parseItems filters definition index items).result path = .ok inner ↔ schema.ReadsItems kind items inner := by
  match items with
  | [] =>
    rw [parseItems, result_pure_eq_ok_iff]
    exact ⟨fun h => h ▸ .nil, fun | .nil => rfl⟩
  | j :: js =>
    have hfirst := parseAt_eq_ok_iff hk hd (path ++ [.index index]) j
    have hothers := parseItems_eq_ok_iff hk hd path (index + 1) js
    simp only [parseItems, result_bind_eq_ok_iff, result_inside, result_pure_eq_ok_iff, hfirst, hothers]
    constructor
    · rintro ⟨filter, hfilter, rest, hrest, rfl⟩
      exact .cons hfilter hrest
    · intro h
      cases h with
      | cons hfilter hrest => exact ⟨_, hfilter, _, hrest, rfl⟩

theorem parseSingle_eq_ok_iff {name : String} {kind : EntityKind} (hk : schema.kinds[name]? = some kind)
    {definition : FilterDefinition} (hd : FilterDefinition.ofKind kind = .ok definition) (path : Path) (j : Json)
    (filter : Filter) :
    (parseSingle filters definition j).result path = .ok filter ↔
      schema.Reads kind j filter ∨ ∃ item, j = .list [item] ∧ schema.Reads kind item filter := by
  match j with
  | .list [item] =>
    have hitem := parseAt_eq_ok_iff hk hd (path ++ [.index 0]) item filter
    rw [parseSingle, result_inside, hitem]
    constructor
    · exact fun h => Or.inr ⟨item, rfl, h⟩
    · rintro (h | ⟨_, hj, h⟩)
      · cases h
      · cases hj
        exact h
  | .object members =>
    rw [parseSingle, parseMembers_eq_ok_iff hk hd path members filter]
    constructor
    · exact fun h => Or.inl (.object h)
    · rintro (h | ⟨_, hj, _⟩)
      · cases h with
        | object h => exact h
      · cases hj
  | .null | .bool _ | .int _ | .float _ | .string _ | .list [] | .list (_ :: _ :: _) =>
    simp only [parseSingle, result_invalid_ne_ok, false_iff]
    rintro (h | ⟨_, hj, _⟩)
    · cases h
    · cases hj

theorem parseRelated_eq_ok_iff {name : String} {kind : EntityKind} (hk : schema.kinds[name]? = some kind) {r : Relationship}
    (hr : r ∈ kind.relationships) (path : Path) (j : Json) (entries : Filter) :
    (parseRelated filters r j).result path = .ok entries ↔ ∃ related members, schema.kinds[r.relatedKind]? = some related ∧
      j = .object members ∧ schema.ReadsQuantifiers related r members entries := by
  obtain ⟨related, hrelated, _⟩ := hs.related hk r hr
  match j with
  | .object members =>
    rw [parseRelated, parseQuantifiers_eq_ok_iff hrelated path members entries]
    simp [hrelated]
  | .null | .bool _ | .int _ | .float _ | .string _ | .list _ => simp [parseRelated]

theorem parseQuantifiers_eq_ok_iff {related : EntityKind} {r : Relationship}
    (hk : schema.kinds[r.relatedKind]? = some related) (path : Path) (members : List (String × Json)) (entries : Filter) :
    (parseQuantifiers filters r members).result path = .ok entries ↔ schema.ReadsQuantifiers related r members entries := by
  match members with
  | [] =>
    rw [parseQuantifiers, result_pure_eq_ok_iff]
    exact ⟨fun h => h ▸ .nil, fun | .nil => rfl⟩
  | (key, j) :: rest =>
    obtain ⟨definition, hdefinition, hd⟩ := FilterSchema.definition_eq_ok hs hb hk
    have hfilter := parseAt_eq_ok_iff hk hd (path ++ [.key key]) j
    have hrest := parseQuantifiers_eq_ok_iff hk path rest
    simp only [parseQuantifiers, result_bind_eq_ok_iff, result_inside, result_pure_eq_ok_iff, hrest]
    constructor
    · rintro ⟨entry, hentry, others, hothers, rfl⟩
      split at hentry
      · exact absurd hentry result_unknown_ne_ok
      · next q hq =>
        simp only [result_bind_eq_ok_iff, result_lift, hdefinition, Except.ok.injEq, exists_eq_left', hfilter,
          result_pure_eq_ok_iff] at hentry
        obtain ⟨filter, hf, rfl⟩ := hentry
        exact .cons (Quantifier.ofName?_eq_some_iff.mp hq) hf hothers
    · intro h
      cases h with
      | cons hq hf hothers =>
        refine ⟨_, ?_, _, hothers, rfl⟩
        simp only [Quantifier.ofName?_eq_some_iff.mpr hq, result_bind_eq_ok_iff, result_lift, hdefinition, Except.ok.injEq,
          exists_eq_left', hfilter, result_pure_eq_ok_iff]
        exact ⟨_, hf, rfl⟩

end

end Filter

namespace FilterSchema

open Filter.Reader

/-- Just the filters on a kind of the schema are accepted, each as what it is read as. -/
theorem parse_eq_ok_iff {schema : Schema} (hs : schema.WellFormed) {filters : FilterSchema}
    (hb : FilterSchema.build schema = .ok filters) {kind : String} {j : Json} {filter : Filter} :
    filters.parse kind j = .ok filter ↔ schema.ReadsFilter kind j filter := by
  rw [show filters.parse kind j = (filters.reader kind j).result [] from rfl, reader, result_bind_eq_ok_iff]
  simp only [result_lift]
  constructor
  · rintro ⟨definition, hdefinition, hparse⟩
    obtain ⟨k, hk⟩ := kind_of_definition hs hb hdefinition
    obtain ⟨own, hown, hd⟩ := definition_eq_ok hs hb hk
    obtain rfl := Except.ok.inj (hdefinition.symm.trans hown)
    exact ⟨k, hk, (Filter.parseAt_eq_ok_iff hs hb hk hd [] j filter).mp hparse⟩
  · rintro ⟨k, hk, hreads⟩
    obtain ⟨definition, hdefinition, hd⟩ := definition_eq_ok hs hb hk
    exact ⟨definition, hdefinition, (Filter.parseAt_eq_ok_iff hs hb hk hd [] j filter).mpr hreads⟩

/-- A filter on the related kind is accepted under a quantifier in the field of a relationship. -/
theorem parse_quantified {schema : Schema} (hs : schema.WellFormed) {filters : FilterSchema}
    (hb : FilterSchema.build schema = .ok filters) {name : String} {kind : EntityKind} (hk : schema.kinds[name]? = some kind)
    {r : Relationship} (hr : r ∈ kind.relationships) (q : Quantifier) {j : Json} {filter : Filter}
    (hj : filters.parse r.relatedKind j = .ok filter) :
    filters.parse name (.object [(r.field, .object [(q.name, j)])]) = .ok [.quantified q r filter] := by
  obtain ⟨related, hrelated, hreads⟩ := (parse_eq_ok_iff hs hb).mp hj
  have hquantifiers : schema.ReadsQuantifiers related r [(q.name, j)] [.quantified q r filter] :=
    .cons q.hasKey_name hreads .nil
  exact (parse_eq_ok_iff hs hb).mpr ⟨kind, hk, .object (.cons (.relationship hr hrelated hquantifiers) .nil)⟩

/-- A JSON value is accepted exactly when it is a filter on the kind by the grammar, and then as the filter that the grammar
reads off it. The members of the objects that the program reads are put in the order of their keys before, and the entries of the
filter are then in the order of theirs. -/
theorem parse_accepts_grammar {decls : List KindDecl} {schema : Schema} (hd : Schema.build decls = .ok schema)
    {filters : FilterSchema} (hb : FilterSchema.build schema = .ok filters) (kind : String) (j : Json) :
    (∀ filter, filters.parse kind j = .ok filter ↔ schema.ReadsFilter kind j filter) ∧
      ∀ filter, filters.parse kind j.normalize = .ok filter → filter.InKeyOrder := by
  have hs := Schema.wellFormed_of_build hd
  refine ⟨fun _ => parse_eq_ok_iff hs hb, fun filter hparse => ?_⟩
  obtain ⟨_, _, hreads⟩ := (parse_eq_ok_iff hs hb).mp hparse
  exact hreads.inKeyOrder j.inKeyOrder_normalize

namespace Example

def subtasks : Relationship := ⟨"Task", "subtasks", "Task", "PART_OF", .incoming, .many, none⟩

def effort : AttributeDecl := ⟨"effort", .float⟩

def taskKind : EntityKind := ⟨"Task", [effort], [subtasks]⟩

def decls : List KindDecl := [⟨"Task", [effort], [⟨"subtasks", "Task", "PART_OF", .incoming, .many⟩]⟩]

def schema : Schema := ⟨.ofList [("Task", taskKind)] compare⟩

def filters : FilterSchema :=
  ⟨.ofList [("Task", ⟨"Task",
    .ofList [("effort", .scalar effort Operator.numeric), ("subtasks", .related subtasks)] compare⟩)] compare⟩

theorem build_decls : Schema.build decls = .ok schema := rfl

theorem build_schema : FilterSchema.build schema = .ok filters := rfl

end Example

namespace Example

/-- A negated filter on the subtasks of tasks, with two quantifiers. -/
def negatedSubtasks : Json :=
  .object [("not", .list [.object [("subtasks",
    .object [("none", .object []), ("some", .object [("effort", .object [("gt", .int 3)])])])]])]

def negatedSubtasksFilter : Filter :=
  [.not [.quantified .none subtasks [],
    .quantified .some subtasks [.scalar "effort" [.compare .gt (.float (Binary64.ofInt 3))]]]]

end Example

/-- It is accepted, with a whole number for one of floating point. -/
theorem subtasks_filter_accepted :
    Example.filters.parse "Task" Example.negatedSubtasks = .ok Example.negatedSubtasksFilter ∧
      Example.negatedSubtasksFilter.InKeyOrder := by
  obtain ⟨hiff, hordered⟩ :=
    parse_accepts_grammar Example.build_decls Example.build_schema "Task" Example.negatedSubtasks
  have heffort : Example.effort.type.ReadsTest ("gt", .int 3) (.compare .gt (.float (Binary64.ofInt 3))) :=
    .compare (by decide : TestForm.compare .gt ∈ AttributeType.float.tests) (.whole 3)
  have htask : Example.schema.Reads Example.taskKind (.object [("effort", .object [("gt", .int 3)])])
      [.scalar "effort" [.compare .gt (.float (Binary64.ofInt 3))]] :=
    .object (.cons (.scalar List.mem_cons_self (.cons heffort .nil)) .nil)
  have hquantifiers : Example.schema.ReadsQuantifiers Example.taskKind Example.subtasks _ _ :=
    .cons .none (.object .nil) (.cons .some htask .nil)
  have hsubtasks : Example.schema.ReadsMember Example.taskKind "subtasks" _ _ :=
    .relationship (r := Example.subtasks) List.mem_cons_self rfl hquantifiers
  have hparse := (hiff Example.negatedSubtasksFilter).mpr
    ⟨Example.taskKind, rfl, .object (.cons (.notItem (.object (.cons hsubtasks .nil))) .nil)⟩
  have hnormal : Example.negatedSubtasks.normalize = Example.negatedSubtasks := rfl
  exact ⟨hparse, hordered _ (hnormal ▸ hparse)⟩

end FilterSchema

end EntityGraph
