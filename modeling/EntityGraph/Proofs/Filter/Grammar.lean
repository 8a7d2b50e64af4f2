import EntityGraph.Filter.Basic
import EntityGraph.Json.Basic
import EntityGraph.Proofs.Collections
import EntityGraph.Schema.Basic
import Mathlib.Data.List.Forall2

/-!
# The grammar of filters

`Schema.ReadsFilter` says, without a reader, which JSON values are filters on a kind and as what each is read: an object has an
entry for every member, in order, and for a relationship one for every quantifier. Where the members of objects are in the order of
their keys (`Json.InKeyOrder`), so are the entries (`Schema.Reads.inKeyOrder`).
-/

namespace EntityGraph

/-! ## Keys in order -/

namespace Json

mutual

/-- The members of every object are in the order of their keys, and no key is repeated. -/
def InKeyOrder : Json → Prop
  | .list items => ItemsInKeyOrder items
  | .object members => (members.map Prod.fst).Pairwise (· < ·) ∧ MembersInKeyOrder members
  | _ => True

def ItemsInKeyOrder : List Json → Prop
  | [] => True
  | j :: js => j.InKeyOrder ∧ ItemsInKeyOrder js

def MembersInKeyOrder : List (String × Json) → Prop
  | [] => True
  | (_, j) :: rest => j.InKeyOrder ∧ MembersInKeyOrder rest

end

theorem membersInKeyOrder_iff {members : List (String × Json)} :
    MembersInKeyOrder members ↔ ∀ member ∈ members, member.2.InKeyOrder := by
  induction members with
  | nil => simp [MembersInKeyOrder]
  | cons member rest ih => rw [MembersInKeyOrder, ih, List.forall_mem_cons]

mutual

/-- Normal values have their members in order. -/
theorem inKeyOrder_normalize (j : Json) : j.normalize.InKeyOrder := by
  match j with
  | .list items =>
    rw [normalize, InKeyOrder]
    exact itemsInKeyOrder_normalize items
  | .object members =>
    have hmembers := membersInKeyOrder_iff.mp (membersInKeyOrder_normalize members)
    rw [normalize, InKeyOrder]
    refine ⟨?_, membersInKeyOrder_iff.mpr fun member hm => ?_⟩
    · have hlt : ∀ a b : String, compare a b = .lt → a < b := fun _ _ h => compareOfLessAndEq_eq_lt.mp h
      rw [List.pairwise_map]
      exact Std.ExtTreeMap.ordered_keys_toList.imp (hlt _ _)
    · -- A member of the sorted map is the last of the given members with its key.
      obtain ⟨key, value⟩ := member
      rw [Std.ExtTreeMap.mem_toList_iff_getElem?_eq_some, Std.ExtTreeMap.ofList_eq_foldl, getElem?_foldl_insert] at hm
      simp only [Std.ExtTreeMap.getElem?_empty, Option.or_none, Option.map_eq_some_iff] at hm
      obtain ⟨given, hl, rfl⟩ := hm
      exact hmembers given (lastWith_some hl).1
  | .null | .bool _ | .int _ | .float _ | .string _ => simp [normalize, InKeyOrder]

theorem itemsInKeyOrder_normalize (items : List Json) : ItemsInKeyOrder (normalizeItems items) := by
  match items with
  | [] => simp [normalizeItems, ItemsInKeyOrder]
  | j :: js =>
    rw [normalizeItems, ItemsInKeyOrder]
    exact ⟨inKeyOrder_normalize j, itemsInKeyOrder_normalize js⟩

theorem membersInKeyOrder_normalize (members : List (String × Json)) : MembersInKeyOrder (normalizeMembers members) := by
  match members with
  | [] => simp [normalizeMembers, MembersInKeyOrder]
  | (key, j) :: rest =>
    rw [normalizeMembers, MembersInKeyOrder]
    exact ⟨inKeyOrder_normalize j, membersInKeyOrder_normalize rest⟩

end

end Json

/-! ## The grammar -/

/-- The literals of a type, with the values they stand for. The integers of an attribute of whole numbers fit 64 bits with a
sign; every number is one of floating point. -/
inductive AttributeType.Reads : AttributeType → Json → Value → Prop
  | string (s : String) : Reads .string (.string s) (.string s)
  | id (s : String) : Reads .id (.string s) (.string s)
  | int {n : Int} : Int64.minValue.toInt ≤ n → n ≤ Int64.maxValue.toInt → Reads .int (.int n) (.int (Int64.ofInt n))
  | whole (n : Int) : Reads .float (.int n) (.float (Binary64.ofInt n))
  | float (x : Binary64) : Reads .float (.float x) (.float x)
  | boolean (b : Bool) : Reads .boolean (.bool b) (.bool b)

/-- The forms that a test of an attribute has: a comparison with a literal, a search in a list of literals, a test for null. -/
inductive TestForm
  | compare (comparison : Comparison)
  | isIn
  | isNull
deriving DecidableEq

/-- The key of a test in a filter. -/
def TestForm.key : TestForm → String
  | .compare .eq => "equals"
  | .compare .neq => "notEquals"
  | .compare .lt => "lt"
  | .compare .lte => "lte"
  | .compare .gt => "gt"
  | .compare .gte => "gte"
  | .compare .contains => "contains"
  | .compare .startsWith => "startsWith"
  | .compare .endsWith => "endsWith"
  | .isIn => "in"
  | .isNull => "isNull"

/-- The tests of attributes of a type. Numbers and texts are ordered, texts have parts, and truth values are not searched in
lists. -/
def AttributeType.tests : AttributeType → List TestForm
  | .string => [.compare .eq, .compare .neq, .isIn, .isNull, .compare .lt, .compare .lte, .compare .gt, .compare .gte,
      .compare .contains, .compare .startsWith, .compare .endsWith]
  | .int | .float =>
    [.compare .eq, .compare .neq, .isIn, .isNull, .compare .lt, .compare .lte, .compare .gt, .compare .gte]
  | .id => [.compare .eq, .compare .neq, .isIn, .isNull]
  | .boolean => [.compare .eq, .compare .neq, .isNull]
  | .other _ => []

/-- Filters have a form of test on attributes of a type. -/
def AttributeType.Offers (type : AttributeType) (form : TestForm) : Prop := form ∈ type.tests

/-- The tests of an attribute of a type, each a key with its argument. -/
inductive AttributeType.ReadsTest (type : AttributeType) : String × Json → Predicate → Prop
  | compare {comparison : Comparison} {j : Json} {value : Value} : type.Offers (.compare comparison) → type.Reads j value →
      ReadsTest type ((TestForm.compare comparison).key, j) (.compare comparison value)
  | isIn {items : List Json} {values : List Value} :
    type.Offers .isIn → List.Forall₂ type.Reads items values → ReadsTest type ("in", .list items) (.isIn values)
  | isNull (expected : Bool) : type.Offers .isNull → ReadsTest type ("isNull", .bool expected) (.isNull expected)

/-- The keys of the quantifiers in a filter. -/
inductive Quantifier.HasKey : Quantifier → String → Prop
  | all : HasKey .all "all"
  | some : HasKey .some "some"
  | none : HasKey .none "none"

namespace Schema

mutual

/-- The filters on a kind, each a JSON value with the entries it is read as. -/
inductive Reads (schema : Schema) : EntityKind → Json → Filter → Prop
  | object {kind : EntityKind} {members : List (String × Json)} {entries : Filter} :
    ReadsMembers schema kind members entries → Reads schema kind (.object members) entries

/-- The members of a filter object, with their entries in order. -/
inductive ReadsMembers (schema : Schema) : EntityKind → List (String × Json) → Filter → Prop
  | nil {kind : EntityKind} : ReadsMembers schema kind [] []
  | cons {kind : EntityKind} {key : String} {j : Json} {rest : List (String × Json)} {entries others : Filter} :
    ReadsMember schema kind key j entries → ReadsMembers schema kind rest others →
      ReadsMembers schema kind ((key, j) :: rest) (entries ++ others)

/-- A member of a filter object: filters of the same kind that are combined, tests of an attribute, or filters on the nodes of
a relationship. -/
inductive ReadsMember (schema : Schema) : EntityKind → String → Json → Filter → Prop
  | and {kind : EntityKind} {items : List Json} {filters : List Filter} :
    ReadsItems schema kind items filters → ReadsMember schema kind "and" (.list items) [.and filters]
  | or {kind : EntityKind} {items : List Json} {filters : List Filter} :
    ReadsItems schema kind items filters → ReadsMember schema kind "or" (.list items) [.or filters]
  | not {kind : EntityKind} {j : Json} {filter : Filter} :
    Reads schema kind j filter → ReadsMember schema kind "not" j [.not filter]
  | notItem {kind : EntityKind} {j : Json} {filter : Filter} :
    Reads schema kind j filter → ReadsMember schema kind "not" (.list [j]) [.not filter]
  | scalar {kind : EntityKind} {decl : AttributeDecl} {members : List (String × Json)} {predicates : List Predicate} :
    decl ∈ kind.attributes → List.Forall₂ decl.type.ReadsTest members predicates →
      ReadsMember schema kind decl.name (.object members) [.scalar decl.name predicates]
  | relationship {kind related : EntityKind} {r : Relationship} {members : List (String × Json)} {entries : Filter} :
    r ∈ kind.relationships → schema.kinds[r.relatedKind]? = some related → ReadsQuantifiers schema related r members entries →
      ReadsMember schema kind r.field (.object members) entries

/-- The items of a list of filters. -/
inductive ReadsItems (schema : Schema) : EntityKind → List Json → List Filter → Prop
  | nil {kind : EntityKind} : ReadsItems schema kind [] []
  | cons {kind : EntityKind} {j : Json} {js : List Json} {filter : Filter} {filters : List Filter} :
    Reads schema kind j filter → ReadsItems schema kind js filters → ReadsItems schema kind (j :: js) (filter :: filters)

/-- The members of the object for a relationship: quantifiers with filters on the related kind. -/
inductive ReadsQuantifiers (schema : Schema) : EntityKind → Relationship → List (String × Json) → Filter → Prop
  | nil {related : EntityKind} {r : Relationship} : ReadsQuantifiers schema related r [] []
  | cons {related : EntityKind} {r : Relationship} {q : Quantifier} {key : String} {j : Json} {rest : List (String × Json)}
    {filter entries : Filter} :
    q.HasKey key → Reads schema related j filter → ReadsQuantifiers schema related r rest entries →
      ReadsQuantifiers schema related r ((key, j) :: rest) (.quantified q r filter :: entries)

end

/-- A JSON value is a filter on the kind with a name, and is read as stated. -/
def ReadsFilter (schema : Schema) (kind : String) (j : Json) (filter : Filter) : Prop :=
  ∃ k, schema.kinds[kind]? = some k ∧ schema.Reads k j filter

end Schema

/-! ## Entries in order -/

/-- The form of a test. -/
def Predicate.form : Predicate → TestForm
  | .compare comparison _ => .compare comparison
  | .isIn _ => .isIn
  | .isNull _ => .isNull

/-- The key that an entry stands under in a filter. -/
def FilterEntry.key : FilterEntry → String
  | .scalar attr _ => attr
  | .and _ => "and"
  | .or _ => "or"
  | .not _ => "not"
  | .quantified _ r _ => r.field

/-- An entry stands before another if its key is smaller; of two entries for one relationship, if its quantifier is. -/
inductive FilterEntry.Before : FilterEntry → FilterEntry → Prop
  | key {a b : FilterEntry} : a.key < b.key → Before a b
  | quantifier {q q' : Quantifier} {key key' : String} {r : Relationship} {filter filter' : Filter} :
    q.HasKey key → q'.HasKey key' → key < key' → Before (.quantified q r filter) (.quantified q' r filter')

mutual

/-- The entries of a filter stand in order, and so does what is in them. -/
inductive Filter.InKeyOrder : Filter → Prop
  | intro {filter : Filter} :
    filter.Pairwise FilterEntry.Before → (∀ entry ∈ filter, FilterEntry.InKeyOrder entry) → Filter.InKeyOrder filter

/-- The tests in an entry, or the entries of the filters in it, stand in order. -/
inductive FilterEntry.InKeyOrder : FilterEntry → Prop
  | scalar {attr : String} {predicates : List Predicate} :
    predicates.Pairwise (fun p p' => p.form.key < p'.form.key) → FilterEntry.InKeyOrder (.scalar attr predicates)
  | and {filters : List Filter} : (∀ filter ∈ filters, Filter.InKeyOrder filter) → FilterEntry.InKeyOrder (.and filters)
  | or {filters : List Filter} : (∀ filter ∈ filters, Filter.InKeyOrder filter) → FilterEntry.InKeyOrder (.or filters)
  | not {filter : Filter} : Filter.InKeyOrder filter → FilterEntry.InKeyOrder (.not filter)
  | quantified {q : Quantifier} {r : Relationship} {filter : Filter} :
    Filter.InKeyOrder filter → FilterEntry.InKeyOrder (.quantified q r filter)

end

theorem AttributeType.ReadsTest.key_eq {type : AttributeType} {member : String × Json} {p : Predicate}
    (h : type.ReadsTest member p) : p.form.key = member.1 := by
  cases h <;> rfl

/-- Tests stand in the order of the members that they are read from. -/
theorem pairwise_tests {type : AttributeType} {members : List (String × Json)} {predicates : List Predicate}
    (h : List.Forall₂ type.ReadsTest members predicates) (hm : (members.map Prod.fst).Pairwise (· < ·)) :
    predicates.Pairwise fun p p' => p.form.key < p'.form.key := by
  have hkeys : predicates.map (fun p => p.form.key) = members.map Prod.fst := by
    induction h with
    | nil => rfl
    | cons htest _ ih => rw [List.map_cons, List.map_cons, htest.key_eq, ih (List.pairwise_cons.mp hm).2]
  rw [← List.pairwise_map (R := (· < ·)) (f := fun p : Predicate => p.form.key), hkeys]
  exact hm

namespace Schema

variable {schema : Schema}

/-- The entries for a relationship stand under its field, each with a quantifier of the object. -/
theorem ReadsQuantifiers.exists_eq {related : EntityKind} {r : Relationship} {members : List (String × Json)} {entries : Filter} :
    schema.ReadsQuantifiers related r members entries → ∀ entry ∈ entries, ∃ q filter key, entry = .quantified q r filter ∧
      Quantifier.HasKey q key ∧ key ∈ members.map Prod.fst
  | .nil => List.forall_mem_nil _
  | .cons hq _ hrest => by
    refine List.forall_mem_cons.mpr ⟨⟨_, _, _, rfl, hq, List.mem_cons_self⟩, fun entry he => ?_⟩
    obtain ⟨q, filter, key, rfl, hkey, hmem⟩ := hrest.exists_eq entry he
    exact ⟨q, filter, key, rfl, hkey, List.mem_cons_of_mem _ hmem⟩

/-- The entries that a member gives stand under its key. -/
theorem ReadsMember.key_eq {kind : EntityKind} {key : String} {j : Json} {entries : Filter}
    (h : schema.ReadsMember kind key j entries) : ∀ entry ∈ entries, entry.key = key := by
  cases h with
  | relationship _ _ hquantifiers =>
    intro entry he
    obtain ⟨q, filter, _, rfl, _⟩ := hquantifiers.exists_eq entry he
    rfl
  | and | or | not | notItem | scalar => exact List.forall_mem_singleton.mpr rfl

theorem ReadsMembers.exists_key_eq {kind : EntityKind} {members : List (String × Json)} {entries : Filter} :
    schema.ReadsMembers kind members entries →
    ∀ entry ∈ entries, entry.key ∈ members.map Prod.fst
  | .nil => List.forall_mem_nil _
  | .cons hmember hrest => List.forall_mem_append.mpr
      ⟨fun entry he => hmember.key_eq entry he ▸ List.mem_cons_self,
        fun entry he => List.mem_cons_of_mem _ (hrest.exists_key_eq entry he)⟩

mutual

/-- What is read from a value with its keys in order has its entries in order. -/
theorem Reads.inKeyOrder {kind : EntityKind} {j : Json} {entries : Filter} :
    schema.Reads kind j entries → j.InKeyOrder → entries.InKeyOrder
  | .object hmembers, hj => hmembers.inKeyOrder hj.1 hj.2

theorem ReadsMembers.inKeyOrder {kind : EntityKind} {members : List (String × Json)} {entries : Filter} :
    schema.ReadsMembers kind members entries → (members.map Prod.fst).Pairwise (· < ·) → Json.MembersInKeyOrder members →
      entries.InKeyOrder
  | .nil, _, _ => .intro .nil (List.forall_mem_nil _)
  | .cons hmember hrest, hkeys, hj => by
    obtain ⟨hfirst, hkeys⟩ := List.pairwise_cons.mp hkeys
    obtain ⟨hbefore, hown⟩ := hmember.inKeyOrder hj.1
    obtain ⟨hafter, hothers⟩ := hrest.inKeyOrder hkeys hj.2
    refine .intro (List.pairwise_append.mpr ⟨hbefore, hafter, fun a ha b hb => .key ?_⟩)
      (List.forall_mem_append.mpr ⟨hown, hothers⟩)
    rw [hmember.key_eq a ha]
    exact hfirst _ (hrest.exists_key_eq b hb)

theorem ReadsMember.inKeyOrder {kind : EntityKind} {key : String} {j : Json} {entries : Filter} :
    schema.ReadsMember kind key j entries → j.InKeyOrder → entries.InKeyOrder
  | .and hitems, hj => .intro (List.pairwise_singleton _ _) (List.forall_mem_singleton.mpr (.and (hitems.inKeyOrder hj)))
  | .or hitems, hj => .intro (List.pairwise_singleton _ _) (List.forall_mem_singleton.mpr (.or (hitems.inKeyOrder hj)))
  | .not hfilter, hj => .intro (List.pairwise_singleton _ _) (List.forall_mem_singleton.mpr (.not (hfilter.inKeyOrder hj)))
  | .notItem hfilter, hj =>
    .intro (List.pairwise_singleton _ _) (List.forall_mem_singleton.mpr (.not (hfilter.inKeyOrder hj.1)))
  | .scalar _ htests, hj =>
    .intro (List.pairwise_singleton _ _) (List.forall_mem_singleton.mpr (.scalar (pairwise_tests htests hj.1)))
  | .relationship _ _ hquantifiers, hj => hquantifiers.inKeyOrder hj.1 hj.2

theorem ReadsItems.inKeyOrder {kind : EntityKind} {items : List Json} {filters : List Filter} :
    schema.ReadsItems kind items filters → Json.ItemsInKeyOrder items → ∀ filter ∈ filters, Filter.InKeyOrder filter
  | .nil, _ => List.forall_mem_nil _
  | .cons hfilter hrest, hj => List.forall_mem_cons.mpr ⟨hfilter.inKeyOrder hj.1, hrest.inKeyOrder hj.2⟩

theorem ReadsQuantifiers.inKeyOrder {related : EntityKind} {r : Relationship} {members : List (String × Json)}
    {entries : Filter} : schema.ReadsQuantifiers related r members entries →
    (members.map Prod.fst).Pairwise (· < ·) → Json.MembersInKeyOrder members → entries.InKeyOrder
  | .nil, _, _ => .intro .nil (List.forall_mem_nil _)
  | .cons hq hfilter hrest, hkeys, hj => by
    obtain ⟨hfirst, hkeys⟩ := List.pairwise_cons.mp hkeys
    obtain ⟨hafter, hothers⟩ := hrest.inKeyOrder hkeys hj.2
    refine .intro (List.pairwise_cons.mpr ⟨fun entry he => ?_, hafter⟩)
      (List.forall_mem_cons.mpr ⟨.quantified (hfilter.inKeyOrder hj.1), hothers⟩)
    obtain ⟨q', filter', key', rfl, hq', hmem⟩ := hrest.exists_eq entry he
    exact .quantifier hq hq' (hfirst _ hmem)

end

end Schema

end EntityGraph
