import EntityGraph.Proofs.Filter.Accepted
import EntityGraph.Proofs.Filter.Variables

/-!
# Types of compiled conditions

`Schema.WellTyped` says of a condition that it asks only what the schema knows, when its variables stand for nodes of certain
kinds: attributes and relationships of these kinds, with literals and comparisons of the attributes' types. An accepted filter
suits its kind (`Schema.Reads.suits`), and a filter that suits a kind is compiled to a condition that is well typed and has no free
variable but its root (`Schema.Suits.wellTyped`); so evaluation meets no unbound variable.
-/

namespace EntityGraph

namespace Condition

theorem mem_freeIn_iff {conditions : List Condition} {v : Variable} : v ∈ freeIn conditions ↔ ∃ c ∈ conditions, v ∈ c.free := by
  induction conditions with
  | nil => simp [freeIn]
  | cons c cs ih => simp [freeIn, ih]

end Condition

/-! ## Values and tests of a type -/

/-- The values of a type. Null is a value of no type. -/
inductive AttributeType.HasValue : AttributeType → Value → Prop
  | string (s : String) : HasValue .string (.string s)
  | id (s : String) : HasValue .id (.string s)
  | int (n : Int64) : HasValue .int (.int n)
  | float (x : Binary64) : HasValue .float (.float x)
  | boolean (b : Bool) : HasValue .boolean (.bool b)

/-- Filters have a test on attributes of a type that makes the comparison. -/
def AttributeType.Supports (type : AttributeType) (comparison : Comparison) : Prop := type.Offers (.compare comparison)

/-- The tests of attributes of a type. -/
inductive AttributeType.Admits (type : AttributeType) : Predicate → Prop
  | compare {op : Comparison} {value : Value} : type.Supports op → type.HasValue value → Admits type (.compare op value)
  | isIn {values : List Value} : type.Offers .isIn → (∀ value ∈ values, type.HasValue value) → Admits type (.isIn values)
  | isNull (expected : Bool) : type.Offers .isNull → Admits type (.isNull expected)

section

variable {type : AttributeType}

theorem AttributeType.Reads.hasValue {j : Json} {value : Value} (h : type.Reads j value) : type.HasValue value := by
  cases h <;> constructor

theorem AttributeType.ReadsTest.admits {member : String × Json} {p : Predicate} (h : type.ReadsTest member p) :
    type.Admits p := by
  cases h with
  | compare ho hvalue => exact .compare ho hvalue.hasValue
  | isIn ho hvalues =>
    refine .isIn ho fun value hv => ?_
    obtain ⟨_, _, hvalue⟩ := exists_of_forall₂ hvalues value hv
    exact hvalue.hasValue
  | isNull expected ho => exact .isNull expected ho

end

/-! ## Filters that suit a kind -/

namespace Schema

variable {schema : Schema}

/-- An entry of a filter asks only for attributes and relationships of a kind, with tests of the attributes' types. -/
inductive Suits (schema : Schema) : EntityKind → FilterEntry → Prop
  | scalar {kind : EntityKind} {decl : AttributeDecl} {predicates : List Predicate} :
    decl ∈ kind.attributes → (∀ p ∈ predicates, decl.type.Admits p) → Suits schema kind (.scalar decl.name predicates)
  | and {kind : EntityKind} {filters : List Filter} :
    (∀ filter ∈ filters, ∀ entry ∈ filter, Suits schema kind entry) → Suits schema kind (.and filters)
  | or {kind : EntityKind} {filters : List Filter} :
    (∀ filter ∈ filters, ∀ entry ∈ filter, Suits schema kind entry) → Suits schema kind (.or filters)
  | not {kind : EntityKind} {filter : Filter} : (∀ entry ∈ filter, Suits schema kind entry) → Suits schema kind (.not filter)
  | quantified {kind related : EntityKind} {q : Quantifier} {r : Relationship} {filter : Filter} :
    r ∈ kind.relationships → schema.kinds[r.relatedKind]? = some related → (∀ entry ∈ filter, Suits schema related entry) →
      Suits schema kind (.quantified q r filter)

mutual

/-- What is read as a filter on a kind suits the kind. -/
theorem Reads.suits {kind : EntityKind} {j : Json} {filter : Filter} :
    schema.Reads kind j filter → ∀ entry ∈ filter, schema.Suits kind entry
  | .object hmembers => hmembers.suits

theorem ReadsMembers.suits {kind : EntityKind} {members : List (String × Json)} {entries : Filter} :
    schema.ReadsMembers kind members entries → ∀ entry ∈ entries, schema.Suits kind entry
  | .nil => List.forall_mem_nil _
  | .cons hmember hrest => List.forall_mem_append.mpr ⟨hmember.suits, hrest.suits⟩

theorem ReadsMember.suits {kind : EntityKind} {key : String} {j : Json} {entries : Filter} :
    schema.ReadsMember kind key j entries → ∀ entry ∈ entries, schema.Suits kind entry
  | .and hitems => List.forall_mem_singleton.mpr (.and hitems.suits)
  | .or hitems => List.forall_mem_singleton.mpr (.or hitems.suits)
  | .not hfilter => List.forall_mem_singleton.mpr (.not hfilter.suits)
  | .notItem hfilter => List.forall_mem_singleton.mpr (.not hfilter.suits)
  | .scalar hdecl htests => List.forall_mem_singleton.mpr (.scalar hdecl fun p hp =>
      (exists_of_forall₂ htests p hp).elim fun _ h => h.2.admits)
  | .relationship hr hk hquantifiers => hquantifiers.suits hr hk

theorem ReadsItems.suits {kind : EntityKind} {items : List Json} {filters : List Filter} :
    schema.ReadsItems kind items filters → ∀ filter ∈ filters, ∀ entry ∈ filter, schema.Suits kind entry
  | .nil => List.forall_mem_nil _
  | .cons hfilter hrest => List.forall_mem_cons.mpr ⟨hfilter.suits, hrest.suits⟩

theorem ReadsQuantifiers.suits {kind related : EntityKind} {r : Relationship} {members : List (String × Json)}
    {entries : Filter} (hr : r ∈ kind.relationships) (hk : schema.kinds[r.relatedKind]? = some related) :
    schema.ReadsQuantifiers related r members entries → ∀ entry ∈ entries, schema.Suits kind entry
  | .nil => List.forall_mem_nil _
  | .cons _ hfilter hrest => List.forall_mem_cons.mpr ⟨.quantified hr hk hfilter.suits, hrest.suits hr hk⟩

end

/-! ## Conditions of a type -/

/-- The kinds of the nodes that variables stand for. -/
abbrev Typing := Std.ExtTreeMap Variable EntityKind

/-- A condition asks only what the schema knows of the kinds of its variables. A variable that a quantified condition binds stands
for nodes of the kind that the pattern's relationship leads to. -/
inductive WellTyped (schema : Schema) : Typing → Condition → Prop
  | true {typing : Typing} : WellTyped schema typing .true
  | false {typing : Typing} : WellTyped schema typing .false
  | compare {typing : Typing} {v : Variable} {kind : EntityKind} {decl : AttributeDecl} {op : Comparison} {value : Value} :
    typing[v]? = some kind → decl ∈ kind.attributes → decl.type.Supports op → decl.type.HasValue value →
      WellTyped schema typing (.compare v decl.name op value)
  | isIn {typing : Typing} {v : Variable} {kind : EntityKind} {decl : AttributeDecl} {values : List Value} :
    typing[v]? = some kind → decl ∈ kind.attributes → decl.type.Offers .isIn →
      (∀ value ∈ values, decl.type.HasValue value) → WellTyped schema typing (.isIn v decl.name values)
  | isNull {typing : Typing} {v : Variable} {kind : EntityKind} {decl : AttributeDecl} :
    typing[v]? = some kind → decl ∈ kind.attributes → decl.type.Offers .isNull → WellTyped schema typing (.isNull v decl.name)
  | and {typing : Typing} {conditions : List Condition} :
    (∀ c ∈ conditions, WellTyped schema typing c) → WellTyped schema typing (.and conditions)
  | or {typing : Typing} {conditions : List Condition} :
    (∀ c ∈ conditions, WellTyped schema typing c) → WellTyped schema typing (.or conditions)
  | not {typing : Typing} {c : Condition} : WellTyped schema typing c → WellTyped schema typing (.not c)
  | quantified {typing : Typing} {kind related : EntityKind} {r : Relationship} {q : Quantifier} {pattern : EdgePattern}
    {predicate : Condition} :
    typing[pattern.root]? = some kind → r ∈ kind.relationships → pattern.label = r.label → pattern.direction = r.direction →
      schema.kinds[r.relatedKind]? = some related → WellTyped schema (typing.insert pattern.related related) predicate →
      WellTyped schema typing (.quantified q pattern predicate)

namespace WellTyped

variable {typing : Typing} {conditions : List Condition}

theorem allOf (h : ∀ c ∈ conditions, schema.WellTyped typing c) : schema.WellTyped typing (.allOf conditions) := by
  match conditions with
  | [] => exact .true
  | [c] => exact h c List.mem_cons_self
  | _ :: _ :: _ => exact .and h

theorem anyOf (h : ∀ c ∈ conditions, schema.WellTyped typing c) : schema.WellTyped typing (.anyOf conditions) := by
  match conditions with
  | [] => exact .false
  | [c] => exact h c List.mem_cons_self
  | _ :: _ :: _ => exact .or h

/-- The variables that a well typed condition uses and does not bind have kinds. -/
theorem exists_kind_of_free {c : Condition} (h : schema.WellTyped typing c) : ∀ v ∈ c.free, ∃ kind, typing[v]? = some kind := by
  induction h with
  | true | false => exact List.forall_mem_nil _
  | compare hv | isIn hv | isNull hv => exact List.forall_mem_singleton.mpr ⟨_, hv⟩
  | and _ ih | or _ ih =>
    intro v hv
    obtain ⟨c, hc, hv⟩ := Condition.mem_freeIn_iff.mp hv
    exact ih c hc v hv
  | not _ ih => exact ih
  | quantified hroot _ _ _ _ _ ih =>
    refine List.forall_mem_cons.mpr ⟨⟨_, hroot⟩, fun v hv => ?_⟩
    obtain ⟨hv, hne⟩ := List.mem_filter.mp hv
    obtain ⟨kind, hkind⟩ := ih v hv
    rw [decide_eq_true_eq] at hne
    rw [Std.ExtTreeMap.getElem?_insert, if_neg (by simpa using Ne.symm hne)] at hkind
    exact ⟨kind, hkind⟩

end WellTyped

/-- A test that an attribute's type admits is compiled to a condition of the type. -/
theorem wellTyped_condition {typing : Typing} {v : Variable} {kind : EntityKind} (hv : typing[v]? = some kind)
    {decl : AttributeDecl} (hd : decl ∈ kind.attributes) {p : Predicate} (hp : decl.type.Admits p) :
    schema.WellTyped typing (p.condition v decl.name) := by
  cases hp with
  | compare hop hvalue => exact .compare hv hd hop hvalue
  | isIn ho hvalues => exact .isIn hv hd ho hvalues
  | isNull expected ho =>
    cases expected with
    | true => exact .isNull hv hd ho
    | false => exact .not (.isNull hv hd ho)

/-- What holds of the conditions of all entries, whatever variables are left for them, holds of those of a filter. -/
theorem forall_mem_compileEntries {P : Condition → Prop} {v : Variable} {entries : List FilterEntry}
    (h : ∀ entry ∈ entries, ∀ names, P (entry.compile v names).1) (names : NameSupply) :
    ∀ c ∈ (FilterEntry.compileEntries v entries names).1, P c := by
  induction entries generalizing names with
  | nil => exact List.forall_mem_nil _
  | cons entry entries ih =>
    obtain ⟨hfirst, hothers⟩ := List.forall_mem_cons.mp h
    exact List.forall_mem_cons.mpr ⟨hfirst names, ih hothers _⟩

theorem forall_mem_compileFilters {typing : Typing} {v : Variable} {filters : List Filter}
    (h : ∀ filter ∈ filters, ∀ entry ∈ filter, ∀ names, schema.WellTyped typing (entry.compile v names).1)
    (names : NameSupply) : ∀ c ∈ (FilterEntry.compileFilters v filters names).1, schema.WellTyped typing c := by
  induction filters generalizing names with
  | nil => exact List.forall_mem_nil _
  | cons filter filters ih =>
    obtain ⟨hfirst, hothers⟩ := List.forall_mem_cons.mp h
    exact List.forall_mem_cons.mpr ⟨.allOf (forall_mem_compileEntries hfirst names), ih hothers _⟩

/-- An entry that suits a kind is compiled to a well typed condition, where its subject is of the kind. -/
theorem Suits.wellTyped {kind : EntityKind} {entry : FilterEntry} (h : schema.Suits kind entry) {typing : Typing}
    {v : Variable} (hv : typing[v]? = some kind) (names : NameSupply) :
    schema.WellTyped typing (entry.compile v names).1 := by
  induction h generalizing typing v names with
  | scalar hd hpredicates =>
    refine .allOf fun c hc => ?_
    obtain ⟨p, hp, rfl⟩ := List.mem_map.mp hc
    exact wellTyped_condition hv hd (hpredicates p hp)
  | and _ ih => exact .allOf (forall_mem_compileFilters (fun filter hf entry he => ih filter hf entry he hv) names)
  | or _ ih => exact .anyOf (forall_mem_compileFilters (fun filter hf entry he => ih filter hf entry he hv) names)
  | not _ ih => exact .not (.allOf (forall_mem_compileEntries (fun entry he => ih entry he hv) names))
  | quantified hr hrelated _ ih =>
    refine .quantified hv hr rfl rfl hrelated (.allOf (forall_mem_compileEntries (fun entry he => ih entry he ?_) _))
    exact Std.ExtTreeMap.getElem?_insert_self

end Schema

namespace FilterSchema

/-- The condition of an accepted filter is well typed with its root of the filter's kind, has no free variable but its root, and
meets no unbound variable when it is evaluated at a node. -/
theorem condition_well_typed {decls : List KindDecl} {schema : Schema} (hd : Schema.build decls = .ok schema)
    {filters : FilterSchema} (hb : FilterSchema.build schema = .ok filters) {kind : String} {j : Json} {filter : Filter}
    (hf : filters.parse kind j = .ok filter) (root : Variable) :
    (∃ k, schema.kinds[kind]? = some k ∧ schema.WellTyped (Std.ExtTreeMap.empty.insert root k) (filter.condition root)) ∧
      (∀ v ∈ (filter.condition root).free, v = root) ∧
      ∀ (g : Graph) (id : String), g.evaluate? (filter.condition root) (Std.ExtTreeMap.empty.insert root id) =
        some (g.evaluate (filter.condition root) (Std.ExtTreeMap.empty.insert root id)) := by
  obtain ⟨k, hk, hreads⟩ := (parse_eq_ok_iff (Schema.wellFormed_of_build hd) hb).mp hf
  have htyped : schema.WellTyped (Std.ExtTreeMap.empty.insert root k) (filter.condition root) :=
    .allOf (Schema.forall_mem_compileEntries
      (fun entry he names => (hreads.suits entry he).wellTyped Std.ExtTreeMap.getElem?_insert_self names) _)
  have hfree : ∀ v ∈ (filter.condition root).free, v = root := by
    intro v hv
    obtain ⟨kind, hkind⟩ := htyped.exists_kind_of_free v hv
    by_contra hne
    rw [Std.ExtTreeMap.getElem?_insert, if_neg (by simpa using Ne.symm hne)] at hkind
    cases hkind
  refine ⟨⟨k, hk, htyped⟩, hfree, fun g id => ?_⟩
  have hw : Bindings.Within (Std.ExtTreeMap.empty.insert root id) [root] :=
    Bindings.Within.insert fun _ _ => Std.ExtTreeMap.getElem?_empty
  obtain ⟨result, he, he?⟩ := g.evaluate?_eq_some (filter.condition root) (filter.bindsNew_condition root) hw
    fun v hv => ⟨id, by rw [hfree v hv, Std.ExtTreeMap.getElem?_insert_self]⟩
  rw [he, he?]

namespace Example

/-- Some subtask takes more than three units of effort. -/
def heavySubtask : Filter :=
  [.quantified .some subtasks [.scalar "effort" [.compare .gt (.float (Binary64.ofInt 3))]]]

def heavySubtaskJson : Json :=
  .object [("subtasks", .object [("some", .object [("effort", .object [("gt", .int 3)])])])]

end Example

/-- The condition on a task that some subtask of it is heavy is well typed and closed. -/
theorem heavy_subtask_well_typed :
    Example.filters.parse "Task" Example.heavySubtaskJson = .ok Example.heavySubtask ∧
      (∃ k, Example.schema.kinds["Task"]? = some k ∧
        Example.schema.WellTyped (Std.ExtTreeMap.empty.insert ⟨"t"⟩ k) (Filter.condition Example.heavySubtask ⟨"t"⟩)) ∧
      (∀ v ∈ (Filter.condition Example.heavySubtask ⟨"t"⟩).free, v = ⟨"t"⟩) ∧
      ∀ (g : Graph) (id : String),
        g.evaluate? (Filter.condition Example.heavySubtask ⟨"t"⟩) (Std.ExtTreeMap.empty.insert ⟨"t"⟩ id) =
          some (g.evaluate (Filter.condition Example.heavySubtask ⟨"t"⟩) (Std.ExtTreeMap.empty.insert ⟨"t"⟩ id)) := by
  have hparse : Example.filters.parse "Task" Example.heavySubtaskJson = .ok Example.heavySubtask := rfl
  exact ⟨hparse, condition_well_typed Example.build_decls Example.build_schema hparse ⟨"t"⟩⟩

end FilterSchema

end EntityGraph
