import EntityGraph.Proofs.Filter.Culprit
import EntityGraph.Proofs.Filter.Recursion

/-!
# Complete definitions

A schema has the definitions of all its kinds or none: `FilterSchema.build` fails just if the type of some attribute has no
operators. What it gives is complete. Each kind has its definition, each field of a kind is in it, and each kind that a relationship
leads to has one (`FilterSchema.build_complete`).
-/

namespace EntityGraph

namespace Schema

/-- The type of an attribute of a kind of the schema has no operators. -/
def Unmapped (schema : Schema) (kind : EntityKind) (decl : AttributeDecl) : Prop :=
  kind ∈ schema.kindList ∧ decl ∈ kind.attributes ∧ decl.type.operators? = none

/-- A value that stands where a filter may have one does not fail for a kind without definition. -/
theorem Fails.ne_unknownKind {schema : Schema} {p : Position} {base stack : Path} {j : Json} {e : FilterError}
    (h : schema.Fails p base j stack e) (name : String) : e ≠ .unknownKind name := by
  induction h with
  | misfit | unknown => exact nofun
  | inside _ _ _ _ ih => exact ih

end Schema

namespace FilterDefinition

/-- The fields of a filter on a kind: its attributes, each with the operators given for it, and its relationships. -/
def fieldsOf (kind : EntityKind) (operators : AttributeDecl → List Operator) : List FilterField :=
  kind.attributes.map (fun decl => .scalar decl (operators decl)) ++ kind.relationships.map .related

/-- A definition is that of a kind: it has the fields of the kind under their names, each attribute with the operators of its type,
and no other fields. -/
structure CompleteFor (definition : FilterDefinition) (kind : EntityKind) : Prop where
  name : definition.kind = kind.name
  fields : ∃ operators, (∀ decl ∈ kind.attributes, decl.type.operators? = some (operators decl)) ∧
    definition.fields.toList.Perm ((fieldsOf kind operators).map fun field => (field.name, field))

theorem map_fieldsOf (kind : EntityKind) (operators : AttributeDecl → List Operator) :
    (fieldsOf kind operators).map FilterField.name =
      kind.attributes.map AttributeDecl.name ++ kind.relationships.map Relationship.field := by
  rw [fieldsOf, List.map_append, List.map_map, List.map_map]
  rfl

theorem scalarField_failsWith (kind : EntityKind) {decl : AttributeDecl} (hd : decl ∈ kind.attributes) :
    FailsWith (fun e => ∃ decl ∈ kind.attributes, decl.type.operators? = none ∧
      e = .unmappedAttributeType kind.name decl.name decl.type.name) (scalarField kind.name decl) := by
  rw [scalarField]
  cases ho : decl.type.operators? with
  | none => exact failsWith_throw ⟨decl, hd, ho, rfl⟩
  | some operators => exact failsWith_pure _

/-- The definition of a kind is refused for an attribute whose type has no operators. -/
theorem ofKind_failsWith (kind : EntityKind) :
    FailsWith (fun e => ∃ decl ∈ kind.attributes, decl.type.operators? = none ∧
      e = .unmappedAttributeType kind.name decl.name decl.type.name) (ofKind kind) :=
  (FailsWith.mapM fun _ hd => scalarField_failsWith kind hd).bind fun _ _ => failsWith_pure _

end FilterDefinition

namespace FilterSchema

variable {schema : Schema} {filters : FilterSchema}

theorem build_failsWith (schema : Schema) :
    FailsWith (fun e => ∃ kind decl, schema.Unmapped kind decl ∧
      e = .unmappedAttributeType kind.name decl.name decl.type.name) (FilterSchema.build schema) := by
  refine FailsWith.bind (FailsWith.mapM fun kind hk e he => ?_) fun _ _ => failsWith_pure _
  obtain ⟨decl, hd, ho, rfl⟩ := FilterDefinition.ofKind_failsWith kind e he
  exact ⟨kind, decl, ⟨visit_subset kind hk, hd, ho⟩, rfl⟩

/-- Filters on a schema cannot be built exactly if the type of some attribute has no operators. -/
theorem exists_build_eq_error_iff (hs : schema.WellFormed) :
    (∃ e, FilterSchema.build schema = .error e) ↔ ∃ kind decl, schema.Unmapped kind decl := by
  constructor
  · rintro ⟨e, he⟩
    obtain ⟨kind, decl, hunmapped, _⟩ := build_failsWith schema e he
    exact ⟨kind, decl, hunmapped⟩
  · rintro ⟨kind, decl, hk, hd, ho⟩
    cases hb : FilterSchema.build schema with
    | error e => exact ⟨e, rfl⟩
    | ok filters =>
      obtain ⟨_, _, hof⟩ := definition_eq_ok hs hb ((mem_kindList_iff hs).mp hk)
      obtain ⟨operators, ho'⟩ := operators_of_ofKind hof decl hd
      rw [ho] at ho'
      cases ho'

theorem completeFor_of_ofKind (hs : schema.WellFormed) {name : String} {kind : EntityKind} (hk : schema.kinds[name]? = some kind)
    {definition : FilterDefinition} (h : FilterDefinition.ofKind kind = .ok definition) : definition.CompleteFor kind := by
  have hoperators : ∀ decl ∈ kind.attributes, decl.type.operators? = some (decl.type.operators?.getD []) := by
    intro decl hd
    obtain ⟨operators, ho⟩ := operators_of_ofKind h decl hd
    rw [ho]
    rfl
  refine ⟨ofKind_kind h, fun decl => decl.type.operators?.getD [], hoperators, ?_⟩
  have hnodup := hs.fields hk
  rw [← FilterDefinition.map_fieldsOf kind fun decl => decl.type.operators?.getD []] at hnodup
  refine (List.perm_ext_iff_of_nodup ?_ ?_).mpr fun entry => ?_
  · exact Std.ExtTreeMap.distinct_keys_toList.imp fun hne hab => hne (by rw [hab, Std.ReflOrd.compare_self])
  · exact hnodup.of_map.map fun a b hab => (Prod.mk.inj hab).2
  · obtain ⟨key, field⟩ := entry
    rw [Std.ExtTreeMap.mem_toList_iff_getElem?_eq_some, fields_eq_some_iff hs hk h, List.mem_map]
    have hmem : field ∈ FilterDefinition.fieldsOf kind (fun decl => decl.type.operators?.getD []) ↔
        (∃ decl ∈ kind.attributes, ∃ operators, decl.type.operators? = some operators ∧ field = .scalar decl operators) ∨
          ∃ r ∈ kind.relationships, field = .related r := by
      rw [FilterDefinition.fieldsOf, List.mem_append, List.mem_map, List.mem_map]
      refine or_congr (exists_congr fun decl => and_congr_right fun hd => ?_)
        (exists_congr fun r => and_congr_right fun _ => eq_comm)
      rw [hoperators decl hd]
      simp [eq_comm]
    rw [← hmem]
    constructor
    · exact fun ⟨hname, hf⟩ => ⟨field, hf, hname ▸ rfl⟩
    · rintro ⟨found, hf, he⟩
      obtain ⟨rfl, rfl⟩ := Prod.mk.inj he
      exact ⟨rfl, hf⟩

/-- Maps with the same keys have them in the same order. -/
theorem keys_eq {α β : Type} {m : Std.ExtTreeMap String α} {m' : Std.ExtTreeMap String β} (h : ∀ key, key ∈ m ↔ key ∈ m') :
    m.keys = m'.keys := by
  have hperm : m.keys.Perm m'.keys := by
    refine (List.perm_ext_iff_of_nodup Std.ExtTreeMap.nodup_keys Std.ExtTreeMap.nodup_keys).mpr fun key => ?_
    rw [Std.ExtTreeMap.mem_keys, Std.ExtTreeMap.mem_keys, h]
  refine hperm.eq_of_pairwise (fun a b _ _ hab hba => ?_) Std.ExtTreeMap.ordered_keys Std.ExtTreeMap.ordered_keys
  exact absurd hba (Std.OrientedCmp.not_lt_of_lt hab)

theorem map_kindList (hs : schema.WellFormed) : schema.kindList.map EntityKind.name = schema.kinds.keys := by
  rw [Schema.kindList, List.map_map, ← Std.ExtTreeMap.map_fst_toList_eq_keys]
  exact List.map_congr_left fun entry he => hs.name (Std.ExtTreeMap.mem_toList_iff_getElem?_eq_some.mp he)

/-- The definitions are in the order of the kinds, one for each. -/
theorem map_definitionList (hs : schema.WellFormed) (hb : FilterSchema.build schema = .ok filters) :
    filters.definitionList.map FilterDefinition.kind = schema.kindList.map EntityKind.name := by
  have hdefinitions : filters.definitionList.map FilterDefinition.kind = filters.definitions.keys := by
    rw [definitionList, List.map_map, ← Std.ExtTreeMap.map_fst_toList_eq_keys]
    refine List.map_congr_left fun entry he => ?_
    obtain ⟨kind, hk, hof⟩ := (definitions_eq_some_iff hs hb).mp (Std.ExtTreeMap.mem_toList_iff_getElem?_eq_some.mp he)
    exact (ofKind_kind hof).trans (hs.name hk)
  rw [hdefinitions, map_kindList hs]
  refine keys_eq fun name => ?_
  rw [Std.ExtTreeMap.mem_iff_isSome_getElem?, Std.ExtTreeMap.mem_iff_isSome_getElem?, Option.isSome_iff_exists,
    Option.isSome_iff_exists]
  constructor
  · rintro ⟨definition, hd⟩
    exact ((definitions_eq_some_iff hs hb).mp hd).imp fun _ => And.left
  · rintro ⟨kind, hk⟩
    obtain ⟨definition, hd, _⟩ := definition_eq_ok hs hb hk
    exact ⟨definition, definition_eq_ok_iff.mp hd⟩

/-- A filter on a kind of the schema is not refused for a kind without definition. -/
theorem parse_ne_unknownKind (hs : schema.WellFormed) (hb : FilterSchema.build schema = .ok filters) {kind : EntityKind}
    (hk : schema.kinds[kind.name]? = some kind) (j : Json) (name : String) :
    filters.parse kind.name j ≠ .error (.unknownKind name) := by
  intro he
  obtain ⟨_, _, hfails⟩ := exists_fails_of_parse hs hb hk he
  exact hfails.ne_unknownKind name rfl

/-- The definitions of a schema are complete. -/
structure CompleteFor (filters : FilterSchema) (schema : Schema) : Prop where
  /-- There is one definition for each kind. -/
  kinds : filters.definitionList.map FilterDefinition.kind = schema.kindList.map EntityKind.name
  distinct : (schema.kindList.map EntityKind.name).Nodup
  /-- A kind has its definition. -/
  definition : ∀ kind ∈ schema.kindList, ∃ definition, filters.definition kind.name = .ok definition ∧ definition.CompleteFor kind
  /-- So does the kind that a relationship among the fields of a definition leads to. -/
  related : ∀ definition ∈ filters.definitionList, ∀ (field : String) (r : Relationship),
    definition.fields[field]? = some (.related r) → ∃ related, filters.definition r.relatedKind = .ok related
  /-- No filter on a kind of the schema is refused for a kind without definition. -/
  known : ∀ kind ∈ schema.kindList, ∀ j name, filters.parse kind.name j ≠ .error (.unknownKind name)

theorem completeFor_of_build (hs : schema.WellFormed) (hb : FilterSchema.build schema = .ok filters) :
    filters.CompleteFor schema := by
  refine ⟨map_definitionList hs hb, map_kindList hs ▸ Std.ExtTreeMap.nodup_keys, fun kind hk => ?_, ?_, fun kind hk => ?_⟩
  · have hk := (mem_kindList_iff hs).mp hk
    obtain ⟨definition, hdefinition, hof⟩ := definition_eq_ok hs hb hk
    exact ⟨definition, hdefinition, completeFor_of_ofKind hs hk hof⟩
  · intro definition hdefinition field r hfield
    obtain ⟨entry, he, rfl⟩ := List.mem_map.mp hdefinition
    obtain ⟨kind, hk, hof⟩ := (definitions_eq_some_iff hs hb).mp (Std.ExtTreeMap.mem_toList_iff_getElem?_eq_some.mp he)
    obtain ⟨_, ⟨_, _, _, _, hscalar⟩ | ⟨own, hown, hrelated⟩⟩ := (fields_eq_some_iff hs hk hof).mp hfield
    · cases hscalar
    · obtain rfl := FilterField.related.inj hrelated
      obtain ⟨related, hk', _⟩ := hs.related hk r hown
      exact (definition_eq_ok hs hb hk').imp fun _ => And.left
  · exact parse_ne_unknownKind hs hb ((mem_kindList_iff hs).mp hk)

/-- Definitions are complete on every schema that builds.
1. The recursion that makes them ends, with what `FilterSchema.build` gives.
2. They cannot be built exactly if the type of some attribute has no operators, and then the error names such an attribute.
3. If they are built they are complete. -/
theorem build_complete {decls : List KindDecl} {schema : Schema} (hd : Schema.build decls = .ok schema) :
    ((∃ result, Makes schema .start (schema.kindList.map EntityKind.name) result) ∧
      ∀ result, Makes schema .start (schema.kindList.map EntityKind.name) result →
        FilterSchema.build schema = result.map fun m => ⟨m.made⟩) ∧
    (((∃ e, FilterSchema.build schema = .error e) ↔ ∃ kind decl, schema.Unmapped kind decl) ∧
      ∀ e, FilterSchema.build schema = .error e →
        ∃ kind decl, schema.Unmapped kind decl ∧ e = .unmappedAttributeType kind.name decl.name decl.type.name) ∧
    ∀ filters, FilterSchema.build schema = .ok filters → filters.CompleteFor schema := by
  have hs := Schema.wellFormed_of_build hd
  refine ⟨⟨?_, fun _ h => h.build_eq hs⟩, ⟨exists_build_eq_error_iff hs, build_failsWith schema⟩, ?_⟩
  · exact exists_makes hs .start _ (List.forall_mem_map.mpr fun kind hk => ⟨kind, (mem_kindList_iff hs).mp hk⟩)
  · exact fun filters hb => completeFor_of_build hs hb

namespace Example

/-- Places, whose location is of a type without operators. -/
def places : List KindDecl := [⟨"Place", [⟨"location", .other "point"⟩], [⟨"near", "Place", "NEAR", .outgoing, .many⟩]⟩]

def placeKind : EntityKind :=
  ⟨"Place", [⟨"location", .other "point"⟩], [⟨"Place", "near", "Place", "NEAR", .outgoing, .many, none⟩]⟩

def placeSchema : Schema := ⟨.ofList [("Place", placeKind)] compare⟩

theorem build_places : Schema.build places = .ok placeSchema := rfl

end Example

/-- The definitions of tasks, whose subtasks are tasks, are complete; those of places are refused for their location. -/
theorem tasks_complete_places_unmapped : Example.filters.CompleteFor Example.schema ∧
    ∃ kind decl, Example.placeSchema.Unmapped kind decl ∧
      FilterError.unmappedAttributeType "Place" "location" "point" =
        .unmappedAttributeType kind.name decl.name decl.type.name :=
  ⟨(build_complete Example.build_decls).2.2 _ Example.build_schema, (build_complete Example.build_places).2.1.2 _ rfl⟩

end FilterSchema

end EntityGraph
