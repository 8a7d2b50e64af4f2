import EntityGraph.Filter.Definition
import EntityGraph.Proofs.Schema.Built

/-!
# Definitions of all kinds

A built filter schema has the definition of every kind, in which the attributes and relationships of the kind are the fields
(`FilterSchema.definition_eq_ok`, `FilterSchema.fields_eq_some_iff`).
-/

namespace EntityGraph

namespace FilterSchema

/-- The next kind is one of those still to be visited; the other awaited ones stay awaited. -/
theorem nextKind?_eq_some {unvisited : List EntityKind} {awaited rest : List String} {kind : EntityKind}
    (h : nextKind? unvisited awaited = some (kind, rest)) :
    kind ∈ unvisited ∧ ∀ other ∈ unvisited, other.name ∈ awaited → other.name = kind.name ∨ other.name ∈ rest := by
  induction awaited with
  | nil => simp [nextKind?] at h
  | cons name awaited ih =>
    rw [nextKind?] at h
    cases hf : unvisited.find? fun kind => kind.name == name with
    | some found =>
      rw [hf] at h
      obtain ⟨rfl, rfl⟩ := Prod.mk.inj (Option.some.inj h)
      have hname : found.name = name := by simpa using List.find?_some hf
      refine ⟨List.mem_of_find?_eq_some hf, fun other _ ho => ?_⟩
      rw [hname]
      exact List.mem_cons.mp ho
    | none =>
      rw [hf] at h
      obtain ⟨hmem, hrest⟩ := ih h
      refine ⟨hmem, fun other hother ho => hrest other hother ((List.mem_cons.mp ho).resolve_left ?_)⟩
      simpa using List.find?_eq_none.mp hf other hother

theorem nextKind?_eq_none {unvisited : List EntityKind} {awaited : List String} (h : nextKind? unvisited awaited = none) :
    ∀ kind ∈ unvisited, kind.name ∉ awaited := by
  induction awaited with
  | nil => simp
  | cons name awaited ih =>
    rw [nextKind?] at h
    cases hf : unvisited.find? fun kind => kind.name == name with
    | some found => simp [hf] at h
    | none =>
      rw [hf] at h
      intro kind hk hmem
      rcases List.mem_cons.mp hmem with hname | hmem
      · exact absurd hname (by simpa using List.find?_eq_none.mp hf kind hk)
      · exact ih h kind hk hmem

/-- Only kinds that are still to be visited are visited. -/
theorem visit_subset {steps : Nat} {unvisited : List EntityKind} {awaited : List String} :
    ∀ kind ∈ visit steps unvisited awaited, kind ∈ unvisited := by
  induction steps generalizing unvisited awaited with
  | zero => simp [visit]
  | succ steps ih =>
    rw [visit]
    split
    · simp
    · next kind rest hnext =>
      intro other hother
      rcases List.mem_cons.mp hother with rfl | hother
      · exact (nextKind?_eq_some hnext).1
      · exact (List.mem_filter.mp (ih other hother)).1

/-- After a kind is visited fewer are left. -/
theorem length_filter_lt {unvisited : List EntityKind} {kind : EntityKind} (h : kind ∈ unvisited) :
    (unvisited.filter fun other => other.name != kind.name).length < unvisited.length :=
  List.length_filter_lt_length_iff_exists.mpr ⟨kind, h, by simp⟩

/-- With as many steps as kinds, every kind that is awaited is visited, or another one of its name. -/
theorem exists_mem_visit {steps : Nat} {unvisited : List EntityKind} {awaited : List String}
    (hsteps : unvisited.length ≤ steps) (hawaited : ∀ kind ∈ unvisited, kind.name ∈ awaited) :
    ∀ kind ∈ unvisited, ∃ visited ∈ visit steps unvisited awaited, visited.name = kind.name := by
  induction steps generalizing unvisited awaited with
  | zero =>
    rw [Nat.le_zero, List.length_eq_zero_iff] at hsteps
    simp [hsteps]
  | succ steps ih =>
    intro kind hk
    rw [visit]
    split
    · next hnext => exact absurd (hawaited kind hk) (nextKind?_eq_none hnext kind hk)
    · next next rest hnext =>
      obtain ⟨hmem, hrest⟩ := nextKind?_eq_some hnext
      by_cases hname : kind.name = next.name
      · exact ⟨next, List.mem_cons_self, hname.symm⟩
      · have hlength : (unvisited.filter fun other => other.name != next.name).length ≤ steps := by
          have hlt : (unvisited.filter fun other => other.name != next.name).length < unvisited.length :=
            List.length_filter_lt_length_iff_exists.mpr ⟨next, hmem, by simp⟩
          omega
        have hkept : ∀ other ∈ unvisited.filter fun other => other.name != next.name,
            other.name ∈ next.relationships.map Relationship.relatedKind ++ rest := by
          intro other hother
          obtain ⟨ho, hne⟩ := List.mem_filter.mp hother
          exact List.mem_append_right _ ((hrest other ho (hawaited other ho)).resolve_left (by simpa using hne))
        obtain ⟨visited, hvisited, hsame⟩ := ih hlength hkept kind (List.mem_filter.mpr ⟨hk, by simpa using hname⟩)
        exact ⟨visited, List.mem_cons_of_mem _ hvisited, hsame⟩

theorem mem_kindList_iff {schema : Schema} (hs : schema.WellFormed) {kind : EntityKind} :
    kind ∈ schema.kindList ↔ schema.kinds[kind.name]? = some kind := by
  simp only [Schema.kindList, List.mem_map, Prod.exists, Std.ExtTreeMap.mem_toList_iff_getElem?_eq_some, exists_eq_right]
  constructor
  · rintro ⟨name, hk⟩
    rw [hs.name hk]
    exact hk
  · exact fun hk => ⟨kind.name, hk⟩

theorem ofKind_kind {kind : EntityKind} {definition : FilterDefinition} (h : FilterDefinition.ofKind kind = .ok definition) :
    definition.kind = kind.name := by
  obtain ⟨_, _, hd⟩ := bind_eq_ok_iff.mp h
  rw [← Except.ok.inj hd]

/-- A built filter schema has the definition of every kind. -/
theorem definition_eq_ok {schema : Schema} (hs : schema.WellFormed) {filters : FilterSchema}
    (hb : FilterSchema.build schema = .ok filters) {name : String} {kind : EntityKind} (hk : schema.kinds[name]? = some kind) :
    ∃ definition, filters.definition name = .ok definition ∧ FilterDefinition.ofKind kind = .ok definition := by
  obtain ⟨definitions, hm, hf⟩ := bind_eq_ok_iff.mp hb
  obtain rfl := Except.ok.inj hf
  have hname := hs.name hk
  -- The kind is visited, and each definition of its name is the one made of it.
  obtain ⟨visited, hvisited, hsame⟩ := exists_mem_visit (Nat.le_refl _) (fun _ => List.mem_map_of_mem) kind
    ((mem_kindList_iff hs).mpr (hname ▸ hk))
  have hof : ∀ definition ∈ definitions, definition.kind = name → FilterDefinition.ofKind kind = .ok definition := by
    intro definition hd hdn
    obtain ⟨k, hk', hof⟩ := (mapM_ok_mem_iff hm).mp hd
    have hfound := (mem_kindList_iff hs).mp (visit_subset k hk')
    rw [← ofKind_kind hof, hdn, hk] at hfound
    rw [Option.some.inj hfound]
    exact hof
  obtain ⟨definition, hd⟩ := mapM_ok_each hm visited hvisited
  have hmem : definition ∈ definitions := (mapM_ok_mem_iff hm).mpr ⟨visited, hvisited, hd⟩
  obtain ⟨last, hl⟩ := lastWith_isSome FilterDefinition.kind hmem
  rw [ofKind_kind hd, hsame, hname] at hl
  obtain ⟨hlast, hlk⟩ := lastWith_some hl
  refine ⟨last, ?_, hof last hlast hlk⟩
  rw [FilterSchema.definition, Std.ExtTreeMap.ofList_eq_foldl, List.foldl_map, getElem?_foldl_insert, hl]
  rfl

/-- Only the kinds of the schema have definitions. -/
theorem kind_of_definition {schema : Schema} (hs : schema.WellFormed) {filters : FilterSchema}
    (hb : FilterSchema.build schema = .ok filters) {name : String} {definition : FilterDefinition}
    (h : filters.definition name = .ok definition) : ∃ kind, schema.kinds[name]? = some kind := by
  obtain ⟨definitions, hm, hf⟩ := bind_eq_ok_iff.mp hb
  obtain rfl := Except.ok.inj hf
  rw [FilterSchema.definition, Std.ExtTreeMap.ofList_eq_foldl, List.foldl_map, getElem?_foldl_insert] at h
  cases hl : lastWith FilterDefinition.kind definitions name with
  | none => simp [hl] at h
  | some last =>
    obtain ⟨hlast, hname⟩ := lastWith_some hl
    obtain ⟨kind, hvisited, hof⟩ := (mapM_ok_mem_iff hm).mp hlast
    have hkind := (mem_kindList_iff hs).mp (visit_subset kind hvisited)
    rw [← ofKind_kind hof, hname] at hkind
    exact ⟨kind, hkind⟩

theorem scalarField_eq_ok_iff {kind : String} {decl : AttributeDecl} {field : FilterField} :
    FilterDefinition.scalarField kind decl = .ok field ↔
      ∃ operators, decl.type.operators? = some operators ∧ field = .scalar decl operators := by
  rw [FilterDefinition.scalarField]
  cases decl.type.operators? with
  | none => simp
  | some operators => simp

/-- The types of all attributes of a kind that has a definition have operators. -/
theorem operators_of_ofKind {kind : EntityKind} {definition : FilterDefinition}
    (h : FilterDefinition.ofKind kind = .ok definition) :
    ∀ decl ∈ kind.attributes, ∃ operators, decl.type.operators? = some operators := by
  intro decl hdecl
  obtain ⟨_, hm, _⟩ := bind_eq_ok_iff.mp h
  obtain ⟨_, hfield⟩ := mapM_ok_each hm decl hdecl
  obtain ⟨operators, ho, _⟩ := scalarField_eq_ok_iff.mp hfield
  exact ⟨operators, ho⟩

/-- The fields of the definition of a kind are its attributes, with the operators of their types, and its relationships. -/
theorem fields_eq_some_iff {schema : Schema} (hs : schema.WellFormed) {name : String} {kind : EntityKind}
    (hk : schema.kinds[name]? = some kind) {definition : FilterDefinition}
    (h : FilterDefinition.ofKind kind = .ok definition) {key : String} {field : FilterField} :
    definition.fields[key]? = some field ↔ field.name = key ∧
      ((∃ decl ∈ kind.attributes, ∃ operators, decl.type.operators? = some operators ∧ field = .scalar decl operators) ∨
        ∃ r ∈ kind.relationships, field = .related r) := by
  obtain ⟨scalars, hm, hd⟩ := bind_eq_ok_iff.mp h
  obtain rfl := Except.ok.inj hd
  have hscalar : ∀ decl field, FilterDefinition.scalarField kind.name decl = .ok field → field.name = decl.name := by
    intro decl field hf
    obtain ⟨_, _, rfl⟩ := scalarField_eq_ok_iff.mp hf
    rfl
  have hnames : (scalars ++ kind.relationships.map FilterField.related).map FilterField.name =
      kind.attributes.map AttributeDecl.name ++ kind.relationships.map Relationship.field := by
    rw [List.map_append, mapM_ok_map hscalar hm, List.map_map]
    rfl
  have hnodup := hs.fields hk
  rw [← hnames] at hnodup
  have hmem : field ∈ scalars ++ kind.relationships.map FilterField.related ↔
      (∃ decl ∈ kind.attributes, ∃ operators, decl.type.operators? = some operators ∧ field = .scalar decl operators) ∨
        ∃ r ∈ kind.relationships, field = .related r := by
    rw [List.mem_append, mapM_ok_mem_iff hm, List.mem_map]
    simp only [scalarField_eq_ok_iff]
    exact or_congr_right (exists_congr fun r => and_congr_right fun _ => eq_comm)
  rw [← hmem, Std.ExtTreeMap.ofList_eq_foldl, List.foldl_map, getElem?_foldl_insert]
  simp only [Std.ExtTreeMap.getElem?_empty, Option.or_none, Option.map_id']
  constructor
  · intro hl
    obtain ⟨hlast, hname⟩ := lastWith_some hl
    exact ⟨hname, hlast⟩
  · rintro ⟨rfl, hf⟩
    obtain ⟨last, hl⟩ := lastWith_isSome FilterField.name hf
    obtain ⟨hlast, hsame⟩ := lastWith_some hl
    rw [hl, List.inj_on_of_nodup_map hnodup hlast hf hsame]

end FilterSchema

end EntityGraph
