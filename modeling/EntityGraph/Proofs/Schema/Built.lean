import EntityGraph.Proofs.Collections
import EntityGraph.Schema.Build
import Mathlib.Data.List.Nodup

/-!
# Schemas that were built

What holds of every schema that `Schema.build` returns: a kind is found under its own name, the fields of a kind have different
names, none of them reserved, and every relationship leads to a kind of the schema, where its mirror is a relationship that
follows the same label the other way.
-/

namespace EntityGraph

/-! ## Helpers: the checks -/

namespace KindDecl

/-- Names pass the check if they differ from each other, from the names seen and from the reserved ones. -/
theorem checkNames_eq_ok_iff {kind : String} {seen fields : List String} :
    checkNames kind seen fields = .ok () ↔ fields.Nodup ∧ ∀ field ∈ fields, field ∉ reservedFieldNames ∧ field ∉ seen := by
  induction fields generalizing seen with
  | nil => simp [checkNames]
  | cons field fields ih =>
    rw [checkNames]
    by_cases hr : field ∈ reservedFieldNames
    · simp [hr]
    · rw [if_neg hr]
      by_cases hs : field ∈ seen
      · simp [hs]
      · rw [if_neg hs, ih]
        simp only [List.nodup_cons, List.mem_cons, not_or, forall_eq_or_imp, hr, hs, not_false_eq_true, and_self, true_and]
        constructor
        · rintro ⟨hn, hall⟩
          exact ⟨⟨fun hf => (hall field hf).2.1 rfl, hn⟩, fun f hf => ⟨(hall f hf).1, (hall f hf).2.2⟩⟩
        · rintro ⟨⟨hf, hn⟩, hall⟩
          exact ⟨hn, fun f hm => ⟨(hall f hm).1, fun he => hf (he ▸ hm), (hall f hm).2⟩⟩

end KindDecl

namespace Schema

/-- Declarations pass the check if their names differ from each other and from those seen, and the fields of each pass. -/
theorem checkKinds_eq_ok_iff {seen : List String} {decls : List KindDecl} :
    checkKinds seen decls = .ok () ↔
      (decls.map KindDecl.name).Nodup ∧ ∀ decl ∈ decls, decl.name ∉ seen ∧ decl.checkFields = .ok () := by
  induction decls generalizing seen with
  | nil => simp [checkKinds]
  | cons decl decls ih =>
    rw [checkKinds]
    by_cases hs : decl.name ∈ seen
    · simp [hs, bind_eq_ok_iff]
    · simp only [if_neg hs, bind_eq_ok_iff, ih]
      simp only [List.map_cons, List.nodup_cons, List.mem_cons, not_or, forall_eq_or_imp, hs, not_false_eq_true, true_and]
      constructor
      · rintro ⟨_, hf, hn, hall⟩
        refine ⟨⟨fun hm => ?_, hn⟩, hf, fun d hd => ⟨(hall d hd).1.2, (hall d hd).2⟩⟩
        obtain ⟨d, hd, he⟩ := List.mem_map.mp hm
        exact (hall d hd).1.1 he
      · rintro ⟨⟨hm, hn⟩, hf, hall⟩
        refine ⟨(), hf, hn, fun d hd => ⟨⟨fun he => hm ?_, (hall d hd).1⟩, (hall d hd).2⟩⟩
        exact he ▸ List.mem_map_of_mem hd

theorem checkRelatedKinds_eq_ok_iff {decls : List KindDecl} :
    checkRelatedKinds decls = .ok () ↔
      ∀ decl ∈ decls, ∀ r ∈ decl.relationships, ∃ other ∈ decls, other.name = r.kind := by
  simp only [checkRelatedKinds, forM_eq_ok_iff]
  refine forall₂_congr fun decl _ => forall₂_congr fun r _ => ?_
  rw [← show (decls.any fun other => other.name == r.kind) = true ↔ ∃ other ∈ decls, other.name = r.kind by simp]
  by_cases h : (decls.any fun other => other.name == r.kind) = true
  · simp [h]
  · simp [h]

/-- A declared relationship is resolved to itself with its mirror; the only field that can be. -/
theorem resolve_eq_ok_iff {decls : List KindDecl} {kind : String} {decl : RelationshipDecl} {r : Relationship} :
    resolve decls kind decl = .ok r ↔ ∃ mirror : Option String,
      fieldsAlong decls decl.kind decl.label decl.direction.opposite = mirror.toList ∧ r = .ofDecl kind decl mirror := by
  rw [resolve]
  split
  · next h => simp [h]
  · next field h => simp [h, Option.exists]
  · next hnone hone =>
    simp only [throw_ne_ok, false_iff, not_exists, not_and]
    intro mirror hm
    cases mirror with
    | none => exact absurd hm hnone
    | some field => exact absurd hm (hone field)

theorem mem_fieldsAlong_iff {decls : List KindDecl} {kind label field : String} {direction : Direction} :
    field ∈ fieldsAlong decls kind label direction ↔ ∃ decl ∈ decls, decl.name = kind ∧
      ∃ r ∈ decl.relationships, r.label = label ∧ r.direction = direction ∧ r.field = field := by
  simp only [fieldsAlong, List.mem_flatMap]
  refine exists_congr fun decl => and_congr_right fun _ => ?_
  by_cases h : decl.name = kind
  · simp [h, and_assoc]
  · simp [h]

/-! ## The kinds of a built schema -/

theorem buildKind_eq_ok_iff {decls : List KindDecl} {decl : KindDecl} {kind : EntityKind} :
    buildKind decls decl = .ok kind ↔ kind.name = decl.name ∧ kind.attributes = decl.attributes ∧
      decl.relationships.mapM (resolve decls decl.name) = .ok kind.relationships := by
  simp only [buildKind, bind_eq_ok_iff]
  constructor
  · rintro ⟨rs, hrs, hb⟩
    obtain rfl := Except.ok.inj hb
    exact ⟨rfl, rfl, hrs⟩
  · rintro ⟨hn, ha, hrs⟩
    refine ⟨kind.relationships, hrs, ?_⟩
    rw [← hn, ← ha]
    rfl

/-- The relationships of a kind are those declared, each with its mirror. -/
theorem mem_relationships_iff {decls : List KindDecl} {decl : KindDecl} {kind : EntityKind}
    (h : buildKind decls decl = .ok kind) {r : Relationship} :
    r ∈ kind.relationships ↔ ∃ d ∈ decl.relationships, resolve decls decl.name d = .ok r :=
  mapM_ok_mem_iff (buildKind_eq_ok_iff.mp h).2.2

theorem fieldNames_eq {decls : List KindDecl} {decl : KindDecl} {kind : EntityKind} (h : buildKind decls decl = .ok kind) :
    kind.attributes.map AttributeDecl.name ++ kind.relationships.map Relationship.field = decl.fieldNames := by
  obtain ⟨_, ha, hm⟩ := buildKind_eq_ok_iff.mp h
  have hr : kind.relationships.map Relationship.field = decl.relationships.map RelationshipDecl.field := by
    refine mapM_ok_map (fun d r hd => ?_) hm
    obtain ⟨_, _, rfl⟩ := resolve_eq_ok_iff.mp hd
    rfl
  rw [ha, hr, KindDecl.fieldNames]

/-- The fields along a label are those of the relationships of the kind that is built. -/
theorem mem_fieldsAlong_built_iff {decls : List KindDecl} (hnodup : (decls.map KindDecl.name).Nodup) {decl : KindDecl}
    (hdecl : decl ∈ decls) {kind : EntityKind} (h : buildKind decls decl = .ok kind) {label field : String}
    {direction : Direction} :
    field ∈ fieldsAlong decls decl.name label direction ↔
      ∃ m ∈ kind.relationships, m.label = label ∧ m.direction = direction ∧ m.field = field := by
  rw [mem_fieldsAlong_iff]
  constructor
  · rintro ⟨other, ho, hname, d, hd, hl, hdir, rfl⟩
    obtain rfl := List.inj_on_of_nodup_map hnodup ho hdecl hname
    obtain ⟨m, hm⟩ := mapM_ok_each (buildKind_eq_ok_iff.mp h).2.2 d hd
    refine ⟨m, (mem_relationships_iff h).mpr ⟨d, hd, hm⟩, ?_⟩
    obtain ⟨_, _, rfl⟩ := resolve_eq_ok_iff.mp hm
    exact ⟨hl, hdir, rfl⟩
  · rintro ⟨m, hm, hl, hdir, rfl⟩
    obtain ⟨d, hd, hres⟩ := (mem_relationships_iff h).mp hm
    obtain ⟨_, _, rfl⟩ := resolve_eq_ok_iff.mp hres
    exact ⟨decl, hdecl, rfl, d, hd, hl, hdir, rfl⟩

/-- A schema is built from declarations that pass the checks, and holds the kinds built from them under their names. -/
theorem build_eq_ok {decls : List KindDecl} {schema : Schema} (h : build decls = .ok schema) :
    (decls.map KindDecl.name).Nodup ∧
      (∀ decl ∈ decls, decl.checkFields = .ok ()) ∧
      (∀ decl ∈ decls, ∀ r ∈ decl.relationships, ∃ other ∈ decls, other.name = r.kind) ∧
      (∀ decl ∈ decls, ∃ kind, buildKind decls decl = .ok kind) ∧
      ∀ name kind, schema.kinds[name]? = some kind ↔ ∃ decl ∈ decls, decl.name = name ∧ buildKind decls decl = .ok kind := by
  simp only [build, bind_eq_ok_iff] at h
  obtain ⟨_, hk, _, hr, kinds, hm, hs⟩ := h
  obtain rfl := Except.ok.inj hs
  obtain ⟨hnodup, hall⟩ := checkKinds_eq_ok_iff.mp hk
  have hname : ∀ decl kind, buildKind decls decl = .ok kind → kind.name = decl.name :=
    fun _ _ hb => (buildKind_eq_ok_iff.mp hb).1
  have hnames : kinds.map EntityKind.name = decls.map KindDecl.name := mapM_ok_map hname hm
  refine ⟨hnodup, fun decl hd => (hall decl hd).2, checkRelatedKinds_eq_ok_iff.mp hr, mapM_ok_each hm, fun name kind => ?_⟩
  have hfold := getElem?_foldl_insert EntityKind.name id kinds ∅ name
  rw [Std.ExtTreeMap.ofList_eq_foldl, List.foldl_map]
  simp only [id_eq] at hfold
  rw [hfold]
  simp only [Std.ExtTreeMap.getElem?_empty, Option.or_none, Option.map_id, id_eq]
  constructor
  · intro hl
    obtain ⟨hmem, rfl⟩ := lastWith_some hl
    obtain ⟨decl, hd, hb⟩ := (mapM_ok_mem_iff hm).mp hmem
    exact ⟨decl, hd, (hname decl kind hb).symm, hb⟩
  · rintro ⟨decl, hd, rfl, hb⟩
    have hmem : kind ∈ kinds := (mapM_ok_mem_iff hm).mpr ⟨decl, hd, hb⟩
    obtain ⟨last, hl⟩ := lastWith_isSome EntityKind.name hmem
    rw [hname decl kind hb] at hl
    obtain ⟨hlm, hln⟩ := lastWith_some hl
    rw [hl]
    rw [← hnames] at hnodup
    rw [List.inj_on_of_nodup_map hnodup hlm hmem (hln.trans (hname decl kind hb).symm)]

/-- What holds of a built schema, in terms of the schema alone. -/
structure WellFormed (schema : Schema) : Prop where
  /-- A kind is found under its own name. -/
  name : ∀ {name : String} {kind : EntityKind}, schema.kinds[name]? = some kind → kind.name = name
  /-- The fields of a kind have different names. -/
  fields : ∀ {name : String} {kind : EntityKind}, schema.kinds[name]? = some kind →
    (kind.attributes.map AttributeDecl.name ++ kind.relationships.map Relationship.field).Nodup
  /-- No field has the name of a combinator. -/
  unreserved : ∀ {name : String} {kind : EntityKind}, schema.kinds[name]? = some kind →
    ∀ field ∈ kind.attributes.map AttributeDecl.name ++ kind.relationships.map Relationship.field, field ∉ reservedFieldNames
  /-- A relationship knows the kind that has it. -/
  owner : ∀ {name : String} {kind : EntityKind}, schema.kinds[name]? = some kind → ∀ r ∈ kind.relationships, r.kind = name
  /-- A relationship leads to a kind of the schema, whose relationships that follow the same label the other way are just its
  mirror. -/
  related : ∀ {name : String} {kind : EntityKind}, schema.kinds[name]? = some kind → ∀ r ∈ kind.relationships,
    ∃ other, schema.kinds[r.relatedKind]? = some other ∧ ∀ field, r.mirror = some field ↔
      ∃ m ∈ other.relationships, m.label = r.label ∧ m.direction = r.direction.opposite ∧ m.field = field

theorem WellFormed.relationshipFields {schema : Schema} (h : schema.WellFormed) {name : String} {kind : EntityKind}
    (hk : schema.kinds[name]? = some kind) : (kind.relationships.map Relationship.field).Nodup :=
  (List.nodup_append.mp (h.fields hk)).2.1

theorem wellFormed_of_build {decls : List KindDecl} {schema : Schema} (h : build decls = .ok schema) : schema.WellFormed := by
  obtain ⟨hnodup, hfields, hrelated, hkinds, hget⟩ := build_eq_ok h
  refine ⟨?_, ?_, ?_, ?_, ?_⟩
  · intro name kind hk
    obtain ⟨decl, _, rfl, hb⟩ := (hget _ _).mp hk
    exact (buildKind_eq_ok_iff.mp hb).1
  · intro name kind hk
    obtain ⟨decl, hd, rfl, hb⟩ := (hget _ _).mp hk
    rw [fieldNames_eq hb]
    exact (KindDecl.checkNames_eq_ok_iff.mp (hfields decl hd)).1
  · intro name kind hk
    obtain ⟨decl, hd, rfl, hb⟩ := (hget _ _).mp hk
    rw [fieldNames_eq hb]
    exact fun field hf => ((KindDecl.checkNames_eq_ok_iff.mp (hfields decl hd)).2 field hf).1
  · intro name kind hk r hr
    obtain ⟨decl, _, rfl, hb⟩ := (hget _ _).mp hk
    obtain ⟨d, _, hd⟩ := (mem_relationships_iff hb).mp hr
    obtain ⟨_, _, rfl⟩ := resolve_eq_ok_iff.mp hd
    rfl
  · intro name kind hk r hr
    obtain ⟨decl, hdecl, rfl, hb⟩ := (hget _ _).mp hk
    obtain ⟨d, hd, hres⟩ := (mem_relationships_iff hb).mp hr
    obtain ⟨mirror, hmirror, rfl⟩ := resolve_eq_ok_iff.mp hres
    obtain ⟨odecl, hodecl, hon⟩ := hrelated decl hdecl d hd
    obtain ⟨other, hob⟩ := hkinds odecl hodecl
    refine ⟨other, (hget _ _).mpr ⟨odecl, hodecl, hon, hob⟩, fun field => ?_⟩
    have hmem : mirror = some field ↔ field ∈ fieldsAlong decls d.kind d.label d.direction.opposite := by
      rw [hmirror, Option.mem_toList]
    rw [← hon] at hmem
    exact hmem.trans (mem_fieldsAlong_built_iff hnodup hodecl hob)

end Schema

end EntityGraph
