import EntityGraph.Proofs.Schema.Built

/-!
# Valid declarations

`Schema.Valid` says, without the checks of a build, which declarations describe a schema. `Schema.build` accepts just these, builds
the kinds as they are declared, each relationship with the single relationship that follows its edges the other way as its mirror,
and otherwise reports a defect that the declarations have (`Schema.build_accepts_valid`).
-/

namespace EntityGraph

namespace Schema

/-- The relationships of a kind that follow the edges of a declared relationship the other way. -/
def opposites (r : RelationshipDecl) (related : KindDecl) : List RelationshipDecl :=
  related.relationships.filter fun m => m.label == r.label && m.direction == r.direction.opposite

/-- Declarations that describe a schema. -/
structure Valid (decls : List KindDecl) : Prop where
  /-- Kinds have different names. -/
  kinds : (decls.map KindDecl.name).Nodup
  /-- So do the fields of a kind. -/
  fields : ∀ decl ∈ decls, decl.fieldNames.Nodup
  /-- No field has the name of a combinator. -/
  unreserved : ∀ decl ∈ decls, ∀ field ∈ decl.fieldNames, field ∉ ["and", "or", "not"]
  /-- Related kinds are declared. -/
  related : ∀ decl ∈ decls, ∀ r ∈ decl.relationships, ∃ other ∈ decls, other.name = r.kind
  /-- No two relationships of the related kind follow the edges of a relationship the other way. -/
  mirrors : ∀ decl ∈ decls, ∀ r ∈ decl.relationships, ∀ other ∈ decls, other.name = r.kind → (opposites r other).length ≤ 1

/-- A declared relationship of a kind as a schema has it. -/
structure Resolves (decls : List KindDecl) (kind : String) (d : RelationshipDecl) (r : Relationship) : Prop where
  owner : r.kind = kind
  field : r.field = d.field
  relatedKind : r.relatedKind = d.kind
  label : r.label = d.label
  direction : r.direction = d.direction
  cardinality : r.cardinality = d.cardinality
  /-- Its mirror is the single relationship of the related kind that follows its edges the other way. -/
  mirror : ∀ field, r.mirror = some field ↔
    ∃ other ∈ decls, other.name = d.kind ∧ (opposites d other).map RelationshipDecl.field = [field]

/-- A declared kind as a schema has it: with the attributes and relationships that are declared, in this order. -/
structure Describes (decls : List KindDecl) (decl : KindDecl) (kind : EntityKind) : Prop where
  name : kind.name = decl.name
  attributes : kind.attributes = decl.attributes
  relationships : List.Forall₂ (Resolves decls decl.name) decl.relationships kind.relationships

/-- The defects of declarations, as they are reported. -/
inductive Defect (decls : List KindDecl) : SchemaError → Prop
  | duplicateKind {kind : String} : 1 < (decls.map KindDecl.name).count kind → Defect decls (.duplicateKind kind)
  | duplicateField {decl : KindDecl} {field : String} :
    decl ∈ decls → 1 < decl.fieldNames.count field → Defect decls (.duplicateField decl.name field)
  | reservedFieldName {decl : KindDecl} {field : String} :
    decl ∈ decls → field ∈ decl.fieldNames → field ∈ ["and", "or", "not"] → Defect decls (.reservedFieldName decl.name field)
  | unknownKind {decl : KindDecl} {r : RelationshipDecl} :
    decl ∈ decls → r ∈ decl.relationships → (∀ other ∈ decls, other.name ≠ r.kind) → Defect decls (.unknownKind r.kind)
  | ambiguousMirror {decl other : KindDecl} {r : RelationshipDecl} :
    decl ∈ decls → r ∈ decl.relationships → other ∈ decls → other.name = r.kind → 1 < (opposites r other).length →
      Defect decls
        (.ambiguousMirror decl.name r.field r.kind r.label ((opposites r other).map RelationshipDecl.field))

/-! ## Helpers: mirrors -/

variable {decls : List KindDecl}

/-- Where kinds have different names, the fields along a label are those of the one kind with the name. -/
theorem fieldsAlong_eq (hn : (decls.map KindDecl.name).Nodup) {other : KindDecl} (ho : other ∈ decls) (r : RelationshipDecl) :
    fieldsAlong decls other.name r.label r.direction.opposite = (opposites r other).map RelationshipDecl.field := by
  obtain ⟨before, after, rfl⟩ := List.append_of_mem ho
  -- The kinds around it have other names, and contribute nothing.
  have hnone : ∀ l : List KindDecl, (∀ decl ∈ l, decl.name ≠ other.name) →
      fieldsAlong l other.name r.label r.direction.opposite = [] := by
    intro l hl
    rw [fieldsAlong, List.flatMap_eq_nil_iff]
    exact fun decl hd => if_neg (hl decl hd)
  rw [List.map_append, List.map_cons, List.nodup_middle, List.nodup_cons, ← List.map_append] at hn
  have hother : ∀ decl ∈ before ++ after, decl.name ≠ other.name := fun decl hd he => hn.1 (he ▸ List.mem_map_of_mem hd)
  have hbefore := hnone before fun decl hd => hother decl (List.mem_append_left _ hd)
  have hafter := hnone after fun decl hd => hother decl (List.mem_append_right _ hd)
  rw [fieldsAlong] at hbefore hafter ⊢
  rw [List.flatMap_append, List.flatMap_cons, hbefore, hafter, if_pos rfl, List.nil_append, List.append_nil, opposites]

theorem Resolves.eq_ofDecl {kind : String} {d : RelationshipDecl} {r : Relationship} (h : Resolves decls kind d r) :
    r = .ofDecl kind d r.mirror := by
  obtain ⟨rfl, hfield, hrelated, hlabel, hdirection, hcardinality, _⟩ := h
  rw [Relationship.ofDecl, ← hfield, ← hrelated, ← hlabel, ← hdirection, ← hcardinality]

/-- A relationship is resolved to the one that a schema has for it, if there is no choice of mirrors. -/
theorem resolve_eq_ok_iff_resolves (hn : (decls.map KindDecl.name).Nodup) {kind : String} {d : RelationshipDecl}
    (hr : ∃ other ∈ decls, other.name = d.kind) {r : Relationship} :
    resolve decls kind d = .ok r ↔
      Resolves decls kind d r ∧ ∀ other ∈ decls, other.name = d.kind → (opposites d other).length ≤ 1 := by
  obtain ⟨other, ho, hname⟩ := hr
  have hsingle : ∀ o ∈ decls, o.name = d.kind → o = other :=
    fun o hmem h => List.inj_on_of_nodup_map hn hmem ho (h.trans hname.symm)
  have halong := fieldsAlong_eq hn ho d
  rw [hname] at halong
  rw [resolve_eq_ok_iff, halong]
  constructor
  · rintro ⟨mirror, hmirror, rfl⟩
    refine ⟨⟨rfl, rfl, rfl, rfl, rfl, rfl, fun field => ?_⟩, fun o hmem h => ?_⟩
    · change mirror = some field ↔ _
      rw [← Option.toList_eq_singleton_iff, ← hmirror]
      constructor
      · exact fun h => ⟨other, ho, hname, h⟩
      · rintro ⟨o, hmem, h, hfield⟩
        rwa [hsingle o hmem h] at hfield
    · rw [hsingle o hmem h, ← List.length_map RelationshipDecl.field, hmirror]
      exact Option.length_toList_le
  · rintro ⟨hresolves, hle⟩
    have hfield := hresolves.mirror
    refine ⟨r.mirror, ?_, hresolves.eq_ofDecl⟩
    match hopposites : opposites d other with
    | [] =>
      cases hm : r.mirror with
      | none => rfl
      | some field =>
        obtain ⟨o, hmem, h, hone⟩ := (hfield field).mp hm
        rw [hsingle o hmem h, hopposites] at hone
        cases hone
    | [m] =>
      rw [(hfield m.field).mpr ⟨other, ho, hname, by rw [hopposites]; rfl⟩]
      rfl
    | _ :: _ :: _ =>
      have := hle other ho hname
      rw [hopposites] at this
      simp at this

/-- A relationship is resolved if there is no choice of mirrors. -/
theorem exists_resolve (hn : (decls.map KindDecl.name).Nodup) (kind : String) {d : RelationshipDecl} {other : KindDecl}
    (ho : other ∈ decls) (hname : other.name = d.kind) (hle : (opposites d other).length ≤ 1) :
    ∃ r, resolve decls kind d = .ok r := by
  have halong := fieldsAlong_eq hn ho d
  rw [hname] at halong
  simp only [resolve_eq_ok_iff, halong]
  match hopposites : opposites d other, hle with
  | [], _ => exact ⟨_, none, rfl, rfl⟩
  | [m], _ => exact ⟨_, some m.field, rfl, rfl⟩

/-- A kind is built as it is described, if there is no choice of mirrors for any of its relationships. -/
theorem buildKind_eq_ok_iff_describes (hn : (decls.map KindDecl.name).Nodup) {decl : KindDecl}
    (hr : ∀ r ∈ decl.relationships, ∃ other ∈ decls, other.name = r.kind) {kind : EntityKind} :
    buildKind decls decl = .ok kind ↔ Describes decls decl kind ∧
      ∀ r ∈ decl.relationships, ∀ other ∈ decls, other.name = r.kind → (opposites r other).length ≤ 1 := by
  have hall : ∀ ds rs, (∀ d ∈ ds, ∃ other ∈ decls, other.name = d.kind) →
      (List.Forall₂ (fun d r => resolve decls decl.name d = .ok r) ds rs ↔ List.Forall₂ (Resolves decls decl.name) ds rs ∧
        ∀ d ∈ ds, ∀ other ∈ decls, other.name = d.kind → (opposites d other).length ≤ 1) := by
    intro ds rs hds
    induction ds generalizing rs with
    | nil => simp
    | cons d ds ih =>
      obtain ⟨hd, hds⟩ := List.forall_mem_cons.mp hds
      simp only [List.forall₂_cons_left_iff, List.forall_mem_cons, resolve_eq_ok_iff_resolves hn hd, ih _ hds]
      constructor
      · rintro ⟨r, rest, ⟨hr, hle⟩, ⟨hrest, hall⟩, rfl⟩
        exact ⟨⟨r, rest, hr, hrest, rfl⟩, hle, hall⟩
      · rintro ⟨⟨r, rest, hr, hrest, rfl⟩, hle, hall⟩
        exact ⟨r, rest, ⟨hr, hle⟩, ⟨hrest, hall⟩, rfl⟩
  rw [buildKind_eq_ok_iff, mapM_eq_ok_iff, hall _ _ hr]
  constructor
  · rintro ⟨hname, hattributes, hrelationships, hle⟩
    exact ⟨⟨hname, hattributes, hrelationships⟩, hle⟩
  · rintro ⟨⟨hname, hattributes, hrelationships⟩, hle⟩
    exact ⟨hname, hattributes, hrelationships, hle⟩

/-! ## Helpers: how a build fails -/

end Schema

/-- The check of names reports one that is reserved or occurs again. -/
theorem KindDecl.checkNames_failsWith {kind : String} {seen fields : List String} (before : List String)
    (hseen : ∀ name ∈ seen, name ∈ before) :
    FailsWith (fun e => ∃ field, (field ∈ before ++ fields ∧ field ∈ reservedFieldNames ∧ e = .reservedFieldName kind field) ∨
      (1 < (before ++ fields).count field ∧ e = .duplicateField kind field)) (checkNames kind seen fields) := by
  induction fields generalizing seen before with
  | nil => exact failsWith_pure _
  | cons field fields ih =>
    rw [checkNames]
    split
    · next hreserved =>
      exact failsWith_throw ⟨field, Or.inl ⟨List.mem_append_right _ List.mem_cons_self, hreserved, rfl⟩⟩
    · split
      · next hagain =>
        have hbefore := List.count_pos_iff.mpr (hseen field hagain)
        refine failsWith_throw ⟨field, Or.inr ⟨?_, rfl⟩⟩
        rw [List.count_append, List.count_cons_self]
        omega
      · have hrest := ih (before ++ [field]) fun name (hname : name ∈ field :: seen) => by
          rcases List.mem_cons.mp hname with rfl | hname
          · exact List.mem_append_right _ List.mem_cons_self
          · exact List.mem_append_left _ (hseen name hname)
        rwa [List.append_assoc] at hrest

namespace Schema

variable {decls : List KindDecl}

/-- The check of kinds reports a name that occurs again, or a defect of the fields of a kind. -/
theorem checkKinds_failsWith {seen : List String} {rest : List KindDecl} (before : List KindDecl)
    (hseen : ∀ name ∈ seen, name ∈ before.map KindDecl.name) :
    FailsWith (Defect (before ++ rest)) (checkKinds seen rest) := by
  induction rest generalizing seen before with
  | nil => exact failsWith_pure _
  | cons decl rest ih =>
    have hdecl : decl ∈ before ++ decl :: rest := List.mem_append_right _ List.mem_cons_self
    rw [checkKinds]
    split
    · next hagain =>
      have hbefore := List.count_pos_iff.mpr (hseen decl.name hagain)
      refine (failsWith_throw (.duplicateKind ?_)).bind fun _ h => absurd h throw_ne_ok
      rw [List.map_append, List.map_cons, List.count_append, List.count_cons_self]
      omega
    · refine .bind (fun e he => ?_) fun _ _ => ?_
      · obtain ⟨field, ⟨hmem, hreserved, rfl⟩ | ⟨hcount, rfl⟩⟩ := KindDecl.checkNames_failsWith [] (List.forall_mem_nil _) e he
        · exact .reservedFieldName hdecl hmem hreserved
        · exact .duplicateField hdecl hcount
      · have hrest := ih (before ++ [decl]) fun name (hname : name ∈ decl.name :: seen) => by
          rw [List.map_append]
          rcases List.mem_cons.mp hname with rfl | hname
          · exact List.mem_append_right _ List.mem_cons_self
          · exact List.mem_append_left _ (hseen name hname)
        rwa [List.append_assoc] at hrest

theorem checkRelatedKinds_failsWith : FailsWith (Defect decls) (checkRelatedKinds decls) := by
  refine .forM fun decl hdecl => .forM fun r hr => ?_
  split
  · exact failsWith_pure _
  · next hnone => exact failsWith_throw (.unknownKind hdecl hr fun other ho hname => hnone (by simpa using ⟨other, ho, hname⟩))

theorem resolve_failsWith (hn : (decls.map KindDecl.name).Nodup) {decl : KindDecl} (hdecl : decl ∈ decls)
    {r : RelationshipDecl} (hr : r ∈ decl.relationships) (hrelated : ∃ other ∈ decls, other.name = r.kind) :
    FailsWith (Defect decls) (resolve decls decl.name r) := by
  obtain ⟨other, ho, hname⟩ := hrelated
  have halong := fieldsAlong_eq hn ho r
  rw [hname] at halong
  rw [resolve]
  split
  · exact failsWith_pure _
  · exact failsWith_pure _
  · next hnone hone =>
    rw [halong] at hnone hone ⊢
    refine failsWith_throw (.ambiguousMirror hdecl hr ho hname ?_)
    rcases hopposites : opposites r other with _ | ⟨m, _ | ⟨_, _⟩⟩
    · simp [hopposites] at hnone
    · simp [hopposites] at hone
    · simp

/-! ## What a build accepts, makes and reports -/

/-- A build in three parts.
1. Just valid declarations are accepted.
2. The schema that is built holds just the kinds that are declared, each as it is described under its name.
3. An error is a defect of the declarations. -/
theorem build_accepts_valid (decls : List KindDecl) :
    ((∃ schema, build decls = .ok schema) ↔ Valid decls) ∧
    (∀ schema, build decls = .ok schema → ∀ name kind, schema.kinds[name]? = some kind ↔
      ∃ decl ∈ decls, decl.name = name ∧ Describes decls decl kind) ∧
    (∀ e, build decls = .error e → Defect decls e) := by
  refine ⟨⟨?_, ?_⟩, ?_, ?_⟩
  · rintro ⟨schema, h⟩
    obtain ⟨hn, hfields, hrelated, hkinds, _⟩ := build_eq_ok h
    refine ⟨hn, fun decl hd => ?_, fun decl hd => ?_, hrelated, fun decl hd => ?_⟩
    · exact (KindDecl.checkNames_eq_ok_iff.mp (hfields decl hd)).1
    · exact fun field hf => ((KindDecl.checkNames_eq_ok_iff.mp (hfields decl hd)).2 field hf).1
    · obtain ⟨kind, hb⟩ := hkinds decl hd
      exact ((buildKind_eq_ok_iff_describes hn (hrelated decl hd)).mp hb).2
  · intro h
    have hnames : ∀ decl ∈ decls, decl.checkFields = .ok () := fun decl hd =>
      KindDecl.checkNames_eq_ok_iff.mpr ⟨h.fields decl hd, fun field hf => ⟨h.unreserved decl hd field hf, List.not_mem_nil⟩⟩
    have hkinds := checkKinds_eq_ok_iff.mpr ⟨h.kinds, fun decl hd => ⟨List.not_mem_nil, hnames decl hd⟩⟩
    have hrelated := checkRelatedKinds_eq_ok_iff.mpr h.related
    obtain ⟨kinds, hm⟩ : ∃ kinds, decls.mapM (buildKind decls) = .ok kinds := exists_mapM fun decl hd => by
      obtain ⟨rs, hrs⟩ : ∃ rs, decl.relationships.mapM (resolve decls decl.name) = .ok rs := exists_mapM fun r hr => by
        obtain ⟨other, ho, hname⟩ := h.related decl hd r hr
        exact exists_resolve h.kinds decl.name ho hname (h.mirrors decl hd r hr other ho hname)
      exact ⟨⟨decl.name, decl.attributes, rs⟩, buildKind_eq_ok_iff.mpr ⟨rfl, rfl, hrs⟩⟩
    refine ⟨⟨.ofList (kinds.map fun kind => (kind.name, kind)) compare⟩, ?_⟩
    rw [build, hkinds, hrelated, hm]
    rfl
  · intro schema h name kind
    obtain ⟨hn, _, hrelated, hkinds, hget⟩ := build_eq_ok h
    rw [hget]
    refine exists_congr fun decl => and_congr_right fun hd => and_congr_right fun _ => ?_
    rw [buildKind_eq_ok_iff_describes hn (hrelated decl hd)]
    obtain ⟨own, hb⟩ := hkinds decl hd
    exact and_iff_left ((buildKind_eq_ok_iff_describes hn (hrelated decl hd)).mp hb).2
  · change FailsWith (Defect decls) (build decls)
    refine .bind (checkKinds_failsWith [] (List.forall_mem_nil _)) fun _ hk => .bind checkRelatedKinds_failsWith fun _ hr => ?_
    have hn := (checkKinds_eq_ok_iff.mp hk).1
    have hrelated := checkRelatedKinds_eq_ok_iff.mp hr
    have hkind : ∀ decl ∈ decls, FailsWith (Defect decls) (buildKind decls decl) := fun decl hd =>
      .bind (.mapM fun r hmem => resolve_failsWith hn hd hmem (hrelated decl hd r hmem)) fun _ _ => failsWith_pure _
    exact .bind (.mapM hkind) fun _ _ => failsWith_pure _

namespace Example

/-- Trees, which mirror their children in their parents. -/
def trees : List KindDecl :=
  [⟨"Tree", [⟨"name", .string⟩],
    [⟨"children", "Tree", "CHILD", .outgoing, .many⟩, ⟨"parent", "Tree", "CHILD", .incoming, .one⟩]⟩]

/-- Labels, which have their issues in two ways. -/
def labels : List KindDecl :=
  [⟨"Issue", [], [⟨"labels", "Label", "LABELED", .outgoing, .many⟩]⟩,
    ⟨"Label", [],
      [⟨"issues", "Issue", "LABELED", .incoming, .many⟩, ⟨"openIssues", "Issue", "LABELED", .incoming, .many⟩]⟩]

end Example

/-- Trees are accepted, and labels refused for the two ways to their issues. -/
theorem trees_valid_labels_ambiguous : Valid Example.trees ∧
    Defect Example.labels (.ambiguousMirror "Issue" "labels" "Label" "LABELED" ["issues", "openIssues"]) :=
  ⟨(build_accepts_valid Example.trees).1.mp ⟨_, rfl⟩, (build_accepts_valid Example.labels).2.2 _ rfl⟩

end Schema

end EntityGraph
