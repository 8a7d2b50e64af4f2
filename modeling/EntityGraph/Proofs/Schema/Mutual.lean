import EntityGraph.Proofs.Store.Frame

/-!
# Mirrors that mirror each other

A mirror follows the edges of its relationship the other way, and is the only relationship of the related kind that does. It may
lead to a third kind, as labels are shared between kinds; it is mirrored back if it leads to the kind that it was found for
(`mirrored_back_iff`).
-/

namespace EntityGraph

namespace Schema

variable {schema : Schema} {name : String} {kind : EntityKind} {r : Relationship}

/-- In a schema that was built, the mirror of a relationship follows the same label the other way, as no other relationship of the
related kind does, and it is mirrored by the relationship in turn if and only if it leads to the kind of the relationship. -/
theorem mirrored_back_iff {decls : List KindDecl} (hb : build decls = .ok schema) (hk : schema.kinds[name]? = some kind)
    (hr : r ∈ kind.relationships) {field : String} (hm : r.mirror = some field) :
    ∃ related mirror, schema.kinds[r.relatedKind]? = some related ∧ mirror ∈ related.relationships ∧
      schema.relationship r.relatedKind field = .ok mirror ∧ mirror.label = r.label ∧
      mirror.direction = r.direction.opposite ∧
      (∀ m ∈ related.relationships, m.label = r.label → m.direction = r.direction.opposite → m = mirror) ∧
      ((∃ back, mirror.mirror = some back ∧ schema.relationship mirror.relatedKind back = .ok r) ↔
        mirror.relatedKind = name) := by
  have hs := wellFormed_of_build hb
  obtain ⟨related, hrelated, hfield⟩ := hs.related hk r hr
  obtain ⟨mirror, hmem, _, _, hsame⟩ := (hfield field).mp hm
  have hmirror : schema.Mirrors r mirror := ⟨by rw [hm, hsame], related, hrelated, hmem⟩
  obtain ⟨hlabel, hdirection⟩ := hmirror.along hs hk hr
  refine ⟨related, mirror, hrelated, hmem, hsame ▸ Store.relationship_of_mem hs hrelated hmem, hlabel, hdirection, ?_, ?_⟩
  · exact fun m hmem' hl hd => hmirror.unique hs hk hr hrelated hmem' hl hd
  · rw [← mirrors_iff hs]
    exact hmirror.symm_iff hs hk hr

open Store.Example

/-- The issues of a project and the project of an issue mirror each other. -/
theorem issues_mirrored_back : ∃ mirror, archiveSchema.relationship issues.relatedKind "project" = .ok mirror ∧
    ∃ back, mirror.mirror = some back ∧ archiveSchema.relationship mirror.relatedKind back = .ok issues := by
  obtain ⟨related, mirror, hrelated, _, hfound, _, _, honly, hback⟩ := mirrored_back_iff build_archiveDecls
    (rfl : archiveSchema.kinds["Project"]? = some projectKind) (List.mem_singleton.mpr rfl)
    (rfl : issues.mirror = some "project")
  obtain rfl := Option.some.inj ((rfl : archiveSchema.kinds["Issue"]? = some issueKind).symm.trans hrelated)
  obtain rfl := honly project (List.mem_singleton.mpr rfl) rfl rfl
  exact ⟨_, hfound, hback.mpr rfl⟩

/-- The mirror of the issues of an archive is the project of an issue, which leads to projects and is mirrored by their issues. -/
theorem items_not_mirrored_back : build archiveDecls = .ok archiveSchema ∧
    archiveSchema.kinds["Archive"]? = some archiveKind ∧ items ∈ archiveKind.relationships ∧
    items.mirror = some "project" ∧
    ¬∃ mirror, archiveSchema.relationship items.relatedKind "project" = .ok mirror ∧ mirror.relatedKind = "Archive" ∧
      mirror.label = items.label ∧ mirror.direction = items.direction.opposite ∧
      ∃ back, mirror.mirror = some back ∧ archiveSchema.relationship mirror.relatedKind back = .ok items := by
  refine ⟨build_archiveDecls, rfl, List.mem_singleton.mpr rfl, rfl, ?_⟩
  rintro ⟨mirror, hfound, hrelated, _⟩
  have hproject : archiveSchema.relationship "Issue" "project" = .ok project := rfl
  obtain rfl := Except.ok.inj (hproject.symm.trans hfound)
  exact absurd hrelated (by decide)

end Schema

end EntityGraph
