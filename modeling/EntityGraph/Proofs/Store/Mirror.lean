import EntityGraph.Proofs.Schema.Built
import EntityGraph.Proofs.Store.Reading
import EntityGraph.Proofs.Store.Written

/-!
# Mirrors

The mirror of a relationship is the relationship of the related kind that sees the same edges from the other end
(`Schema.Mirrors`). A plan deletes the edges of pending removals, and at the other end of every pending addition the edges to
what the mirror held, if it holds one node (`Planned.delete_mem_iff`).
-/

namespace EntityGraph

/-- The field of a relationship holds a node of the related kind for the node that owns it. -/
def Relationship.Holds (r : Relationship) (g : Graph) (owner other : String) : Prop :=
  r.edge ⟨owner, other⟩ ∈ g.edges ∧ g.kindOf? other = some r.relatedKind

namespace Schema

/-- A relationship of the related kind is the mirror of a relationship. -/
structure Mirrors (schema : Schema) (r mirror : Relationship) : Prop where
  field : r.mirror = some mirror.field
  mem : ∃ kind, schema.kinds[r.relatedKind]? = some kind ∧ mirror ∈ kind.relationships

variable {schema : Schema} {name : String} {kind : EntityKind} {r mirror : Relationship}

/-- A mirror follows the same label the other way. -/
theorem Mirrors.along (hs : schema.WellFormed) (hk : schema.kinds[name]? = some kind) (hr : r ∈ kind.relationships)
    (h : schema.Mirrors r mirror) : mirror.label = r.label ∧ mirror.direction = r.direction.opposite := by
  obtain ⟨other, ho, hm⟩ := h.mem
  obtain ⟨related, hrelated, hfield⟩ := hs.related hk r hr
  obtain rfl := Option.some.inj (ho.symm.trans hrelated)
  obtain ⟨m, hmem, hlabel, hdirection, hsame⟩ := (hfield mirror.field).mp h.field
  rw [List.inj_on_of_nodup_map (hs.relationshipFields ho) hm hmem hsame.symm]
  exact ⟨hlabel, hdirection⟩

/-- No other relationship of the related kind follows the same label the other way. -/
theorem Mirrors.unique (hs : schema.WellFormed) (hk : schema.kinds[name]? = some kind) (hr : r ∈ kind.relationships)
    (h : schema.Mirrors r mirror) {related : EntityKind} (hrelated : schema.kinds[r.relatedKind]? = some related)
    {m : Relationship} (hm : m ∈ related.relationships) (hlabel : m.label = r.label)
    (hdirection : m.direction = r.direction.opposite) : m = mirror := by
  obtain ⟨other, ho, hmem⟩ := h.mem
  obtain rfl := Option.some.inj (ho.symm.trans hrelated)
  obtain ⟨found, hfound, hfield⟩ := hs.related hk r hr
  obtain rfl := Option.some.inj (ho.symm.trans hfound)
  have hsame := (hfield m.field).mpr ⟨m, hm, hlabel, hdirection, rfl⟩
  rw [h.field] at hsame
  exact List.inj_on_of_nodup_map (hs.relationshipFields ho) hm hmem (Option.some.inj hsame).symm

/-- A mirror whose related kind is the kind of the relationship is mirrored by it. -/
theorem Mirrors.symm (hs : schema.WellFormed) (hk : schema.kinds[name]? = some kind) (hr : r ∈ kind.relationships)
    (h : schema.Mirrors r mirror) (hback : mirror.relatedKind = name) : schema.Mirrors mirror r := by
  obtain ⟨related, hrelated, hmem⟩ := h.mem
  obtain ⟨hlabel, hdirection⟩ := h.along hs hk hr
  obtain ⟨back, hkind, hfield⟩ := hs.related hrelated mirror hmem
  rw [hback, hk] at hkind
  obtain rfl := Option.some.inj hkind
  refine ⟨(hfield r.field).mpr ⟨r, hr, hlabel.symm, ?_, rfl⟩, kind, by rw [hback, hk], hr⟩
  rw [hdirection]
  cases r.direction <;> rfl

/-- A relationship is mirrored by its mirror if that leads to the kind of the relationship, and only then. -/
theorem Mirrors.symm_iff (hs : schema.WellFormed) (hk : schema.kinds[name]? = some kind) (hr : r ∈ kind.relationships)
    (h : schema.Mirrors r mirror) : schema.Mirrors mirror r ↔ mirror.relatedKind = name := by
  refine ⟨fun hback => ?_, h.symm hs hk hr⟩
  -- No two kinds share a relationship, as each knows the kind that has it.
  obtain ⟨back, hkind, hmem⟩ := hback.mem
  exact (hs.owner hkind r hmem).symm.trans (hs.owner hk r hr)

/-- No other relationship of its kind follows the same edges as one whose mirror leads back to the kind. -/
theorem Mirrors.eq_of_along (hs : schema.WellFormed) (hk : schema.kinds[name]? = some kind) (hr : r ∈ kind.relationships)
    (h : schema.Mirrors r mirror) (hback : mirror.relatedKind = name) {other : Relationship} (ho : other ∈ kind.relationships)
    (hlabel : other.label = r.label) (hdirection : other.direction = r.direction) : other = r := by
  obtain ⟨related, hrelated, hmem⟩ := h.mem
  obtain ⟨hl, hd⟩ := h.along hs hk hr
  refine (h.symm hs hk hr hback).unique hs hrelated hmem (by rw [hback]; exact hk) ho (hlabel.trans hl.symm) ?_
  rw [hdirection, hd]
  cases r.direction <;> rfl

/-- A relationship and its mirror relate two nodes by the same edge. -/
theorem Mirrors.edge_eq (hs : schema.WellFormed) (hk : schema.kinds[name]? = some kind) (hr : r ∈ kind.relationships)
    (h : schema.Mirrors r mirror) (owner related : String) : mirror.edge ⟨related, owner⟩ = r.edge ⟨owner, related⟩ := by
  obtain ⟨hlabel, hdirection⟩ := h.along hs hk hr
  exact Relationship.Opposite.edge_eq ⟨hlabel, hdirection⟩ ⟨owner, related⟩

/-- The mirror of a relationship is found by its field. -/
theorem mirrors_iff (hs : schema.WellFormed) :
    schema.Mirrors r mirror ↔ ∃ field, r.mirror = some field ∧ schema.relationship r.relatedKind field = .ok mirror := by
  constructor
  · rintro ⟨hfield, related, hrelated, hmem⟩
    exact ⟨mirror.field, hfield, Store.relationship_of_mem hs hrelated hmem⟩
  · rintro ⟨field, hfield, hfound⟩
    obtain ⟨related, hrelated, hfind⟩ := Store.relationship_eq_ok_iff.mp hfound
    have hsame : mirror.field = field := by simpa using List.find?_some hfind
    exact ⟨by rw [hfield, hsame], related, hrelated, List.mem_of_find?_eq_some hfind⟩

theorem Mirrors.eq (hs : schema.WellFormed) (h : schema.Mirrors r mirror) {other : Relationship} (ho : schema.Mirrors r other) :
    other = mirror := by
  obtain ⟨field, hfield, hfound⟩ := (mirrors_iff hs).mp h
  obtain ⟨field', hfield', hfound'⟩ := (mirrors_iff hs).mp ho
  obtain rfl := Option.some.inj (hfield.symm.trans hfield')
  exact Except.ok.inj (hfound'.symm.trans hfound)

end Schema

namespace Store

/-- The edges that a relationship deletes are those of its pending removals, and at the other end of each pending addition
those to what the mirror held, if it holds one node. -/
theorem delete_mem_relationshipWrites_iff {store : Store} (hs : store.schema.WellFormed) {ids : Std.ExtTreeMap NodeKey String}
    {node : Node} {r : Relationship} {writes : List EdgeWrite} (h : store.relationshipWrites ids node r = .ok writes)
    {owner : String} (ho : store.lookup ids node.key = some owner) {e : Edge} :
    EdgeWrite.delete e ∈ writes ↔ ∃ s, node.related[r.field]? = some s ∧
      ((∃ key ∈ s.removed, key ∈ s.known ∧ ∃ other, store.lookup ids key = some other ∧ e = r.edge ⟨owner, other⟩) ∨
        ∃ key ∈ s.added, key ∉ s.known ∧ ∃ other, store.lookup ids key = some other ∧
          ∃ mirror, store.schema.Mirrors r mirror ∧ mirror.cardinality = .one ∧
            ∃ previous, mirror.edge ⟨other, previous⟩ ∈ store.graph.edges ∧ previous ≠ owner ∧
              store.graph.kindOf? previous = some mirror.relatedKind ∧ e = mirror.edge ⟨other, previous⟩) := by
  obtain ⟨s, changes, displaced, hset, hc, hd, rfl⟩ := relationshipWrites_eq_ok h
  obtain ⟨ownerId, hown, _, hadd, hremove⟩ := RelatedSet.changes_eq_ok hc
  obtain rfl := Option.some.inj (ho.symm.trans hown)
  simp only [List.mem_append, Relationship.delete_mem_writes_iff, hremove, hset, Option.some.injEq, exists_eq_left']
  refine or_congr ?_ ?_
  · constructor
    · rintro ⟨⟨_, other⟩, ⟨key, hkey, hknown, hl, rfl⟩, rfl⟩
      exact ⟨key, hkey, hknown, other, hl, rfl⟩
    · rintro ⟨key, hkey, hknown, other, hl, rfl⟩
      exact ⟨⟨owner, other⟩, ⟨key, hkey, hknown, hl, rfl⟩, rfl⟩
  · rw [mem_displaced_iff hd]
    constructor
    · rintro ⟨field, mirror, hfield, hfound, hone, ⟨_, other⟩, hpair, previous, hedge, hne, hprevious, hwrite⟩
      obtain ⟨key, hkey, hnew, hl, rfl⟩ := (hadd _).mp hpair
      exact ⟨key, hkey, hnew, other, hl, mirror, (Schema.mirrors_iff hs).mpr ⟨field, hfield, hfound⟩, hone, previous, hedge,
        hne, hprevious, EdgeWrite.delete.inj hwrite⟩
    · rintro ⟨key, hkey, hnew, other, hl, mirror, hmirror, hone, previous, hedge, hne, hprevious, rfl⟩
      obtain ⟨field, hfield, hfound⟩ := (Schema.mirrors_iff hs).mp hmirror
      exact ⟨field, mirror, hfield, hfound, hone, ⟨owner, other⟩, (hadd _).mpr ⟨key, hkey, hnew, hl, rfl⟩, previous,
        hedge, hne, hprevious, rfl⟩

/-- The edges that a plan deletes are those that the relationships of its nodes delete. -/
theorem Unchecked.delete_mem_iff {store : Store} {makeId : NodeKey → String} {nodes : List Node} {plan : SavePlan}
    (h : store.Unchecked makeId nodes plan) (hs : store.schema.WellFormed) {e : Edge} :
    EdgeWrite.delete e ∈ plan.writes ↔ ∃ node ∈ nodes, ∃ kind, store.schema.kinds[node.kind]? = some kind ∧
      ∃ r ∈ kind.relationships, ∃ s, node.related[r.field]? = some s ∧
        ((∃ key ∈ s.removed, key ∈ s.known ∧
            ∃ other, store.lookup plan.ids key = some other ∧ e = r.edge ⟨plan.idOf node, other⟩) ∨
          ∃ key ∈ s.added, key ∉ s.known ∧ ∃ other, store.lookup plan.ids key = some other ∧
            ∃ mirror, store.schema.Mirrors r mirror ∧ mirror.cardinality = .one ∧
              ∃ previous, mirror.edge ⟨other, previous⟩ ∈ store.graph.edges ∧ previous ≠ plan.idOf node ∧
                store.graph.kindOf? previous = some mirror.relatedKind ∧ e = mirror.edge ⟨other, previous⟩) := by
  rw [h.writes]
  refine exists_congr fun node => and_congr_right fun hn => exists_congr fun kind => and_congr_right fun hk =>
    exists_congr fun r => and_congr_right fun hr => ?_
  obtain ⟨ws, hws⟩ := h.each node hn kind hk r hr
  simp only [hws, Except.ok.injEq, exists_eq_left']
  exact delete_mem_relationshipWrites_iff hs hws (h.lookup_idOf hn)

theorem Planned.delete_mem_iff {store : Store} {makeId : NodeKey → String} {nodes : List Node} {plan : SavePlan}
    (h : store.Planned makeId nodes plan) (hs : store.schema.WellFormed) {e : Edge} :
    EdgeWrite.delete e ∈ plan.writes ↔ ∃ node ∈ nodes, ∃ kind, store.schema.kinds[node.kind]? = some kind ∧
      ∃ r ∈ kind.relationships, ∃ s, node.related[r.field]? = some s ∧
        ((∃ key ∈ s.removed, key ∈ s.known ∧
            ∃ other, store.lookup plan.ids key = some other ∧ e = r.edge ⟨plan.idOf node, other⟩) ∨
          ∃ key ∈ s.added, key ∉ s.known ∧ ∃ other, store.lookup plan.ids key = some other ∧
            ∃ mirror, store.schema.Mirrors r mirror ∧ mirror.cardinality = .one ∧
              ∃ previous, mirror.edge ⟨other, previous⟩ ∈ store.graph.edges ∧ previous ≠ plan.idOf node ∧
                store.graph.kindOf? previous = some mirror.relatedKind ∧ e = mirror.edge ⟨other, previous⟩) :=
  h.unchecked.delete_mem_iff hs

end Store

end EntityGraph
