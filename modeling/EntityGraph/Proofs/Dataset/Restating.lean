import EntityGraph.Proofs.Dataset.Loading
import EntityGraph.Proofs.Store.Mirror

/-!
# Datasets that state the same

An edge may be stated from its other end, by the mirror of its field (`DatasetEdge.Restates`). Datasets that declare the same
nodes, and whose edges are the same but for their order, their number and the end they are stated from, stand for the same edges
of a graph (`Dataset.SameBut.draws`). So they are loaded alike: one is loaded if the other is, with the same graph, and queries
answer the same (`Dataset.loaded_alike`).
-/

namespace EntityGraph

variable {schema : Schema} {declared declared' : List DatasetNode} {edge back other : DatasetEdge} {e : Edge}

namespace DatasetEdge

/-- An edge stated from its other end, by the mirror of its field. -/
structure Restates (schema : Schema) (declared : List DatasetNode) (edge back : DatasetEdge) : Prop where
  source : back.source = edge.target
  target : back.target = edge.source
  field : ∃ source ∈ declared, source.id = edge.source ∧
    ∃ r, schema.relationship source.kind edge.field = .ok r ∧ r.mirror = some back.field

/-- Edges that are the same, or one of which is the other stated from its other end. -/
def Same (schema : Schema) (declared : List DatasetNode) (edge other : DatasetEdge) : Prop :=
  edge = other ∨ edge.Restates schema declared other ∨ other.Restates schema declared edge

/-! ## The order of the nodes -/

theorem fits_perm (hp : declared.Perm declared') : edge.Fits schema declared' ↔ edge.Fits schema declared := by
  simp only [Fits, hp.mem_iff]

theorem typed_perm (hp : declared.Perm declared') : edge.Typed schema declared' ↔ edge.Typed schema declared := by
  simp only [Typed, hp.mem_iff]

theorem draws_perm (hp : declared.Perm declared') : edge.Draws schema declared' e ↔ edge.Draws schema declared e := by
  simp only [Draws, hp.mem_iff]

/-- Where no id is declared twice, an edge is typed if its ends are of the kinds of its field. -/
theorem typed_of_kinds (hids : (declared.map DatasetNode.id).Nodup) {source target : DatasetNode} (hsource : source ∈ declared)
    (hid : source.id = edge.source) (htarget : target ∈ declared) (htid : target.id = edge.target) {r : Relationship}
    (hr : schema.relationship source.kind edge.field = .ok r) (hkind : target.kind = r.relatedKind) :
    edge.Typed schema declared := by
  intro found hfound hfid other hother hoid r' hr'
  obtain rfl := List.inj_on_of_nodup_map hids hfound hsource (hfid.trans hid.symm)
  obtain rfl := List.inj_on_of_nodup_map hids hother htarget (hoid.trans htid.symm)
  rw [← Except.ok.inj (hr.symm.trans hr'), hkind]

theorem Restates.perm (hp : declared.Perm declared') (h : edge.Restates schema declared back) :
    edge.Restates schema declared' back := by
  obtain ⟨hsource, htarget, source, hmem, hfield⟩ := h
  exact ⟨hsource, htarget, source, hp.mem_iff.mp hmem, hfield⟩

theorem Same.perm (hp : declared.Perm declared') (h : edge.Same schema declared other) : edge.Same schema declared' other :=
  h.imp_right fun h => h.imp (Restates.perm hp) (Restates.perm hp)

theorem Same.symm (h : edge.Same schema declared other) : other.Same schema declared edge := by
  obtain rfl | h | h := h
  · exact Or.inl rfl
  · exact Or.inr (Or.inr h)
  · exact Or.inr (Or.inl h)

/-! ## The end that an edge is stated from -/

/-- The field that an edge is restated by is found at its target, and draws the edge that the field of its source does. -/
theorem Restates.exists_mirror (h : edge.Restates schema declared back) (hs : schema.WellFormed)
    (hids : (declared.map DatasetNode.id).Nodup) (ht : edge.Typed schema declared) {source : DatasetNode}
    (hsource : source ∈ declared) (hid : source.id = edge.source) {r : Relationship}
    (hr : schema.relationship source.kind edge.field = .ok r) {target : DatasetNode} (htarget : target ∈ declared)
    (htid : target.id = edge.target) : ∃ mirror, schema.relationship target.kind back.field = .ok mirror ∧
      mirror.edge ⟨back.source, back.target⟩ = r.edge ⟨edge.source, edge.target⟩ := by
  obtain ⟨found, hfound, hfid, r', hr', hm⟩ := h.field
  obtain rfl : found = source := List.inj_on_of_nodup_map hids hfound hsource (hfid.trans hid.symm)
  obtain rfl := Except.ok.inj (hr.symm.trans hr')
  obtain ⟨kind, hk, hfind⟩ := Store.relationship_eq_ok_iff.mp hr
  have hmem := List.mem_of_find?_eq_some hfind
  obtain ⟨related, hrelated, hfield⟩ := hs.related hk r hmem
  obtain ⟨mirror, hmirror, -, -, hsame⟩ := (hfield back.field).mp hm
  have hmirrors : schema.Mirrors r mirror := ⟨by rw [hm, hsame], related, hrelated, hmirror⟩
  refine ⟨mirror, ?_, ?_⟩
  · rw [ht found hfound hid target htarget htid r hr, ← hsame]
    exact Store.relationship_of_mem hs hrelated hmirror
  · rw [h.source, h.target]
    exact hmirrors.edge_eq hs hk hmem edge.source edge.target

theorem Restates.fits_iff (h : edge.Restates schema declared back) (hs : schema.WellFormed)
    (hids : (declared.map DatasetNode.id).Nodup) (ht : edge.Typed schema declared) :
    edge.Fits schema declared ↔ back.Fits schema declared := by
  constructor
  · rintro ⟨⟨source, hsource, hid, r, hr⟩, target, htarget, htid⟩
    obtain ⟨mirror, hfound, -⟩ := h.exists_mirror hs hids ht hsource hid hr htarget htid
    exact ⟨⟨target, htarget, htid.trans h.source.symm, mirror, hfound⟩, source, hsource, hid.trans h.target.symm⟩
  · rintro ⟨⟨target, htarget, htid, -⟩, -⟩
    obtain ⟨source, hsource, hid, r, hr, -⟩ := h.field
    exact ⟨⟨source, hsource, hid, r, hr⟩, target, htarget, htid.trans h.source⟩

theorem Restates.draws_iff (h : edge.Restates schema declared back) (hs : schema.WellFormed)
    (hids : (declared.map DatasetNode.id).Nodup) (ht : edge.Typed schema declared) (hfits : edge.Fits schema declared) :
    edge.Draws schema declared e ↔ back.Draws schema declared e := by
  constructor
  · rintro ⟨source, hsource, hid, r, hr, rfl⟩
    obtain ⟨-, target, htarget, htid⟩ := hfits
    obtain ⟨mirror, hfound, hedge⟩ := h.exists_mirror hs hids ht hsource hid hr htarget htid
    exact ⟨target, htarget, htid.trans h.source.symm, mirror, hfound, hedge.symm⟩
  · rintro ⟨target, htarget, htid, r', hr', rfl⟩
    obtain ⟨source, hsource, hid, r, hr, -⟩ := h.field
    obtain ⟨mirror, hfound, hedge⟩ := h.exists_mirror hs hids ht hsource hid hr htarget (htid.trans h.source)
    obtain rfl := Except.ok.inj (hr'.symm.trans hfound)
    exact ⟨source, hsource, hid, r, hr, hedge⟩

/-- Edges that are the same but for their ends lead between declared nodes alike. -/
theorem Same.fits_iff (h : edge.Same schema declared other) (hs : schema.WellFormed) (hids : (declared.map DatasetNode.id).Nodup)
    (ht : edge.Typed schema declared) (hother : other.Typed schema declared) :
    edge.Fits schema declared ↔ other.Fits schema declared := by
  obtain rfl | h | h := h
  · exact Iff.rfl
  · exact h.fits_iff hs hids ht
  · exact (h.fits_iff hs hids hother).symm

/-- Edges that are the same but for their ends stand for the same edge of a graph. -/
theorem Same.draws_iff (h : edge.Same schema declared other) (hs : schema.WellFormed) (hids : (declared.map DatasetNode.id).Nodup)
    (ht : edge.Typed schema declared) (hother : other.Typed schema declared) (hfits : edge.Fits schema declared) :
    edge.Draws schema declared e ↔ other.Draws schema declared e := by
  have hback := (h.fits_iff hs hids ht hother).mp hfits
  obtain rfl | h | h := h
  · exact Iff.rfl
  · exact h.draws_iff hs hids ht hfits
  · exact (h.draws_iff hs hids hother hback).symm

end DatasetEdge

namespace Dataset

/-- Datasets with the same nodes in some order, whose edges are the same but for their order, their number and the end that they
are stated from. -/
structure SameBut (schema : Schema) (dataset other : Dataset) : Prop where
  nodes : dataset.nodes.Perm other.nodes
  edges : ∀ edge ∈ dataset.edges, ∃ same ∈ other.edges, edge.Same schema dataset.nodes same
  back : ∀ edge ∈ other.edges, ∃ same ∈ dataset.edges, same.Same schema dataset.nodes edge

variable {dataset other : Dataset}

theorem SameBut.symm (h : dataset.SameBut schema other) : other.SameBut schema dataset where
  nodes := h.nodes.symm
  edges edge hedge := by
    obtain ⟨same, hsame, hedges⟩ := h.back edge hedge
    exact ⟨same, hsame, hedges.symm.perm h.nodes⟩
  back edge hedge := by
    obtain ⟨same, hsame, hedges⟩ := h.edges edge hedge
    exact ⟨same, hsame, hedges.symm.perm h.nodes⟩

/-! ## What is loaded -/

theorem SameBut.drafted (h : dataset.SameBut schema other) (hs : schema.WellFormed) (ht : dataset.Typed schema)
    (hother : other.Typed schema) (hd : dataset.Drafted schema) : other.Drafted schema where
  kinds node hn := hd.kinds node (h.nodes.mem_iff.mpr hn)
  ids := (h.nodes.map DatasetNode.id).nodup_iff.mp hd.ids
  fits edge hedge := by
    obtain ⟨same, hsame, hedges⟩ := h.back edge hedge
    have hedgeTyped := (DatasetEdge.typed_perm h.nodes).mp (hother edge hedge)
    exact (DatasetEdge.fits_perm h.nodes).mpr
      ((hedges.fits_iff hs hd.ids (ht same hsame) hedgeTyped).mp (hd.fits same hsame))

/-- Datasets that are the same but for the ends that edges are stated from stand for the same edges of a graph. -/
theorem SameBut.draws (h : dataset.SameBut schema other) (hs : schema.WellFormed) (ht : dataset.Typed schema)
    (hother : other.Typed schema) (hd : dataset.Drafted schema) (hdraws : dataset.Draws schema e) : other.Draws schema e := by
  obtain ⟨edge, hedge, hdraw⟩ := hdraws
  obtain ⟨same, hsame, hedges⟩ := h.edges edge hedge
  have hsameTyped := (DatasetEdge.typed_perm h.nodes).mp (hother same hsame)
  exact ⟨same, hsame, (DatasetEdge.draws_perm h.nodes).mpr
    ((hedges.draws_iff hs hd.ids (ht edge hedge) hsameTyped (hd.fits edge hedge)).mp hdraw)⟩

theorem SameBut.exists_load (h : dataset.SameBut schema other) (hs : schema.WellFormed) (ht : dataset.Typed schema)
    (hother : other.Typed schema) (hload : ∃ store, dataset.load schema = .ok store) :
    ∃ store, other.load schema = .ok store := by
  obtain ⟨hd, hone⟩ := (exists_load_iff hs ht).mp hload
  have hd' := h.drafted hs ht hother hd
  refine (exists_load_iff hs hother).mpr ⟨hd', fun owner ho kind hk r hr hcard a ha hak hdrawsa b hb hbk hdrawsb => ?_⟩
  exact hone owner (h.nodes.mem_iff.mpr ho) kind hk r hr hcard
    a (h.nodes.mem_iff.mpr ha) hak (h.symm.draws hs hother ht hd' hdrawsa)
    b (h.nodes.mem_iff.mpr hb) hbk (h.symm.draws hs hother ht hd' hdrawsb)

/-- Where both are loaded, they are loaded as the same graph. -/
theorem SameBut.graph_eq (h : dataset.SameBut schema other) (hs : schema.WellFormed) (ht : dataset.Typed schema)
    (hother : other.Typed schema) {store store' : Store} (hload : dataset.load schema = .ok store)
    (hload' : other.load schema = .ok store') : store'.graph = store.graph := by
  have hl := loadedAs_of_ok hs hload
  have hl' := loadedAs_of_ok hs hload'
  have hd := drafted_of_load hs hload
  refine Graph.ext (Std.ExtTreeMap.ext_getElem? fun id => Option.ext fun stored => ?_) (Std.ExtTreeSet.ext_mem fun e => ?_)
  · rw [hl.nodes, hl'.nodes]
    simp only [h.nodes.mem_iff]
  · rw [hl.edges, hl'.edges]
    exact ⟨h.symm.draws hs hother ht (h.drafted hs ht hother hd), h.draws hs ht hother hd⟩

/-! ## What is answered -/

/-- A query answers with what is stored of the nodes that satisfy the condition. -/
theorem query_answers {store : Store} (hs : store.schema.WellFormed)
    (hkinds : ∀ (id : String) (stored : StoredNode), store.graph.nodes[id]? = some stored →
      ∃ kind, store.schema.kinds[stored.kind]? = some kind)
    (kind : String) (subject : Variable) (condition : Condition) :
    (store.query kind subject condition).map (fun answer => answer.1.map DatasetNode.ofNode) =
      ((store.schema.kind kind).mapError StoreError.schema).map fun _ =>
        (store.graph.nodes.toList.filter fun row => row.2.kind == kind && store.graph.satisfies subject row.1 condition).map
          fun row => ⟨row.1, row.2.kind, row.2.attributes⟩ := by
  have hrows : ∀ row ∈ store.graph.nodes.toList.filter fun row =>
      row.2.kind == kind && store.graph.satisfies subject row.1 condition, ∃ kind, store.schema.kinds[row.2.kind]? = some kind :=
    fun row hrow => hkinds row.1 row.2 (Std.ExtTreeMap.mem_toList_iff_getElem?_eq_some.mp (List.mem_filter.mp hrow).1)
  obtain ⟨nodes, hm, hshown⟩ := Store.exists_materialize store hs hrows
  have hanswers : nodes.map DatasetNode.ofNode = (store.graph.nodes.toList.filter fun row =>
      row.2.kind == kind && store.graph.satisfies subject row.1 condition).map
        fun row => ⟨row.1, row.2.kind, row.2.attributes⟩ := by
    have hof := congrArg (List.map fun (shown : Option String × String × Std.ExtTreeMap String Value) =>
      (⟨shown.1.getD "", shown.2.1, shown.2.2⟩ : DatasetNode)) hshown
    rw [List.map_map, List.map_map] at hof
    exact hof
  cases hk : store.schema.kind kind with
  | error e => rw [Store.query, hk]; rfl
  | ok k =>
    have hquery := Store.query_eq_ok_iff.mpr ⟨⟨k, Schema.kind_eq_ok_iff.mp hk⟩, _, hm, rfl⟩
    rw [hquery, ← hanswers]
    rfl

/-- The stored nodes of what was loaded are of kinds of the schema. -/
theorem kinds_of_load (hs : schema.WellFormed) {store : Store} (h : dataset.load schema = .ok store) :
    ∀ (id : String) (stored : StoredNode), store.graph.nodes[id]? = some stored →
      ∃ kind, store.schema.kinds[stored.kind]? = some kind := by
  intro id stored hstored
  have hl := loadedAs_of_ok hs h
  obtain ⟨node, hn, hrow⟩ := (hl.nodes id stored).mp hstored
  obtain ⟨-, rfl⟩ := Prod.mk.inj hrow
  rw [hl.schema_eq]
  exact (drafted_of_load hs h).kinds node hn

/-- Datasets that are the same but for the order and the number of their edges, and the ends that these are stated from, are loaded
alike: one is loaded if the other is, and where both are, they are loaded as the same graph, and every query answers the same.
Mirrors need not mirror each other for this: an edge restated by one that leads to a third kind would not be typed. -/
theorem loaded_alike {decls : List KindDecl} (hb : Schema.build decls = .ok schema) (h : dataset.SameBut schema other)
    (ht : dataset.Typed schema) (hother : other.Typed schema) :
    ((∃ store, dataset.load schema = .ok store) ↔ ∃ store, other.load schema = .ok store) ∧
      ∀ store store', dataset.load schema = .ok store → other.load schema = .ok store' → store'.graph = store.graph ∧
        ∀ (kind : String) (subject : Variable) (condition : Condition),
          (store'.query kind subject condition).map (fun answer => answer.1.map DatasetNode.ofNode) =
            (store.query kind subject condition).map fun answer => answer.1.map DatasetNode.ofNode := by
  have hs := Schema.wellFormed_of_build hb
  refine ⟨⟨h.exists_load hs ht hother, h.symm.exists_load hs hother ht⟩, fun store store' hload hload' => ?_⟩
  have hgraph := h.graph_eq hs ht hother hload hload'
  refine ⟨hgraph, fun kind subject condition => ?_⟩
  have hschema := (loadedAs_of_ok hs hload).schema_eq
  have hschema' := (loadedAs_of_ok hs hload').schema_eq
  rw [query_answers (hschema.symm ▸ hs) (kinds_of_load hs hload), query_answers (hschema'.symm ▸ hs) (kinds_of_load hs hload'),
    hschema, hschema', hgraph]

namespace Example

/-- A project and its issue. -/
def fromProject : Dataset := ⟨[⟨"p", "Project", ∅⟩, ⟨"i", "Issue", ∅⟩], [⟨"p", "issues", "i"⟩]⟩

/-- The same, with the edge stated from the issue, and twice. -/
def fromIssue : Dataset := ⟨[⟨"i", "Issue", ∅⟩, ⟨"p", "Project", ∅⟩], [⟨"i", "project", "p"⟩, ⟨"i", "project", "p"⟩]⟩

theorem sameBut : fromProject.SameBut Store.Example.schema fromIssue := by
  have hback : DatasetEdge.Same Store.Example.schema fromProject.nodes ⟨"p", "issues", "i"⟩ ⟨"i", "project", "p"⟩ :=
    Or.inr (Or.inl ⟨rfl, rfl, _, List.mem_cons_self, rfl, Store.Example.issues, rfl, rfl⟩)
  refine ⟨List.Perm.swap .., fun edge hedge => ?_, fun edge hedge => ?_⟩
  · obtain rfl := List.mem_singleton.mp hedge
    exact ⟨_, List.mem_cons_self, hback⟩
  · obtain rfl : edge = ⟨"i", "project", "p"⟩ := by simpa [fromIssue] using hedge
    exact ⟨_, List.mem_cons_self, hback⟩

theorem typed_fromProject : fromProject.Typed Store.Example.schema := by
  intro edge hedge
  obtain rfl := List.mem_singleton.mp hedge
  have hr : Store.Example.schema.relationship "Project" "issues" = .ok Store.Example.issues := rfl
  exact DatasetEdge.typed_of_kinds (by decide) List.mem_cons_self rfl (List.mem_cons_of_mem _ List.mem_cons_self) rfl hr rfl

theorem typed_fromIssue : fromIssue.Typed Store.Example.schema := by
  intro edge hedge
  obtain rfl : edge = ⟨"i", "project", "p"⟩ := by simpa [fromIssue] using hedge
  have hr : Store.Example.schema.relationship "Issue" "project" = .ok Store.Example.project := rfl
  exact DatasetEdge.typed_of_kinds (by decide) List.mem_cons_self rfl (List.mem_cons_of_mem _ List.mem_cons_self) rfl hr rfl

/-- What the project is loaded as with its issue. -/
def loaded : Graph :=
  ⟨.ofList [("p", ⟨"Project", ∅⟩), ("i", ⟨"Issue", ∅⟩)] compare, .ofList [⟨"p", "HAS_ISSUE", "i"⟩] compare⟩

theorem load_fromProject : (fromProject.load Store.Example.schema).map Store.graph = .ok loaded := by
  decide +kernel

end Example

/-- The project is loaded with its issue from either end. -/
theorem project_loaded_from_issue : ∃ store, Example.fromIssue.load Store.Example.schema = .ok store ∧
    store.graph = Example.loaded := by
  obtain ⟨hexists, hsame⟩ := loaded_alike Store.Example.build_decls Example.sameBut Example.typed_fromProject
    Example.typed_fromIssue
  obtain ⟨store, hload, hgraph⟩ := map_eq_ok_iff.mp Example.load_fromProject
  obtain ⟨store', hload'⟩ := hexists.mp ⟨store, hload⟩
  exact ⟨store', hload', (hsame store store' hload hload').1.trans hgraph⟩

end Dataset

end EntityGraph
