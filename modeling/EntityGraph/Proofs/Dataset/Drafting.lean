import EntityGraph.Dataset
import EntityGraph.Proofs.Store.Clients

/-!
# The nodes of a dataset in memory

A dataset is loaded in two passes before anything is saved. The first makes a node in memory for each one that is declared
(`Dataset.makeNodes_eq_ok_iff`). The second adds the edges, one after the other, each to the field of its source; it goes through
when all edges fit the nodes that are declared (`Dataset.Batch.exists_addEdges_iff`), and then a field holds the nodes that the
edges of this field lead to (`Dataset.Batch`).
-/

namespace EntityGraph

/-- The node that is to be stored, with its id. -/
def DatasetNode.row (node : DatasetNode) : String × StoredNode := (node.id, ⟨node.kind, node.attributes⟩)

/-- An edge leads between declared nodes, from a field of its source. -/
def DatasetEdge.Fits (schema : Schema) (declared : List DatasetNode) (edge : DatasetEdge) : Prop :=
  (∃ source ∈ declared, source.id = edge.source ∧ ∃ r, schema.relationship source.kind edge.field = .ok r) ∧
    ∃ target ∈ declared, target.id = edge.target

theorem DatasetError.liftSchema_eq_ok_iff {α : Type} {x : Except SchemaError α} {a : α} :
    (liftM x : Except DatasetError α) = .ok a ↔ x = .ok a := mapError_eq_ok_iff

namespace Dataset

/-! ## Making the nodes -/

/-- Nodes are made as they are for stored nodes, when no id is declared twice. -/
theorem makeNodes_eq_ok_iff {store after : Store} {made nodes : List Node} {declared : List DatasetNode} :
    makeNodes store made declared = .ok (after, nodes) ↔
      ∃ fresh, store.materialize (declared.map DatasetNode.row) = .ok (fresh, after) ∧ nodes = made ++ fresh ∧
        (∀ node ∈ declared, ∀ other ∈ made, other.id ≠ some node.id) ∧ (declared.map DatasetNode.id).Nodup := by
  induction declared generalizing store made with
  | nil =>
    simp only [makeNodes, Store.materialize, List.map_nil, pure, Except.pure, Except.ok.injEq, Prod.mk.injEq]
    constructor
    · rintro ⟨rfl, rfl⟩
      exact ⟨[], ⟨rfl, rfl⟩, by simp, by simp, List.nodup_nil⟩
    · rintro ⟨_, ⟨rfl, rfl⟩, rfl, _⟩
      simp
  | cons node rest ih =>
    simp only [makeNodes, bind_eq_ok_iff, DatasetError.liftSchema_eq_ok_iff, Schema.kind_eq_ok_iff, List.map_cons,
      DatasetNode.row, Store.materialize_cons_eq_ok_iff, List.nodup_cons]
    split
    · next hdup =>
      obtain ⟨other, ho, hid⟩ := List.any_eq_true.mp hdup
      constructor
      · rintro ⟨_, _, hthrow⟩
        exact absurd hthrow throw_ne_ok
      · rintro ⟨_, _, _, hothers, _⟩
        exact absurd (by simpa using hid) (hothers node List.mem_cons_self other ho)
    · next hnew =>
      simp only [ih]
      constructor
      · rintro ⟨kind, hk, fresh, hm, rfl, hothers, hn⟩
        refine ⟨_, ⟨kind, fresh, hk, hm, rfl⟩, List.append_assoc .., fun declared hd other ho => ?_, fun hmem => ?_, hn⟩
        · rcases List.mem_cons.mp hd with rfl | hd
          · exact fun hid => hnew (List.any_eq_true.mpr ⟨other, ho, by simpa using hid⟩)
          · exact hothers declared hd other (List.mem_append_left _ ho)
        · obtain ⟨declared, hd, hid⟩ := List.mem_map.mp hmem
          exact hothers declared hd _ (List.mem_append_right _ List.mem_cons_self) (congrArg some hid.symm)
      · rintro ⟨_, ⟨kind, fresh, hk, hm, rfl⟩, rfl, hothers, hne, hn⟩
        refine ⟨kind, hk, fresh, hm, List.append_cons .., fun declared hd other ho => ?_, hn⟩
        rcases List.mem_append.mp ho with ho | ho
        · exact hothers declared (List.mem_cons_of_mem _ hd) other ho
        · rw [List.mem_singleton.mp ho]
          exact fun hid => hne (Option.some.inj hid ▸ List.mem_map_of_mem hd)

/-! ## Adding the edges -/

/-- The fields of a node in memory hold the nodes that some edges lead to, each those of the edges from this field, and nothing of
them is in the store. -/
structure Filled (schema : Schema) (nodes : List Node) (edges : List DatasetEdge) (node : Node) : Prop where
  kind : ∃ kind, schema.kinds[node.kind]? = some kind
  set : ∀ {field : String} {r : Relationship}, schema.relationship node.kind field = .ok r → ∃ added : KeySet,
    node.related[field]? = some { RelatedSet.empty field r.cardinality with added := added } ∧
      ∀ key, key ∈ added ↔ ∃ edge ∈ edges, node.id = some edge.source ∧ edge.field = field ∧
        ∃ target ∈ nodes, target.id = some edge.target ∧ target.key = key
  only : ∀ {field : String} {s : RelatedSet}, node.related[field]? = some s → ∃ r, schema.relationship node.kind field = .ok r

/-- The nodes in memory for the declared ones, after some edges were added. -/
structure Batch (schema : Schema) (declared : List DatasetNode) (edges : List DatasetEdge) (nodes : List Node) : Prop where
  shown : nodes.map Store.shown = declared.map fun node => (some node.id, node.kind, node.attributes)
  keys : (nodes.map Node.key).Nodup
  ids : (declared.map DatasetNode.id).Nodup
  filled : ∀ node ∈ nodes, Filled schema nodes edges node

variable {schema : Schema} {declared : List DatasetNode} {edges : List DatasetEdge} {nodes nodes' : List Node}

theorem Batch.nodeIds (h : Batch schema declared edges nodes) : nodes.map Node.id = (declared.map DatasetNode.id).map some := by
  simpa [Function.comp_def, Store.shown] using congrArg (List.map Prod.fst) h.shown

theorem Batch.eq_of_id (h : Batch schema declared edges nodes) {a b : Node} (ha : a ∈ nodes) (hb : b ∈ nodes)
    (hid : a.id = b.id) : a = b := by
  have hnodup : (nodes.map Node.id).Nodup := by
    rw [h.nodeIds]
    exact h.ids.map fun _ _ => Option.some.inj
  exact List.inj_on_of_nodup_map hnodup ha hb hid

/-- The nodes in memory and the declared ones correspond. -/
theorem Batch.exists_node (h : Batch schema declared edges nodes) {node : DatasetNode} (hn : node ∈ declared) :
    ∃ made ∈ nodes, made.id = some node.id ∧ made.kind = node.kind ∧ made.attributes = node.attributes := by
  obtain ⟨made, hm, hshown⟩ := List.mem_map.mp (h.shown ▸ List.mem_map_of_mem hn)
  simp only [Store.shown, Prod.mk.injEq] at hshown
  exact ⟨made, hm, hshown⟩

theorem Batch.exists_declared (h : Batch schema declared edges nodes) {made : Node} (hm : made ∈ nodes) :
    ∃ node ∈ declared, made.id = some node.id ∧ made.kind = node.kind ∧ made.attributes = node.attributes := by
  obtain ⟨node, hn, hshown⟩ := List.mem_map.mp (h.shown ▸ List.mem_map_of_mem (f := Store.shown) hm)
  simp only [Store.shown, Prod.mk.injEq] at hshown
  exact ⟨node, hn, hshown.1.symm, hshown.2.1.symm, hshown.2.2.symm⟩

theorem add_empty (field : String) (cardinality : Cardinality) (added : KeySet) (key : NodeKey) :
    RelatedSet.add { RelatedSet.empty field cardinality with added := added } key =
      { RelatedSet.empty field cardinality with added := added.insert key } := by
  simp [RelatedSet.add, RelatedSet.empty, RelatedSet.known]

/-- A node after an edge was added: edited if it is the source, and as it was otherwise. -/
def Edits (edge : DatasetEdge) (key : NodeKey) (a b : Node) : Prop :=
  if a.id = some edge.source then Node.edit edge.field (·.add key) a = (b, none) else b = a

theorem addEdge_eq_ok_iff {edge : DatasetEdge} :
    addEdge nodes edge = .ok nodes' ↔ (∃ source ∈ nodes, source.id = some edge.source) ∧
      ∃ target, nodes.find? (fun node => node.id == some edge.target) = some target ∧
        List.Forall₂ (Edits edge target.key) nodes nodes' := by
  have hsource : (nodes.any fun node => node.id == some edge.source) = true ↔ ∃ source ∈ nodes, source.id = some edge.source := by
    simp
  unfold addEdge
  rw [← hsource]
  cases nodes.any fun node => node.id == some edge.source with
  | false => simp [throw, throwThe, MonadExceptOf.throw, bind, Except.bind]
  | true =>
    cases nodes.find? fun node => node.id == some edge.target with
    | none => simp
    | some target =>
      simp only [Bool.not_true, Bool.false_eq_true, if_false, true_and, Option.some.injEq, exists_eq_left', mapM_eq_ok_iff]
      -- What is left is one node: the edit of the source, and nothing for the others.
      refine iff_of_eq (congrArg (List.Forall₂ · nodes nodes') (funext₂ fun a b => propext ?_))
      unfold Edits
      by_cases hid : a.id = some edge.source
      · rw [if_pos hid, if_pos (beq_iff_eq.mpr hid)]
        rcases Node.edit edge.field (·.add target.key) a with ⟨node, _ | e⟩
        · simpa using eq_comm
        · simp
      · rw [if_neg hid, if_neg (beq_iff_eq.not.mpr hid), pure_eq_ok_iff]

/-! ## Edges that fit -/

/-- In a batch a node can be edited in the fields of its kind. -/
theorem Filled.exists_edit_iff {node : Node} (h : Filled schema nodes edges node) (field : String) (f : RelatedSet → RelatedSet) :
    (∃ node', Node.edit field f node = (node', none)) ↔ ∃ r, schema.relationship node.kind field = .ok r := by
  simp only [Node.edit_eq_none_iff]
  constructor
  · rintro ⟨_, s, hs, -⟩
    exact h.only hs
  · rintro ⟨r, hr⟩
    obtain ⟨added, hs, -⟩ := h.set hr
    exact ⟨_, _, hs, rfl⟩

/-- An edge can be added when it fits the declared nodes, and only then. -/
theorem Batch.exists_addEdge_iff (h : Batch schema declared edges nodes) (edge : DatasetEdge) :
    (∃ nodes', addEdge nodes edge = .ok nodes') ↔ edge.Fits schema declared := by
  simp only [addEdge_eq_ok_iff]
  constructor
  · rintro ⟨nodes', ⟨source, hsource, hid⟩, target, htarget, hedits⟩
    obtain ⟨node, hn, hnode, hkind, -⟩ := h.exists_declared hsource
    obtain ⟨other, ho, hother, -⟩ := h.exists_declared (List.mem_of_find?_eq_some htarget)
    have htid : target.id = some edge.target := by simpa using List.find?_some htarget
    obtain ⟨source', -, hedit⟩ := exists_of_forall₂ hedits.flip source hsource
    have hedit : Edits edge target.key source source' := hedit
    rw [Edits, if_pos hid] at hedit
    refine ⟨⟨node, hn, Option.some.inj (hnode.symm.trans hid), ?_⟩, other, ho, Option.some.inj (hother.symm.trans htid)⟩
    rw [← hkind]
    exact ((h.filled source hsource).exists_edit_iff edge.field _).mp ⟨source', hedit⟩
  · rintro ⟨⟨node, hn, hsource, r, hr⟩, other, ho, htarget⟩
    obtain ⟨source, hmem, hid, hkind, -⟩ := h.exists_node hn
    obtain ⟨target, hmem', hid', -⟩ := h.exists_node ho
    obtain ⟨found, hfound⟩ : ∃ found, nodes.find? (fun node => node.id == some edge.target) = some found := by
      refine Option.isSome_iff_exists.mp (List.find?_isSome.mpr ⟨target, hmem', ?_⟩)
      simp [hid', htarget]
    obtain ⟨nodes', hedits⟩ : ∃ nodes', List.Forall₂ (Edits edge found.key) nodes nodes' := by
      refine exists_forall₂ fun a ha => ?_
      unfold Edits
      by_cases hsame : a.id = some edge.source
      · simp only [if_pos hsame]
        obtain rfl := h.eq_of_id ha hmem (by rw [hsame, hid, hsource])
        exact ((h.filled a ha).exists_edit_iff edge.field _).mpr ⟨r, hkind ▸ hr⟩
      · exact ⟨a, by rw [if_neg hsame]⟩
    exact ⟨nodes', ⟨source, hmem, by rw [hid, hsource]⟩, found, hfound, hedits⟩

/-- An edit of an edge changes nothing of a node but its fields. -/
theorem Edits.same {edge : DatasetEdge} {key : NodeKey} {a b : Node} (h : Edits edge key a b) :
    Store.shown b = Store.shown a ∧ b.key = a.key := by
  unfold Edits at h
  split at h
  · obtain ⟨s, _, rfl⟩ := Node.edit_eq_none_iff.mp h
    exact ⟨rfl, rfl⟩
  · rw [h]
    exact ⟨rfl, rfl⟩

/-- A batch to which an edge was added holds it too. -/
theorem Batch.addEdge (h : Batch schema declared edges nodes) {edge : DatasetEdge}
    (hadd : Dataset.addEdge nodes edge = .ok nodes') : Batch schema declared (edges ++ [edge]) nodes' := by
  obtain ⟨-, target, hfind, hedits⟩ := addEdge_eq_ok_iff.mp hadd
  have htarget : target ∈ nodes := List.mem_of_find?_eq_some hfind
  have htid : target.id = some edge.target := by simpa using List.find?_some hfind
  have hshown : nodes'.map Store.shown = nodes.map Store.shown := map_eq_of_forall₂ hedits fun _ _ he => he.same.1
  have hkeys : nodes'.map Node.key = nodes.map Node.key := map_eq_of_forall₂ hedits fun _ _ he => he.same.2
  -- The nodes that a field holds are those of before, and the target of the edge if it is one of the field.
  have hholds : ∀ (id : Option String) (field : String) (key : NodeKey),
      (∃ e ∈ edges ++ [edge], id = some e.source ∧ e.field = field ∧ ∃ t ∈ nodes', t.id = some e.target ∧ t.key = key) ↔
        (∃ e ∈ edges, id = some e.source ∧ e.field = field ∧ ∃ t ∈ nodes, t.id = some e.target ∧ t.key = key) ∨
          id = some edge.source ∧ edge.field = field ∧ key = target.key := by
    intro id field key
    have htargets : ∀ given : Option String,
        (∃ t ∈ nodes', t.id = given ∧ t.key = key) ↔ ∃ t ∈ nodes, t.id = given ∧ t.key = key := by
      intro given
      have hpairs : nodes'.map (fun t => (t.id, t.key)) = nodes.map fun t => (t.id, t.key) :=
        map_eq_of_forall₂ hedits fun a b he => by rw [show b.id = a.id from congrArg Prod.fst he.same.1, he.same.2]
      have hmem : (given, key) ∈ nodes'.map (fun t => (t.id, t.key)) ↔ (given, key) ∈ nodes.map fun t => (t.id, t.key) := by
        rw [hpairs]
      simpa only [List.mem_map, Prod.mk.injEq] using hmem
    have hnew : (∃ t ∈ nodes, t.id = some edge.target ∧ t.key = key) ↔ key = target.key := by
      constructor
      · rintro ⟨t, ht, hid, rfl⟩
        rw [h.eq_of_id ht htarget (hid.trans htid.symm)]
      · rintro rfl
        exact ⟨target, htarget, htid, rfl⟩
    simp only [htargets, List.mem_append, List.mem_singleton, or_and_right, exists_or, exists_eq_left, hnew]
  refine ⟨hshown.trans h.shown, hkeys ▸ h.keys, h.ids, fun node' hn' => ?_⟩
  obtain ⟨node, hn, hedit⟩ := exists_of_forall₂ hedits node' hn'
  have hfilled := h.filled node hn
  unfold Edits at hedit
  split at hedit
  · next hsource =>
    obtain ⟨s, hs, rfl⟩ := Node.edit_eq_none_iff.mp hedit
    refine ⟨hfilled.kind, fun {field r} hr => ?_, fun {field t} ht => ?_⟩
    · obtain ⟨added, hset, hmem⟩ := hfilled.set hr
      by_cases hfield : edge.field = field
      · subst hfield
        obtain rfl := Option.some.inj (hs.symm.trans hset)
        refine ⟨added.insert target.key, ?_, fun key => ?_⟩
        · rw [Std.ExtTreeMap.getElem?_insert_self, add_empty]
        · rw [hholds, mem_insert_iff, hmem, or_comm]
          simp [hsource]
      · refine ⟨added, ?_, fun key => ?_⟩
        · rw [Std.ExtTreeMap.getElem?_insert, if_neg (by simpa using hfield), hset]
        · rw [hholds, hmem]
          simp [hfield]
    · by_cases hfield : edge.field = field
      · exact hfield ▸ hfilled.only hs
      · rw [Std.ExtTreeMap.getElem?_insert, if_neg (by simpa using hfield)] at ht
        exact hfilled.only ht
  · next hother =>
    subst hedit
    refine ⟨hfilled.kind, fun {field r} hr => ?_, hfilled.only⟩
    obtain ⟨added, hset, hmem⟩ := hfilled.set hr
    refine ⟨added, hset, fun key => ?_⟩
    rw [hholds, hmem]
    simp [hother]

/-- Edges can be added one after the other when all of them fit, and only then. -/
theorem Batch.exists_addEdges_iff {added : List DatasetEdge} (h : Batch schema declared edges nodes) :
    (∃ nodes', added.foldlM Dataset.addEdge nodes = .ok nodes') ↔ ∀ edge ∈ added, edge.Fits schema declared := by
  induction added generalizing edges nodes with
  | nil => simp [pure, Except.pure]
  | cons edge added ih =>
    rw [List.forall_mem_cons, ← h.exists_addEdge_iff]
    simp only [List.foldlM_cons, bind_eq_ok_iff]
    constructor
    · rintro ⟨nodes', between, hadd, hrest⟩
      exact ⟨⟨between, hadd⟩, (ih (h.addEdge hadd)).mp ⟨nodes', hrest⟩⟩
    · rintro ⟨⟨between, hadd⟩, hall⟩
      obtain ⟨nodes', hrest⟩ := (ih (h.addEdge hadd)).mpr hall
      exact ⟨nodes', between, hadd, hrest⟩

theorem Batch.addEdges {added : List DatasetEdge} (h : Batch schema declared edges nodes)
    (hadd : added.foldlM Dataset.addEdge nodes = .ok nodes') : Batch schema declared (edges ++ added) nodes' := by
  induction added generalizing edges nodes with
  | nil =>
    obtain rfl := Except.ok.inj hadd
    rwa [List.append_nil]
  | cons edge added ih =>
    rw [List.foldlM_cons, bind_eq_ok_iff] at hadd
    obtain ⟨between, hfirst, hrest⟩ := hadd
    rw [List.append_cons]
    exact ih (h.addEdge hfirst) hrest

/-! ## Both passes -/

/-- Nodes that are made are of kinds of the schema. -/
theorem kinds_of_materialize {store after : Store} {rows : List (String × StoredNode)}
    (hm : store.materialize rows = .ok (nodes, after)) : ∀ row ∈ rows, ∃ kind, store.schema.kinds[row.2.kind]? = some kind := by
  induction rows generalizing store nodes with
  | nil => exact List.forall_mem_nil _
  | cons row rows ih =>
    obtain ⟨kind, rest, hk, hrest, -⟩ := Store.materialize_cons_eq_ok_iff.mp hm
    have hkinds := ih hrest
    exact List.forall_mem_cons.mpr ⟨⟨kind, hk⟩, hkinds⟩

/-- The nodes that were made for the declared ones hold no edges. -/
theorem batch_of_materialize {store after : Store} (hs : store.schema.WellFormed) (hids : (declared.map DatasetNode.id).Nodup)
    (hm : store.materialize (declared.map DatasetNode.row) = .ok (nodes, after)) : Batch store.schema declared [] nodes := by
  obtain ⟨made, hmade, hshown⟩ := Store.exists_materialize store hs (kinds_of_materialize hm)
  obtain ⟨rfl, -⟩ := Prod.mk.inj (Except.ok.inj (hmade.symm.trans hm))
  refine ⟨?_, (Store.materialize_new hm).1, hids, fun node hn => ?_⟩
  · rw [hshown, List.map_map]
    rfl
  · obtain ⟨row, -, kind, key, hk, -, rfl⟩ := (Store.materialize_eq_ok hm).2.2 node hn
    have hname : store.schema.kinds[kind.name]? = some kind := by rw [hs.name hk, hk]
    refine ⟨⟨kind, hname⟩, fun {field r} hr => ?_, fun {field s} hset => ?_⟩
    · obtain ⟨k, hfound, hfind⟩ := Store.relationship_eq_ok_iff.mp hr
      obtain rfl := Option.some.inj (hname.symm.trans hfound)
      obtain rfl : r.field = field := by simpa using List.find?_some hfind
      exact ⟨∅, Store.related_new key (hs.relationshipFields hk) (List.mem_of_find?_eq_some hfind), by simp⟩
    · have hnew : (Node.new key kind).related[field]? = some s := hset
      obtain ⟨r, hr, rfl, -⟩ := Node.exists_of_related_new hnew
      exact ⟨r, Store.relationship_of_mem hs hname hr⟩

/-- The declared nodes and edges can be taken into memory when the kinds of the nodes are kinds of the schema, no id is declared
twice and all edges fit, and only then. -/
structure Drafted (schema : Schema) (dataset : Dataset) : Prop where
  kinds : ∀ node ∈ dataset.nodes, ∃ kind, schema.kinds[node.kind]? = some kind
  ids : (dataset.nodes.map DatasetNode.id).Nodup
  fits : ∀ edge ∈ dataset.edges, edge.Fits schema dataset.nodes

/-- The passes go through for a dataset that can be taken into memory. -/
theorem Drafted.exists_batch {dataset : Dataset} (hs : schema.WellFormed) (h : dataset.Drafted schema) :
    ∃ store made nodes, makeNodes (.empty schema) [] dataset.nodes = .ok (store, made) ∧
      dataset.edges.foldlM addEdge made = .ok nodes := by
  have hkinds : ∀ row ∈ dataset.nodes.map DatasetNode.row, ∃ kind, schema.kinds[row.2.kind]? = some kind := by
    intro row hrow
    obtain ⟨node, hn, rfl⟩ := List.mem_map.mp hrow
    exact h.kinds node hn
  obtain ⟨made, hm, -⟩ := Store.exists_materialize (.empty schema) hs hkinds
  have hmake := makeNodes_eq_ok_iff.mpr ⟨made, hm, (List.nil_append made).symm, by simp, h.ids⟩
  have hb : Batch schema dataset.nodes [] made := batch_of_materialize (hs : (Store.empty schema).schema.WellFormed) h.ids hm
  obtain ⟨nodes, hadd⟩ := hb.exists_addEdges_iff.mpr h.fits
  exact ⟨_, made, nodes, hmake, hadd⟩

/-- What the passes leave to be saved, if they go through. -/
theorem batch_of_ok {dataset : Dataset} (hs : schema.WellFormed) {store : Store} {made : List Node}
    (hmake : makeNodes (.empty schema) [] dataset.nodes = .ok (store, made))
    (hadd : dataset.edges.foldlM addEdge made = .ok nodes) :
    dataset.Drafted schema ∧ store.schema = schema ∧ store.graph = .empty ∧ store.known = ∅ ∧
      Batch schema dataset.nodes dataset.edges nodes := by
  obtain ⟨_, hm, rfl, -, hids⟩ := makeNodes_eq_ok_iff.mp hmake
  have hmade : Batch schema dataset.nodes [] made :=
    batch_of_materialize (hs : (Store.empty schema).schema.WellFormed) hids hm
  have hkinds : ∀ node ∈ dataset.nodes, ∃ kind, schema.kinds[node.kind]? = some kind := fun node hn =>
    kinds_of_materialize hm node.row (List.mem_map_of_mem hn)
  have hafter := (Store.materialize_eq_ok hm).1
  exact ⟨⟨hkinds, hids, hmade.exists_addEdges_iff.mp ⟨nodes, hadd⟩⟩, by rw [hafter]; rfl, by rw [hafter]; rfl,
    by rw [hafter]; rfl, hmade.addEdges hadd⟩

end Dataset

end EntityGraph
