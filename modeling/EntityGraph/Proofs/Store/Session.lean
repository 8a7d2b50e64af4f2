import EntityGraph.Proofs.Store.Agreement
import EntityGraph.Proofs.Store.Mirror
import EntityGraph.Proofs.Store.ToOne

/-!
# Sessions

A session reads from a store, one request after the other, and holds the nodes that it was handed out (`Store.Reading`). A read
takes nothing back of what the store knows of the nodes handed out before (`Store.Extends`), so that all of them stay as the
store shows them (`Store.Shows`): stored, remembered under a key of their own, with no changes, and with fields that agree with
the store where they were loaded.
-/

namespace EntityGraph

/-- When a relationship of a kind is loaded, a field of the related nodes becomes known completely, because it is the mirror and
holds one node, of that kind. -/
def Schema.LoadsBack (schema : Schema) (kind field back : String) : Prop :=
  ∃ r mirror, schema.relationship kind field = .ok r ∧ schema.Mirrors r mirror ∧ mirror.field = back ∧
    mirror.cardinality = .one ∧ mirror.relatedKind = kind

namespace Store

/-- Reads from a state on, with the nodes handed out since then and the fields loaded of each. A field of a related node counts
as loaded when it becomes known completely with the relationship. -/
inductive Reading (base : Store) : Store → List (Node × List String) → Prop
  | start : Reading base base []
  | issueKey {store : Store} {held : List (Node × List String)} : Reading base store held →
      Reading base store.issueKey.2 held
  | query {store after : Store} {held : List (Node × List String)} {kind : String} {subject : Variable}
      {condition : Condition} {nodes : List Node} : Reading base store held →
      store.query kind subject condition = .ok (nodes, after) → Reading base after (nodes.map (·, []) ++ held)
  | get {store after : Store} {held : List (Node × List String)} {kind id : String} {node? : Option Node} :
      Reading base store held → store.get kind id = .ok (node?, after) →
      Reading base after (node?.toList.map (·, []) ++ held)
  | load {store after : Store} {held : List (Node × List String)} {node node' : Node} {loaded back : List String}
      {field : String} {related : List Node} : Reading base store held → (node, loaded) ∈ held →
      store.load node field = ((after, node'), .ok related) → (∀ b ∈ back, store.schema.LoadsBack node.kind field b) →
      Reading base after ((node', field :: loaded) :: related.map (·, back) ++ held)

/-- Every read is a step of the store. -/
theorem Reading.reachable {schema : Schema} {base store : Store} {held : List (Node × List String)}
    (hreach : Reachable schema base) (h : base.Reading store held) : Reachable schema store := by
  induction h with
  | start => exact hreach
  | issueKey _ ih => exact .step ih .issueKey
  | query _ hquery ih => exact .step ih (.query hquery)
  | get _ hget ih => exact .step ih (.get hget)
  | @load store after held node node' loaded back field related _ _ hload _ ih =>
    rw [show after = (store.load node field).1.1 by rw [hload]]
    exact .step ih (.load node field)

/-- What later reads leave as it is: the graph, and what is remembered for the keys issued before. -/
structure Extends (store after : Store) : Prop where
  schema : after.schema = store.schema
  graph : after.graph = store.graph
  nextKey : store.nextKey ≤ after.nextKey
  known : ∀ key : NodeKey, key.val < store.nextKey → ∀ id, store.known[key]? = some id → after.known[key]? = some id

end Store

/-- A field of a node that was handed out: it has no changes, and the nodes in it were handed out and are remembered. -/
structure RelatedSet.Seen (store : Store) (r : Relationship) (s : RelatedSet) : Prop where
  cardinality : s.cardinality = r.cardinality
  unchanged : s.hasChanges = false
  issued : ∀ key ∈ s.known, key.val < store.nextKey
  remembered : ∀ key ∈ s.known, ∃ id, store.known[key]? = some id
  single : r.cardinality = .one → ∀ a ∈ s.known, ∀ b ∈ s.known, a = b

namespace Store

/-- A node in memory is as the store shows the stored node with an id, and agrees with the store in the fields that were
loaded. -/
structure Shows (store : Store) (id : String) (node : Node) (loaded : List String) : Prop where
  hasId : node.id = some id
  stored : store.graph.kindOf? id = some node.kind
  issued : node.key.val < store.nextKey
  known : store.known[node.key]? = some id
  set : ∀ kind, store.schema.kinds[node.kind]? = some kind → ∀ r ∈ kind.relationships, ∃ s,
    node.related[r.field]? = some s ∧ s.Seen store r ∧ (r.field ∈ loaded → s.isLoaded = true ∧ s.Agrees store r id)

/-! ## Later reads -/

theorem Extends.refl (store : Store) : store.Extends store := ⟨rfl, rfl, Nat.le_refl _, fun _ _ _ h => h⟩

theorem Extends.toOne {store after : Store} (h : store.Extends after) (hone : store.ToOne) : after.ToOne := by
  unfold ToOne
  rw [h.schema, h.graph]
  exact hone

end Store

namespace RelatedSet

variable {store after : Store} {r : Relationship} {s : RelatedSet} {id : String} {key : NodeKey}

theorem Seen.extend (h : s.Seen store r) (he : store.Extends after) : s.Seen after r where
  cardinality := h.cardinality
  unchanged := h.unchanged
  issued key hkey := Nat.lt_of_lt_of_le (h.issued key hkey) he.nextKey
  remembered key hkey := (h.remembered key hkey).imp fun id hid => he.known key (h.issued key hkey) id hid
  single := h.single

theorem Agrees.extend (ha : s.Agrees store r id) (h : s.Seen store r) (he : store.Extends after) : s.Agrees after r id := by
  refine ⟨fun key hkey => ?_, fun hl other hn hk => ?_⟩
  · obtain ⟨other, hother, hn, hk⟩ := ha.known key hkey
    rw [he.graph]
    exact ⟨other, he.known key (h.issued key hkey) other hother, hn, hk⟩
  · rw [he.graph] at hn hk
    obtain ⟨key, hkey, hother⟩ := ha.complete hl other hn hk
    exact ⟨key, hkey, he.known key (h.issued key hkey) other hother⟩

theorem seen_empty (store : Store) (r : Relationship) : (RelatedSet.empty r.field r.cardinality).Seen store r := by
  refine ⟨rfl, by simp [hasChanges, RelatedSet.empty], ?_, ?_, ?_⟩ <;> simp [known, RelatedSet.empty]

theorem Seen.loadOne (h : s.Seen store r) (hissued : key.val < store.nextKey) (hid : store.known[key]? = some id) :
    (s.loadOne key).Seen store r := by
  have hcases : ∀ k ∈ (s.loadOne key).known, k = key ∨ k ∈ s.known := by
    intro k hk
    cases hc : s.cardinality with
    | one => exact Or.inl (by rwa [known_loadOne_one hc, mem_singleton_iff] at hk)
    | many => exact (mem_known_loadOne_many_iff hc).mp hk
  refine ⟨(loadOne_shape s key).2.trans h.cardinality, hasChanges_loadOne h.unchanged key, fun k hk => ?_, fun k hk => ?_, ?_⟩
  · rcases hcases k hk with rfl | hk
    · exact hissued
    · exact h.issued k hk
  · rcases hcases k hk with rfl | hk
    · exact ⟨id, hid⟩
    · exact h.remembered k hk
  · intro hone a ha b hb
    rw [known_loadOne_one (h.cardinality.trans hone), mem_singleton_iff] at ha hb
    rw [ha, hb]

theorem Seen.load (h : s.Seen store r) {keys : KeySet} (hissued : ∀ key ∈ keys, key.val < store.nextKey)
    (hids : ∀ key ∈ keys, ∃ id, store.known[key]? = some id)
    (hone : r.cardinality = .one → ∀ a ∈ keys, ∀ b ∈ keys, a = b) : (s.load keys).Seen store r :=
  ⟨h.cardinality, hasChanges_load h.unchanged keys, hissued, hids, hone⟩

end RelatedSet

namespace Store

variable {store after : Store} {id : String} {node : Node} {loaded : List String}

/-- A node that was handed out stays as the store shows it. -/
theorem Shows.extend (h : store.Shows id node loaded) (he : store.Extends after) : after.Shows id node loaded where
  hasId := h.hasId
  stored := by rw [he.graph]; exact h.stored
  issued := Nat.lt_of_lt_of_le h.issued he.nextKey
  known := he.known _ h.issued id h.known
  set kind hk r hr := by
    rw [he.schema] at hk
    obtain ⟨s, hset, hseen, hloaded⟩ := h.set kind hk r hr
    exact ⟨s, hset, hseen.extend he, fun hf => (hloaded hf).imp_right fun ha => ha.extend hseen he⟩

/-! ## Handing out -/

/-- A key is remembered with an id when every node that has the key has the id, if one has the key or it was remembered so. -/
theorem known_remember {nodes : List Node} {key : NodeKey} (h : ∀ node ∈ nodes, node.key = key → node.id = some id)
    (hex : (∃ node ∈ nodes, node.key = key) ∨ store.known[key]? = some id) : (store.remember nodes).known[key]? = some id := by
  unfold remember
  dsimp only
  generalize store.known = known at hex ⊢
  induction nodes generalizing known with
  | nil => simpa using hex
  | cons node nodes ih =>
    refine ih (fun other ho => h other (List.mem_cons_of_mem _ ho)) _ ?_
    by_cases hrest : ∃ other ∈ nodes, other.key = key
    · exact Or.inl hrest
    · refine Or.inr ?_
      by_cases hkey : node.key = key
      · simp [h node List.mem_cons_self hkey, hkey]
      · have hknown : known[key]? = some id := by
          rcases hex with ⟨other, ho, hother⟩ | hknown
          · rcases List.mem_cons.mp ho with rfl | ho
            · exact absurd hother hkey
            · exact absurd ⟨other, ho, hother⟩ hrest
          · exact hknown
        dsimp only
        split
        · rw [Std.ExtTreeMap.getElem?_insert]
          simp [hkey, hknown]
        · exact hknown

/-- What is remembered of nodes is their keys and ids. -/
theorem remember_congr {nodes nodes' : List Node}
    (h : List.Forall₂ (fun a b => b.key = a.key ∧ b.id = a.id) nodes nodes') :
    store.remember nodes' = store.remember nodes := by
  unfold remember
  generalize store.known = known
  induction h generalizing known with
  | nil => rfl
  | cons hab _ ih =>
    rw [List.foldl_cons, List.foldl_cons, hab.1, hab.2]
    exact ih _

/-- The nodes made in memory for stored nodes are as the store shows them, once they are remembered, and what was handed out
before stays as it is, also when some of it is remembered anew. -/
theorem shows_materialized (hs : store.schema.WellFormed) {rows : List (String × StoredNode)} {nodes : List Node} {read : Store}
    (hm : store.materialize rows = .ok (nodes, read)) (hrows : ∀ row ∈ rows, store.graph.nodes[row.1]? = some row.2)
    (kept : List Node) (hkept : ∀ node ∈ kept, node.key.val < store.nextKey ∧ store.known[node.key]? = node.id) :
    store.Extends (read.remember (kept ++ nodes)) ∧
      ∀ node ∈ nodes, ∃ row ∈ rows, node.id = some row.1 ∧ (read.remember (kept ++ nodes)).Shows row.1 node [] := by
  obtain ⟨hnodup, hrange⟩ := materialize_new hm
  obtain ⟨rfl, _, hout⟩ := materialize_eq_ok hm
  refine ⟨⟨rfl, rfl, Nat.le_add_right _ _, fun key hkey id hid => ?_⟩, fun node hn => ?_⟩
  · refine known_remember (fun node hn hk => ?_) (Or.inr hid)
    rcases List.mem_append.mp hn with hn | hn
    · rw [← (hkept node hn).2, hk]
      exact hid
    · have := (hrange node hn).1
      rw [hk] at this
      omega
  · obtain ⟨row, hrow, hout⟩ := hout node hn
    have hid := hout.id_eq
    refine ⟨row, hrow, hid, ⟨hid, ?_, (hrange node hn).2, ?_, ?_⟩⟩
    · obtain ⟨kind, key, hk, _, rfl⟩ := hout
      exact Graph.kindOf?_eq_some_iff.mpr ⟨row.2, hrows row hrow, (hs.name hk).symm⟩
    · refine known_remember (fun other ho hk => ?_) (Or.inl ⟨node, List.mem_append_right _ hn, rfl⟩)
      rcases List.mem_append.mp ho with ho | ho
      · have := (hkept other ho).1
        rw [hk] at this
        have := (hrange node hn).1
        omega
      · rw [List.inj_on_of_nodup_map hnodup ho hn hk]
        exact hid
    · obtain ⟨kind, key, hk, _, rfl⟩ := hout
      intro kind' hk' r hr
      obtain rfl : kind = kind' := by
        have hk' : store.schema.kinds[kind.name]? = some kind' := hk'
        rw [hs.name hk, hk] at hk'
        exact Option.some.inj hk'
      exact ⟨_, related_new key (hs.relationshipFields hk) hr, RelatedSet.seen_empty _ r, fun hf => nomatch hf⟩

/-! ## Loading -/

/-- When a relationship is loaded for a stored node, nodes are made in memory for its related rows, and noted at both ends. -/
theorem load_eq_ok {field : String} {node' : Node} {related' : List Node} (hid : node.id = some id)
    (h : store.load node field = ((after, node'), .ok related')) :
    ∃ r related read s, store.schema.relationship node.kind field = .ok r ∧
      store.materialize (store.relatedRows r id) = .ok (related, read) ∧ after = read.remember (node :: related) ∧
      node.related[r.field]? = some s ∧
      node' = { node with related := node.related.insert r.field (s.load (.ofList (related.map Node.key) compare)) } ∧
      List.Forall₂ (Node.Notes r.mirror node.key) related related' := by
  unfold load at h
  split at h
  · simp at h
  · next r related read hf =>
    split at h
    · simp at h
    · next hreg =>
      simp only [Prod.mk.injEq, Except.ok.injEq] at h
      obtain ⟨⟨rfl, rfl⟩, rfl⟩ := h
      obtain ⟨s, hset, hnode⟩ := Node.edit_eq_none_iff.mp (Relationship.register_eq_none_iff.mp hreg).1
      have hnoted := Relationship.register_related hreg
      obtain ⟨hr, rows, hm, ⟨hnone, _⟩ | ⟨given, _, hgiven, _, rfl⟩⟩ := fetch_eq_ok hf
      · rw [hnone] at hid
        cases hid
      · obtain rfl := Option.some.inj (hid.symm.trans hgiven)
        refine ⟨r, related, read, s, hr, hm, ?_, hset, hnode, hnoted⟩
        -- Noting changes neither keys nor ids, so that the nodes are remembered as they were made.
        exact remember_congr (.cons (by rw [hnode]; exact ⟨rfl, rfl⟩) (hnoted.imp fun a b ⟨_, hb, _⟩ => by
          rw [hb]
          exact ⟨rfl, rfl⟩))

/-- The related rows are in the order of their ids. -/
theorem pairwise_relatedRows (store : Store) (r : Relationship) (id : String) :
    ((store.relatedRows r id).map Prod.fst).Pairwise (· < ·) := by
  refine pairwise_map_filterMap (fun other row h => ?_) (Graph.pairwise_neighbors store.graph r id)
  split at h
  · split at h
    · obtain rfl := Option.some.inj h
      rfl
    · cases h
  · cases h

/-- No related row is listed twice. -/
theorem nodup_relatedRows (store : Store) (r : Relationship) (id : String) : (store.relatedRows r id).Nodup :=
  (store.pairwise_relatedRows r id).nodup.of_map Prod.fst

/-- A relationship to one node has at most one related row. -/
theorem ToOne.length_relatedRows (hone : store.ToOne) {name : String} {kind : EntityKind} {r : Relationship}
    (hn : store.graph.kindOf? id = some name) (hk : store.schema.kinds[name]? = some kind) (hr : r ∈ kind.relationships)
    (hcard : r.cardinality = .one) : (store.relatedRows r id).length ≤ 1 := by
  refine length_le_one_of_forall_eq (nodup_relatedRows store r id) fun a ha b hb => ?_
  obtain ⟨han, has, hak⟩ := mem_relatedRows_iff.mp ha
  obtain ⟨hbn, hbs, hbk⟩ := mem_relatedRows_iff.mp hb
  have hid : a.1 = b.1 := hone hn hk hr hcard
    (Graph.mem_neighbors_iff.mp han) (Graph.kindOf?_eq_some_iff.mpr ⟨a.2, has, hak⟩)
    (Graph.mem_neighbors_iff.mp hbn) (Graph.kindOf?_eq_some_iff.mpr ⟨b.2, hbs, hbk⟩)
  rw [hid, hbs] at has
  exact Prod.ext hid (Option.some.inj has).symm

/-- Nodes in memory for all related rows are what the store holds for a relationship. -/
theorem agrees_load {r : Relationship} {related : List Node}
    (hids : related.map Node.id = (store.relatedRows r id).map (some ·.1)) (hgraph : after.graph = store.graph)
    (hknown : ∀ node ∈ related, after.known[node.key]? = node.id) (s : RelatedSet) :
    (s.load (.ofList (related.map Node.key) compare)).Agrees after r id := by
  refine ⟨fun key hkey => ?_, fun _ other hn hk => ?_⟩
  · obtain ⟨node, hn, rfl⟩ := mem_keys_iff.mp hkey
    obtain ⟨row, hrow, hid⟩ := List.mem_map.mp (hids ▸ List.mem_map_of_mem (f := Node.id) hn)
    obtain ⟨hneighbor, hstored, hkind⟩ := mem_relatedRows_iff.mp hrow
    rw [hgraph]
    exact ⟨row.1, (hknown node hn).trans hid.symm, hneighbor, Graph.kindOf?_eq_some_iff.mpr ⟨row.2, hstored, hkind⟩⟩
  · rw [hgraph] at hn hk
    obtain ⟨stored, hstored, hkind⟩ := Graph.kindOf?_eq_some_iff.mp hk
    have hrow : (other, stored) ∈ store.relatedRows r id := mem_relatedRows_iff.mpr ⟨hn, hstored, hkind⟩
    have hid : some other ∈ related.map Node.id := hids ▸ List.mem_map_of_mem (f := (some ·.1)) hrow
    obtain ⟨node, hn, hid⟩ := List.mem_map.mp hid
    exact ⟨node.key, mem_keys_iff.mpr ⟨node, hn, rfl⟩, (hknown node hn).trans hid⟩

/-- A field for one node in which the node that it holds was noted is what the store holds. -/
theorem agrees_loadOne {r : Relationship} {s : RelatedSet} {key : NodeKey} {other : String} (hone : s.cardinality = .one)
    (hknown : store.known[key]? = some other) (hn : other ∈ store.graph.neighbors id r.label r.direction)
    (hk : store.graph.kindOf? other = some r.relatedKind) (hunique : ∀ b ∈ store.graph.neighbors id r.label r.direction,
      store.graph.kindOf? b = some r.relatedKind → b = other) :
    (s.loadOne key).isLoaded = true ∧ (s.loadOne key).Agrees store r id := by
  have hkeys : (s.loadOne key).known = {key} := RelatedSet.known_loadOne_one hone
  refine ⟨by simp [RelatedSet.isLoaded, RelatedSet.loadOne, hone], fun k hkey => ?_, fun _ b hb hbk => ⟨key, ?_, ?_⟩⟩
  · rw [hkeys, mem_singleton_iff] at hkey
    rw [hkey]
    exact ⟨other, hknown, hn, hk⟩
  · rw [hkeys, mem_singleton_iff]
  · rw [hunique b hb hbk]
    exact hknown

/-- A node in which another one was noted is still as the store shows it, also in a field for one node that holds the other
one. -/
theorem Shows.noted {node' : Node} (hone : store.ToOne) (h : store.Shows id node []) {key : NodeKey}
    (hissued : key.val < store.nextKey) {other : String} (hknown : store.known[key]? = some other) {field? : Option String}
    (hnotes : Node.Notes field? key node node') {back : List String}
    (hback : ∀ kind, store.schema.kinds[node.kind]? = some kind → ∀ r ∈ kind.relationships, r.field ∈ back →
      field? = some r.field ∧ r.cardinality = .one ∧ r.edge ⟨id, other⟩ ∈ store.graph.edges ∧
        store.graph.kindOf? other = some r.relatedKind) : store.Shows id node' back := by
  obtain ⟨sets, rfl, hsets⟩ := hnotes
  refine ⟨h.hasId, h.stored, h.issued, h.known, fun kind hk r hr => ?_⟩
  obtain ⟨s, hset, hseen, _⟩ := h.set kind hk r hr
  have hnow := hsets r.field
  rw [hset] at hnow
  by_cases hf : field? = some r.field
  · rw [if_pos hf] at hnow
    refine ⟨s.loadOne key, hnow, hseen.loadOne hissued hknown, fun hb => ?_⟩
    obtain ⟨_, hcard, he, hkind⟩ := hback kind hk r hr hb
    refine agrees_loadOne (hseen.cardinality.trans hcard) hknown (Graph.mem_neighbors_iff.mpr he) hkind fun b hb hbk => ?_
    exact hone h.stored hk hr hcard (Graph.mem_neighbors_iff.mp hb) hbk he hkind
  · rw [if_neg hf] at hnow
    exact ⟨s, hnow, hseen, fun hb => absurd (hback kind hk r hr hb).1 hf⟩

/-- A node whose relationship was loaded agrees with the store in it. -/
theorem Shows.withLoaded {r : Relationship} {kind : EntityKind} (hs : store.schema.WellFormed) (h : store.Shows id node loaded)
    (hk : store.schema.kinds[node.kind]? = some kind) (hr : r ∈ kind.relationships) {s : RelatedSet} {keys : KeySet}
    (hseen : (s.load keys).Seen store r) (hagrees : (s.load keys).Agrees store r id) :
    store.Shows id { node with related := node.related.insert r.field (s.load keys) } (r.field :: loaded) where
  hasId := h.hasId
  stored := h.stored
  issued := h.issued
  known := h.known
  set kind' hk' r' hr' := by
    obtain rfl := Option.some.inj (hk.symm.trans hk')
    obtain ⟨s', hset', hseen', hloaded'⟩ := h.set kind hk r' hr'
    rw [Std.ExtTreeMap.getElem?_insert]
    by_cases hf : r.field = r'.field
    · obtain rfl := List.inj_on_of_nodup_map (hs.relationshipFields hk) hr hr' hf
      exact ⟨s.load keys, by simp, hseen, fun _ => ⟨rfl, hagrees⟩⟩
    · refine ⟨s', by simpa [hf] using hset', hseen', fun hmem => hloaded' ?_⟩
      exact (List.mem_cons.mp hmem).resolve_left (Ne.symm hf)

/-- A field that was loaded holds the nodes made in memory for it. -/
theorem seen_load {r : Relationship} {s : RelatedSet} (hseen : s.Seen store r) {related : List Node}
    (hshows : ∀ other ∈ related, ∃ otherId, store.Shows otherId other [])
    (hlength : r.cardinality = .one → related.length ≤ 1) :
    (s.load (.ofList (related.map Node.key) compare)).Seen store r := by
  refine hseen.load (fun key hkey => ?_) (fun key hkey => ?_) fun hcard a ha b hb => ?_
  · obtain ⟨other, ho, rfl⟩ := mem_keys_iff.mp hkey
    obtain ⟨_, hshown⟩ := hshows other ho
    exact hshown.issued
  · obtain ⟨other, ho, rfl⟩ := mem_keys_iff.mp hkey
    obtain ⟨otherId, hshown⟩ := hshows other ho
    exact ⟨otherId, hshown.known⟩
  · obtain ⟨first, hfirst, rfl⟩ := mem_keys_iff.mp ha
    obtain ⟨second, hsecond, rfl⟩ := mem_keys_iff.mp hb
    rw [eq_of_length_le_one (hlength hcard) hfirst hsecond]

/-- A related node in which the node that leads to it was noted agrees with the store in the fields that become known with
that. -/
theorem Shows.notedBack (hs : store.schema.WellFormed) (hone : store.ToOne) (h : store.Shows id node loaded)
    {kind : EntityKind} (hk : store.schema.kinds[node.kind]? = some kind) {r : Relationship} (hr : r ∈ kind.relationships)
    {row : String × StoredNode} (hrow : row ∈ store.relatedRows r id) {other other' : Node}
    (ho : store.Shows row.1 other []) (hnotes : Node.Notes r.mirror node.key other other') {back : List String}
    (hback : ∀ b ∈ back, store.schema.LoadsBack node.kind r.field b) : store.Shows row.1 other' back := by
  obtain ⟨hneighbor, hstored, hrkind⟩ := mem_relatedRows_iff.mp hrow
  have hkind : other.kind = r.relatedKind :=
    Option.some.inj (ho.stored.symm.trans (Graph.kindOf?_eq_some_iff.mpr ⟨row.2, hstored, hrkind⟩))
  refine ho.noted hone h.issued h.known hnotes fun related hrelated m hm hmem => ?_
  obtain ⟨r', mirror, hfound, hmirror, hfield, hcard, hleads⟩ := hback _ hmem
  obtain rfl := Except.ok.inj ((relationship_of_mem hs hk hr).symm.trans hfound)
  -- The related node is of the related kind, so that the field is the mirror.
  obtain ⟨mirrorKind, hmk, hmirrored⟩ := hmirror.mem
  rw [hkind, hmk] at hrelated
  obtain rfl := Option.some.inj hrelated
  obtain rfl : mirror = m := List.inj_on_of_nodup_map (hs.relationshipFields hmk) hmirrored hm hfield
  refine ⟨hmirror.field, hcard, ?_, ?_⟩
  · rw [hmirror.edge_eq hs hk hr]
    exact Graph.mem_neighbors_iff.mp hneighbor
  · rw [hleads]
    exact h.stored

/-- When a relationship of a node that was handed out is loaded, the node agrees with the store in it, and the related nodes are
handed out, and agree with the store in the fields that become known with it. -/
theorem Shows.load (hs : store.schema.WellFormed) (hone : store.ToOne) (h : store.Shows id node loaded) {field : String}
    {node' : Node} {related' : List Node} (hload : store.load node field = ((after, node'), .ok related')) {back : List String}
    (hback : ∀ b ∈ back, store.schema.LoadsBack node.kind field b) :
    store.Extends after ∧ after.Shows id node' (field :: loaded) ∧
      ∀ other ∈ related', ∃ otherId, after.Shows otherId other back := by
  obtain ⟨r, related, read, s, hfound, hm, hafter, hset, rfl, hnoted⟩ := load_eq_ok h.hasId hload
  obtain ⟨kind, hk, hfind⟩ := relationship_eq_ok_iff.mp hfound
  have hr : r ∈ kind.relationships := List.mem_of_find?_eq_some hfind
  obtain rfl : r.field = field := by simpa using List.find?_some hfind
  have hids : related.map Node.id = (store.relatedRows r id).map (some ·.1) := (materialize_eq_ok hm).2.1
  have hlength : r.cardinality = .one → related.length ≤ 1 := by
    intro hcard
    have hsame : related.length = (store.relatedRows r id).length := by simpa using congrArg List.length hids
    rw [hsame]
    exact hone.length_relatedRows h.stored hk hr hcard
  obtain ⟨hextends, hshows⟩ := shows_materialized hs hm
    (fun row hrow => (mem_relatedRows_iff.mp hrow).2.1) [node]
    (List.forall_mem_singleton.mpr ⟨h.issued, h.known.trans h.hasId.symm⟩)
  rw [List.singleton_append, ← hafter] at hextends hshows
  have hnode := h.extend hextends
  have hrows : after.relatedRows r id = store.relatedRows r id := by rw [relatedRows, relatedRows, hextends.graph]
  rw [← hextends.schema] at hs hk hback
  obtain ⟨t, ht, hseen, _⟩ := hnode.set kind hk r hr
  obtain rfl := Option.some.inj (hset.symm.trans ht)
  refine ⟨hextends, hnode.withLoaded hs hk hr (seen_load hseen (fun other ho => ?_) hlength)
    (agrees_load hids hextends.graph (fun other ho => ?_) s), fun other ho => ?_⟩
  · obtain ⟨row, _, _, hshown⟩ := hshows other ho
    exact ⟨row.1, hshown⟩
  · obtain ⟨row, _, hid, hshown⟩ := hshows other ho
    rw [hshown.known, hid]
  · obtain ⟨made, hmade, hnotes⟩ := exists_of_forall₂ hnoted other ho
    obtain ⟨row, hrow, _, hshown⟩ := hshows made hmade
    rw [← hrows] at hrow
    exact ⟨row.1, hnode.notedBack hs (hextends.toOne hone) hk hr hrow hshown hnotes hback⟩

/-! ## The invariant -/

/-- A read leaves what was handed out before as it is, and hands out nodes as the store shows them, with the given fields
loaded. -/
def Shown (store after : Store) (nodes : List Node) (loaded : List String) : Prop :=
  store.Extends after ∧ ∀ node ∈ nodes, ∃ id, after.Shows id node loaded

theorem shown_remember (hs : store.schema.WellFormed) {rows : List (String × StoredNode)} {nodes : List Node} {read : Store}
    (hm : store.materialize rows = .ok (nodes, read)) (hrows : ∀ row ∈ rows, store.graph.nodes[row.1]? = some row.2) :
    store.Shown (read.remember nodes) nodes [] := by
  obtain ⟨hextends, hshows⟩ := shows_materialized hs hm hrows [] (List.forall_mem_nil _)
  refine ⟨hextends, fun node hn => ?_⟩
  obtain ⟨row, _, _, hshown⟩ := hshows node hn
  exact ⟨row.1, hshown⟩

theorem shown_query (hs : store.schema.WellFormed) {kind : String} {subject : Variable} {condition : Condition}
    {nodes : List Node} (h : store.query kind subject condition = .ok (nodes, after)) : store.Shown after nodes [] := by
  obtain ⟨_, read, hm, rfl⟩ := query_eq_ok_iff.mp h
  exact shown_remember hs hm fun row hrow =>
    Std.ExtTreeMap.mem_toList_iff_getElem?_eq_some.mp (List.mem_filter.mp hrow).1

theorem shown_get (hs : store.schema.WellFormed) {kind id : String} {node? : Option Node}
    (h : store.get kind id = .ok (node?, after)) : store.Shown after node?.toList [] := by
  unfold Store.get at h
  split at h
  · obtain ⟨rfl, rfl⟩ := Prod.mk.inj (Except.ok.inj h)
    exact ⟨.refl store, List.forall_mem_nil _⟩
  · next stored hstored =>
    split at h
    · exact absurd h throw_ne_ok
    · simp only [bind_eq_ok_iff, StoreError.liftSchema_eq_ok_iff] at h
      obtain ⟨⟨nodes, read⟩, hm, h⟩ := h
      obtain ⟨rfl, rfl⟩ := Prod.mk.inj (Except.ok.inj h)
      obtain ⟨hextends, hshows⟩ := shown_remember hs hm (List.forall_mem_singleton.mpr hstored)
      exact ⟨hextends, fun node hn => hshows node (List.mem_of_head? (Option.mem_toList.mp hn))⟩

/-- In a session, every node held is as the store shows it. -/
theorem Reading.shows {schema : Schema} {base : Store} {held : List (Node × List String)} (hs : schema.WellFormed)
    (hreach : Reachable schema base) (h : base.Reading store held) :
    ∀ entry ∈ held, ∃ id, store.Shows id entry.1 entry.2 := by
  -- What one read hands out, together with what was held before it.
  have hstep : ∀ {store after : Store} {held : List (Node × List String)} {nodes : List Node} {back : List String},
      store.Shown after nodes back → (∀ entry ∈ held, ∃ id, store.Shows id entry.1 entry.2) →
      ∀ entry ∈ nodes.map (·, back) ++ held, ∃ id, after.Shows id entry.1 entry.2 := by
    intro store after held nodes back hshown hheld entry hentry
    rcases List.mem_append.mp hentry with hnew | hold
    · obtain ⟨node, hn, rfl⟩ := List.mem_map.mp hnew
      exact hshown.2 node hn
    · exact (hheld entry hold).imp fun _ h => h.extend hshown.1
  induction h with
  | start => exact List.forall_mem_nil _
  | @issueKey store held _ ih =>
    have hissued : store.Shown store.issueKey.2 [] [] :=
      ⟨⟨rfl, rfl, Nat.le_succ _, fun _ _ _ h => h⟩, List.forall_mem_nil _⟩
    exact hstep hissued ih
  | query hread hquery ih => exact hstep (shown_query ((hread.reachable hreach).schema_eq ▸ hs) hquery) ih
  | get hread hget ih => exact hstep (shown_get ((hread.reachable hreach).schema_eq ▸ hs) hget) ih
  | load hread hmem hload hback ih =>
    have hnow := hread.reachable hreach
    obtain ⟨id, hid⟩ := ih _ hmem
    obtain ⟨hextends, hnode, hrelated⟩ := hid.load (hnow.schema_eq ▸ hs) hnow.toOne hload hback
    exact List.forall_mem_cons.mpr ⟨⟨id, hnode⟩, hstep ⟨hextends, hrelated⟩ ih⟩

end Store

end EntityGraph
