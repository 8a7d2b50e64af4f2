import EntityGraph.Proofs.Node.View
import EntityGraph.Proofs.Store.Failing
import EntityGraph.Proofs.Store.Session

/-!
# Runs of clients

Clients read from a store, change the nodes that they hold and save them (`Store.Run`). A node may be held long after the store
has moved on, so that what its fields have loaded need not be what the store holds. What stays true is that it can be told by
ids: every node that a stored node has loaded is remembered, and a field for one node has loaded one at most (`Store.Keeps`).
-/

namespace EntityGraph

/-- A node in the memory of a client. -/
structure Held where
  node : Node
  /-- Whether the store handed the node out, or saved it. -/
  stored : Bool

namespace Store

/-- The states that a store of a schema reaches, with the nodes that clients hold then. A node can be copied, so that the node
before a change counts as held also after it. No node that has an id is given another one by a client, and no two nodes of a
batch were given one id. A query or a look-up by id that fails leaves everything as it is, and is left out. -/
inductive Run (schema : Schema) : Store → List Held → Prop
  | start : Run schema (.empty schema) []
  | create {store : Store} {held : List Held} {name : String} {kind : EntityKind} : Run schema store held →
      schema.kinds[name]? = some kind → Run schema (store.newNode kind).2 (⟨(store.newNode kind).1, false⟩ :: held)
  | giveId {store : Store} {held : List Held} {entry : Held} (id : String) : Run schema store held → entry ∈ held →
      entry.node.id = none → Run schema store (⟨entry.node.withId id, entry.stored⟩ :: held)
  | setAttribute {store : Store} {held : List Held} {entry : Held} (name : String) (value : Value) : Run schema store held →
      entry ∈ held → Run schema store (⟨entry.node.setAttribute name value, entry.stored⟩ :: held)
  | edit {store : Store} {held : List Held} {entry : Held} (field : String) (change : LocalChange) : Run schema store held →
      entry ∈ held → Run schema store (⟨(entry.node.edit field change.apply).1, entry.stored⟩ :: held)
  | query {store after : Store} {held : List Held} {kind : String} {subject : Variable} {condition : Condition}
      {nodes : List Node} : Run schema store held → store.query kind subject condition = .ok (nodes, after) →
      Run schema after (nodes.map (⟨·, true⟩) ++ held)
  | get {store after : Store} {held : List Held} {kind id : String} {node? : Option Node} : Run schema store held →
      store.get kind id = .ok (node?, after) → Run schema after (node?.toList.map (⟨·, true⟩) ++ held)
  | load {store after : Store} {held : List Held} {entry : Held} {field : String} {node : Node}
      {result : Except StoreError (List Node)} : Run schema store held → entry ∈ held →
      store.load entry.node field = ((after, node), result) →
      Run schema after (⟨node, entry.stored⟩ :: (result.toOption.getD []).map (⟨·, true⟩) ++ held)
  | save {store after : Store} {held batch : List Held} {makeId : NodeKey → String} {rank : NodeKey → Nat} {nodes : List Node}
      {writes : List EdgeWrite} : Run schema store held → batch ⊆ held → ((batch.map Held.node).filterMap Node.id).Nodup →
      store.Fresh makeId (batch.map Held.node) → store.save makeId rank (batch.map Held.node) = ((after, nodes), .ok writes) →
      Run schema after (nodes.map (⟨·, true⟩) ++ held)
  | refused {store after : Store} {held batch : List Held} {makeId : NodeKey → String} {rank : NodeKey → Nat} {nodes : List Node}
      {e : StoreError} :
      Run schema store held → batch ⊆ held → ((batch.map Held.node).filterMap Node.id).Nodup →
      store.Fresh makeId (batch.map Held.node) → store.save makeId rank (batch.map Held.node) = ((after, nodes), .error e) →
      Run schema after (batch.zipWith (fun entry node => ⟨node, entry.stored⟩) nodes ++ held)

end Store

/-! ## What stays true of a field -/

/-- What a field has loaded can be told by ids: all of it is remembered, and a field for one node has loaded one at most. -/
structure RelatedSet.Resolvable (store : Store) (s : RelatedSet) : Prop where
  remembered : ∀ key ∈ s.known, ∃ id, store.known[key]? = some id
  single : s.cardinality = .one → ∀ a ∈ s.known, ∀ b ∈ s.known, a = b

namespace Store

/-- What later states of a store keep of this one: kinds of stored nodes, and which keys are remembered. -/
structure Grows (store after : Store) : Prop where
  schema : after.schema = store.schema
  nextKey : store.nextKey ≤ after.nextKey
  kinds : ∀ {id kind : String}, store.graph.kindOf? id = some kind → after.graph.kindOf? id = some kind
  known : ∀ {key : NodeKey} {id : String}, store.known[key]? = some id → ∃ later, after.known[key]? = some later

theorem Grows.refl (store : Store) : store.Grows store := ⟨rfl, Nat.le_refl _, fun h => h, fun h => ⟨_, h⟩⟩

end Store

namespace RelatedSet

variable {store after : Store} {s t : RelatedSet} {key : NodeKey}

theorem Resolvable.grow (h : s.Resolvable store) (hg : store.Grows after) : s.Resolvable after where
  remembered key hkey := by
    obtain ⟨id, hid⟩ := h.remembered key hkey
    exact hg.known hid
  single := h.single

theorem resolvable_empty (store : Store) (field : String) (cardinality : Cardinality) :
    (RelatedSet.empty field cardinality).Resolvable store := by
  constructor <;> simp [RelatedSet.empty, known]

/-- Local changes leave what is loaded as it is. -/
theorem Resolvable.of_sameLoaded (h : s.Resolvable store) (hs : s.SameLoaded t) : t.Resolvable store := by
  constructor
  · rw [hs.known]
    exact h.remembered
  · rw [hs.known, hs.cardinality]
    exact h.single

theorem Resolvable.loadOne (h : s.Resolvable store) {id : String} (hid : store.known[key]? = some id) :
    (s.loadOne key).Resolvable store := by
  cases hc : s.cardinality with
  | one =>
    have hknown : (s.loadOne key).known = {key} := known_loadOne_one hc
    constructor
    · intro k hk
      rw [hknown, mem_singleton_iff] at hk
      exact ⟨id, hk ▸ hid⟩
    · intro _ a ha b hb
      rw [hknown, mem_singleton_iff] at ha hb
      rw [ha, hb]
  | many =>
    constructor
    · intro k hk
      rcases (mem_known_loadOne_many_iff hc).mp hk with rfl | hk
      · exact ⟨id, hid⟩
      · exact h.remembered k hk
    · intro hone
      rw [(loadOne_shape s key).2, hc] at hone
      cases hone

theorem Resolvable.unload (h : s.Resolvable store) (key : NodeKey) : (s.unload key).Resolvable store where
  remembered k hk := h.remembered k (mem_known_unload_iff.mp hk).1
  single hone a ha b hb := h.single hone a (mem_known_unload_iff.mp ha).1 b (mem_known_unload_iff.mp hb).1

/-- Nodes in memory that are remembered are loaded, one at most into a field for one node. -/
theorem resolvable_load {nodes : List Node} (hids : ∀ node ∈ nodes, ∃ id, store.known[node.key]? = some id)
    (hone : s.cardinality = .one → nodes.length ≤ 1) : (s.load (.ofList (nodes.map Node.key) compare)).Resolvable store where
  remembered key hkey := by
    obtain ⟨node, hn, rfl⟩ := Store.mem_keys_iff.mp hkey
    exact hids node hn
  single hcard a ha b hb := by
    obtain ⟨first, hfirst, rfl⟩ := Store.mem_keys_iff.mp ha
    obtain ⟨second, hsecond, rfl⟩ := Store.mem_keys_iff.mp hb
    rw [Store.eq_of_length_le_one (hone hcard) hfirst hsecond]

end RelatedSet

/-! ## What stays true of a node -/

namespace Node

variable {kind : EntityKind} {node : Node} {field : String} {s t : RelatedSet}

/-- A new node has just the fields of its kind, and nothing is known of them. -/
theorem exists_of_related_new {key : NodeKey} (h : (Node.new key kind).related[field]? = some s) :
    ∃ r ∈ kind.relationships, r.field = field ∧ s = .empty r.field r.cardinality := by
  rw [Node.new, Std.ExtTreeMap.ofList_eq_foldl, List.foldl_map, getElem?_foldl_insert] at h
  cases hl : lastWith Relationship.field kind.relationships field with
  | none => simp [hl] at h
  | some r =>
    obtain ⟨hr, hfield⟩ := lastWith_some hl
    rw [hl] at h
    exact ⟨r, hr, hfield, (Option.some.inj h).symm⟩

theorem madeOf_new (key : NodeKey) (hn : (kind.relationships.map Relationship.field).Nodup) :
    (Node.new key kind).MadeOf kind where
  set r hr := ⟨_, Store.related_new key hn hr, .empty⟩
  only field s h := by
    obtain ⟨r, hr, rfl, _⟩ := exists_of_related_new h
    exact List.mem_map_of_mem hr

/-- A node whose field was changed by what stores show and clients do is still made of the fields of its kind. -/
theorem MadeOf.insert (h : node.MadeOf kind) (hset : node.related[field]? = some s)
    (ht : ∀ cardinality, RelatedSet.Reachable field cardinality s → RelatedSet.Reachable field cardinality t) :
    MadeOf kind { node with related := node.related.insert field t } where
  set r hr := by
    obtain ⟨old, hold, hreach⟩ := h.set r hr
    rw [Std.ExtTreeMap.getElem?_insert]
    by_cases hf : field = r.field
    · subst hf
      obtain rfl := Option.some.inj (hset.symm.trans hold)
      exact ⟨t, by simp, ht r.cardinality hreach⟩
    · exact ⟨old, by simpa [hf] using hold, hreach⟩
  only other old hold := by
    rw [Std.ExtTreeMap.getElem?_insert] at hold
    split at hold
    · next hf =>
      rw [← Std.LawfulEqCmp.eq_of_compare hf]
      exact h.only field s hset
    · exact h.only other old hold

end Node

namespace Store

/-- A node that a client made or was handed out, by the fields of a kind of the schema. -/
structure Made (store : Store) (node : Node) : Prop where
  kind : ∃ kind, store.schema.kinds[node.kind]? = some kind ∧ node.MadeOf kind
  issued : node.key.val < store.nextKey

/-- A node that is stored, and all that its fields have loaded can be told by ids. -/
structure Savable (store : Store) (node : Node) : Prop where
  stored : ∃ id, node.id = some id ∧ store.graph.kindOf? id = some node.kind
  fields : ∀ (field : String) (s : RelatedSet), node.related[field]? = some s → s.Resolvable store

/-- What stays true of the nodes that clients hold. -/
structure Keeps (store : Store) (held : List Held) : Prop where
  made : ∀ entry ∈ held, store.Made entry.node
  stored : ∀ entry ∈ held, entry.stored = true → store.Savable entry.node
  /-- Nodes with one key are copies of one node, and of one kind. -/
  kinds : ∀ a ∈ held, ∀ b ∈ held, a.node.key = b.node.key → a.node.kind = b.node.kind

variable {store after : Store} {held : List Held} {node : Node} {field : String} {s t : RelatedSet}

theorem Made.grow (h : store.Made node) (hg : store.Grows after) : after.Made node where
  kind := by rw [hg.schema]; exact h.kind
  issued := Nat.lt_of_lt_of_le h.issued hg.nextKey

theorem Made.madeOf (h : store.Made node) {kind : EntityKind} (hk : store.schema.kinds[node.kind]? = some kind) :
    node.MadeOf kind := by
  obtain ⟨found, hfound, hmade⟩ := h.kind
  obtain rfl := Option.some.inj (hk.symm.trans hfound)
  exact hmade

theorem Savable.grow (h : store.Savable node) (hg : store.Grows after) : after.Savable node where
  stored := by
    obtain ⟨id, hid, hk⟩ := h.stored
    exact ⟨id, hid, hg.kinds hk⟩
  fields field s hset := (h.fields field s hset).grow hg

theorem Savable.insert (h : store.Savable node) (ht : t.Resolvable store) :
    store.Savable { node with related := node.related.insert field t } where
  stored := h.stored
  fields other s hset := by
    rw [Std.ExtTreeMap.getElem?_insert] at hset
    split at hset
    · obtain rfl := Option.some.inj hset
      exact ht
    · exact h.fields other s hset

/-- Nodes under keys of their own that were not issued before are held besides those that were held before. -/
theorem Keeps.receive (h : store.Keeps held) (hg : store.Grows after) {nodes : List Node} {stored : Bool}
    (hnodup : (nodes.map Node.key).Nodup) (hnew : ∀ node ∈ nodes, store.nextKey ≤ node.key.val)
    (hmade : ∀ node ∈ nodes, after.Made node) (hstored : stored = true → ∀ node ∈ nodes, after.Savable node) :
    after.Keeps (nodes.map (⟨·, stored⟩) ++ held) := by
  have hcases : ∀ entry ∈ nodes.map (⟨·, stored⟩) ++ held, (entry.node ∈ nodes ∧ entry.stored = stored) ∨ entry ∈ held := by
    intro entry hentry
    rcases List.mem_append.mp hentry with hentry | hentry
    · obtain ⟨node, hn, rfl⟩ := List.mem_map.mp hentry
      exact Or.inl ⟨hn, rfl⟩
    · exact Or.inr hentry
  refine ⟨fun entry hentry => ?_, fun entry hentry hflag => ?_, fun a ha b hb hab => ?_⟩
  · rcases hcases entry hentry with ⟨hn, _⟩ | hold
    · exact hmade _ hn
    · exact (h.made entry hold).grow hg
  · rcases hcases entry hentry with ⟨hn, rfl⟩ | hold
    · exact hstored hflag _ hn
    · exact (h.stored entry hold hflag).grow hg
  · -- A key that was issued before is not that of a new node.
    rcases hcases a ha with ⟨ha, _⟩ | ha <;> rcases hcases b hb with ⟨hb, _⟩ | hb
    · rw [List.inj_on_of_nodup_map hnodup ha hb hab]
    · have := hnew _ ha
      have := (h.made b hb).issued
      rw [hab] at *
      omega
    · have := hnew _ hb
      have := (h.made a ha).issued
      rw [hab] at *
      omega
    · exact h.kinds a ha b hb hab

/-- Nodes that nodes held before were changed to are held besides them. -/
theorem Keeps.change (h : store.Keeps held) (hg : store.Grows after) {new : List Held}
    (hnew : ∀ entry ∈ new, after.Made entry.node ∧ (entry.stored = true → after.Savable entry.node) ∧
      ∃ old ∈ held, old.node.key = entry.node.key ∧ old.node.kind = entry.node.kind) : after.Keeps (new ++ held) := by
  have horigin : ∀ entry ∈ new ++ held, ∃ old ∈ held, old.node.key = entry.node.key ∧ old.node.kind = entry.node.kind := by
    intro entry hentry
    rcases List.mem_append.mp hentry with hentry | hentry
    · exact (hnew entry hentry).2.2
    · exact ⟨entry, hentry, rfl, rfl⟩
  refine ⟨fun entry hentry => ?_, fun entry hentry hflag => ?_, fun a ha b hb hab => ?_⟩
  · rcases List.mem_append.mp hentry with hentry | hold
    · exact (hnew entry hentry).1
    · exact (h.made entry hold).grow hg
  · rcases List.mem_append.mp hentry with hentry | hold
    · exact (hnew entry hentry).2.1 hflag
    · exact (h.stored entry hold hflag).grow hg
  · obtain ⟨a', ha', hakey, hakind⟩ := horigin a ha
    obtain ⟨b', hb', hbkey, hbkind⟩ := horigin b hb
    rw [← hakind, ← hbkind]
    exact h.kinds a' ha' b' hb' (by rw [hakey, hbkey, hab])

/-- A node that one node held before was changed to is held besides it. -/
theorem Keeps.cons (h : store.Keeps held) {entry : Held} (hentry : entry ∈ held) (hmade : store.Made node)
    (hstored : entry.stored = true → store.Savable node) (hkey : entry.node.key = node.key)
    (hkind : entry.node.kind = node.kind) : store.Keeps (⟨node, entry.stored⟩ :: held) := by
  have hnew : store.Keeps ([⟨node, entry.stored⟩] ++ held) :=
    h.change (.refl store) (List.forall_mem_singleton.mpr ⟨hmade, hstored, entry, hentry, hkey, hkind⟩)
  exact hnew

theorem Keeps.subset {part : List Held} (h : store.Keeps held) (hsub : part ⊆ held) : store.Keeps part where
  made entry hentry := h.made entry (hsub hentry)
  stored entry hentry := h.stored entry (hsub hentry)
  kinds a ha b hb := h.kinds a (hsub ha) b (hsub hb)

/-! ## Changes by clients -/

theorem Keeps.create (hs : store.schema.WellFormed) (h : store.Keeps held) {name : String} {kind : EntityKind}
    (hk : store.schema.kinds[name]? = some kind) :
    (store.newNode kind).2.Keeps (⟨(store.newNode kind).1, false⟩ :: held) := by
  have hg : store.Grows (store.newNode kind).2 := ⟨rfl, Nat.le_succ _, fun h => h, fun h => ⟨_, h⟩⟩
  have hmade : (store.newNode kind).2.Made (store.newNode kind).1 := by
    refine ⟨⟨kind, ?_, Node.madeOf_new _ (hs.relationshipFields hk)⟩, Nat.lt_succ_self _⟩
    change store.schema.kinds[kind.name]? = some kind
    rw [hs.name hk, hk]
  have hreceived : (store.newNode kind).2.Keeps ([(store.newNode kind).1].map (⟨·, false⟩) ++ held) :=
    h.receive hg (List.nodup_singleton _) (List.forall_mem_singleton.mpr (Nat.le_refl _)) (List.forall_mem_singleton.mpr hmade)
      fun hflag => nomatch hflag
  exact hreceived

/-- A node that is changed apart from its fields, and keeps the id that it has, is as good as before. -/
theorem Keeps.relabel (h : store.Keeps held) {entry : Held} (hentry : entry ∈ held) (hkey : node.key = entry.node.key)
    (hkind : node.kind = entry.node.kind) (hid : ∀ id, entry.node.id = some id → node.id = some id)
    (hrelated : node.related = entry.node.related) : store.Keeps (⟨node, entry.stored⟩ :: held) := by
  obtain ⟨⟨kind, hk, hset, honly⟩, hissued⟩ := h.made entry hentry
  refine h.cons hentry ⟨⟨kind, ?_, ?_, ?_⟩, ?_⟩ (fun hflag => ?_) hkey.symm hkind.symm
  · rw [hkind]
    exact hk
  · rw [hrelated]
    exact hset
  · rw [hrelated]
    exact honly
  · rw [hkey]
    exact hissued
  · obtain ⟨⟨id, hgiven, hstored⟩, hfields⟩ := h.stored entry hentry hflag
    refine ⟨⟨id, hid id hgiven, ?_⟩, ?_⟩
    · rw [hkind]
      exact hstored
    · rw [hrelated]
      exact hfields

theorem Keeps.edit (h : store.Keeps held) {entry : Held} (hentry : entry ∈ held) (field : String) (change : LocalChange) :
    store.Keeps (⟨(entry.node.edit field change.apply).1, entry.stored⟩ :: held) := by
  unfold Node.edit
  split
  · next s hs =>
    have hset := Node.relatedSet_eq_ok_iff.mp hs
    obtain ⟨⟨kind, hk, hmade⟩, hissued⟩ := h.made entry hentry
    refine h.cons hentry ⟨⟨kind, hk, ?_⟩, hissued⟩ (fun hflag => ?_) rfl rfl
    · exact hmade.insert hset fun _ hreach => hreach.apply change
    · have hold := h.stored entry hentry hflag
      exact hold.insert ((hold.fields field s hset).of_sameLoaded (RelatedSet.sameLoaded_apply s change))
  · exact h.cons hentry (h.made entry hentry) (h.stored entry hentry) rfl rfl

/-! ## Reading -/

/-- A key is remembered when it was before, or when one of the nodes that are remembered has the key and an id. -/
theorem known_remember_isSome_iff {nodes : List Node} {key : NodeKey} :
    (∃ id, (store.remember nodes).known[key]? = some id) ↔
      (∃ id, store.known[key]? = some id) ∨ ∃ node ∈ nodes, node.key = key ∧ ∃ id, node.id = some id := by
  unfold remember
  dsimp only
  generalize store.known = known
  induction nodes generalizing known with
  | nil => simp
  | cons node nodes ih =>
    rw [List.foldl_cons, ih]
    cases hid : node.id with
    | none => simp [hid]
    | some id =>
      by_cases hkey : node.key = key
      · simp [hid, hkey]
      · simp [hid, hkey, Std.ExtTreeMap.getElem?_insert]

theorem grows_remember (nodes : List Node) {n : Nat} (hn : store.nextKey ≤ n) :
    store.Grows ({ store with nextKey := n }.remember nodes) where
  schema := rfl
  nextKey := hn
  kinds h := h
  known h := known_remember_isSome_iff.mpr (Or.inl ⟨_, h⟩)

/-- Nodes that are made in memory for stored nodes are new, under keys of their own, and can be saved. -/
theorem materialize_made (hs : store.schema.WellFormed) {rows : List (String × StoredNode)} {nodes : List Node}
    (hm : store.materialize rows = .ok (nodes, after)) (hrows : ∀ row ∈ rows, store.graph.nodes[row.1]? = some row.2) :
    (nodes.map Node.key).Nodup ∧ ∀ node ∈ nodes, store.nextKey ≤ node.key.val ∧ after.Made node ∧ after.Savable node := by
  obtain ⟨hnodup, hrange⟩ := materialize_new hm
  obtain ⟨rfl, _, hout⟩ := materialize_eq_ok hm
  refine ⟨hnodup, fun node hn => ?_⟩
  obtain ⟨hle, hlt⟩ := hrange node hn
  obtain ⟨row, hrow, kind, key, hk, _, rfl⟩ := hout node hn
  have hname : kind.name = row.2.kind := hs.name hk
  have hmade := Node.madeOf_new key (hs.relationshipFields hk)
  refine ⟨hle, ⟨⟨kind, ?_, hmade.set, hmade.only⟩, hlt⟩, ⟨row.1, rfl, ?_⟩, fun field s hset => ?_⟩
  · change store.schema.kinds[kind.name]? = some kind
    rw [hname, hk]
  · exact Graph.kindOf?_eq_some_iff.mpr ⟨row.2, hrows row hrow, hname.symm⟩
  · have hset : (Node.new key kind).related[field]? = some s := hset
    obtain ⟨r, _, _, rfl⟩ := Node.exists_of_related_new hset
    exact RelatedSet.resolvable_empty _ _ _

theorem Keeps.read (hs : store.schema.WellFormed) (h : store.Keeps held) {rows : List (String × StoredNode)} {nodes : List Node}
    {read : Store} (hm : store.materialize rows = .ok (nodes, read))
    (hrows : ∀ row ∈ rows, store.graph.nodes[row.1]? = some row.2) :
    (read.remember nodes).Keeps (nodes.map (⟨·, true⟩) ++ held) := by
  obtain ⟨hnodup, hnew⟩ := materialize_made hs hm hrows
  have hread : read.Grows (read.remember nodes) := grows_remember nodes (Nat.le_refl _)
  obtain ⟨rfl, _⟩ := materialize_eq_ok hm
  refine h.receive (grows_remember nodes (Nat.le_add_right _ _)) hnodup (fun node hn => (hnew node hn).1)
    (fun node hn => (hnew node hn).2.1.grow hread) fun _ node hn => (hnew node hn).2.2.grow hread

theorem Keeps.query (hs : store.schema.WellFormed) (h : store.Keeps held) {kind : String} {subject : Variable}
    {condition : Condition} {nodes : List Node} (hquery : store.query kind subject condition = .ok (nodes, after)) :
    after.Keeps (nodes.map (⟨·, true⟩) ++ held) := by
  obtain ⟨_, read, hm, rfl⟩ := query_eq_ok_iff.mp hquery
  exact h.read hs hm fun row hrow => Std.ExtTreeMap.mem_toList_iff_getElem?_eq_some.mp (List.mem_filter.mp hrow).1

theorem Keeps.get (hs : store.schema.WellFormed) (h : store.Keeps held) {kind id : String} {node? : Option Node}
    (hget : store.get kind id = .ok (node?, after)) : after.Keeps (node?.toList.map (⟨·, true⟩) ++ held) := by
  unfold Store.get at hget
  split at hget
  · obtain ⟨rfl, rfl⟩ := Prod.mk.inj (Except.ok.inj hget)
    exact h
  · next stored hstored =>
    split at hget
    · exact absurd hget throw_ne_ok
    · simp only [bind_eq_ok_iff, StoreError.liftSchema_eq_ok_iff] at hget
      obtain ⟨⟨nodes, read⟩, hm, hget⟩ := hget
      obtain ⟨rfl, rfl⟩ := Prod.mk.inj (Except.ok.inj hget)
      refine (h.read hs hm (List.forall_mem_singleton.mpr hstored)).subset fun entry hentry => ?_
      rcases List.mem_append.mp hentry with hentry | hold
      · obtain ⟨node, hn, rfl⟩ := List.mem_map.mp hentry
        exact List.mem_append_left _ (List.mem_map_of_mem (List.mem_of_head? (Option.mem_toList.mp hn)))
      · exact List.mem_append_right _ hold

/-- A relationship that is loaded for a node fails before anything was done, or the nodes for the related rows are noted at both
ends and remembered. -/
theorem load_cases (hs : store.schema.WellFormed) {kind : EntityKind} (hk : store.schema.kinds[node.kind]? = some kind)
    (hmade : node.MadeOf kind) {node' : Node} {result : Except StoreError (List Node)}
    (h : store.load node field = ((after, node'), result)) :
    (after = store ∧ node' = node ∧ ∃ e, result = .error e) ∨
      ∃ r ∈ kind.relationships, ∃ rows related read s related', store.materialize rows = .ok (related, read) ∧
        (node.id = none ∧ rows = [] ∨ ∃ id, node.id = some id ∧ rows = store.relatedRows r id) ∧
        node.related[r.field]? = some s ∧
        node' = { node with related := node.related.insert r.field (s.load (.ofList (related.map Node.key) compare)) } ∧
        List.Forall₂ (Node.Notes r.mirror node.key) related related' ∧ after = read.remember (node :: related) ∧
        result = .ok related' := by
  unfold load at h
  cases hfetch : store.fetch node field with
  | error e =>
    simp only [hfetch, Prod.mk.injEq] at h
    obtain ⟨⟨rfl, rfl⟩, rfl⟩ := h
    exact Or.inl ⟨rfl, rfl, e, rfl⟩
  | ok fetched =>
    obtain ⟨r, related, read⟩ := fetched
    obtain ⟨hfound, rows, hm, hrows⟩ := fetch_eq_ok hfetch
    obtain ⟨found, hkind, hfind⟩ := relationship_eq_ok_iff.mp hfound
    obtain rfl := Option.some.inj (hk.symm.trans hkind)
    have hr : r ∈ kind.relationships := List.mem_of_find?_eq_some hfind
    obtain ⟨s, hset, _⟩ := hmade.set r hr
    have hkinds : ∀ row ∈ rows, row.2.kind = r.relatedKind := by
      rcases hrows with ⟨_, rfl⟩ | ⟨id, stored, _, _, rfl⟩
      · simp
      · exact fun row hrow => (mem_relatedRows_iff.mp hrow).2.2
    -- With the fields of its kind, noting the nodes is not stopped.
    obtain ⟨noted, related', hregister⟩ := exists_register hs hk hr hset hkinds hm
    obtain ⟨s', hset', rfl⟩ := Node.edit_eq_none_iff.mp (Relationship.register_eq_none_iff.mp hregister).1
    obtain rfl := Option.some.inj (hset.symm.trans hset')
    simp only [hfetch, hregister, Prod.mk.injEq] at h
    obtain ⟨⟨rfl, rfl⟩, rfl⟩ := h
    have hnoted := Relationship.register_related hregister
    refine Or.inr ⟨r, hr, rows, related, read, s, related', hm, ?_, hset, rfl, hnoted, ?_, rfl⟩
    · rcases hrows with hnone | ⟨id, stored, hid, _, hrows⟩
      · exact Or.inl hnone
      · exact Or.inr ⟨id, hid, hrows⟩
    · exact remember_congr (.cons ⟨rfl, rfl⟩ (hnoted.imp fun a b ⟨_, hb, _⟩ => by
        rw [hb]
        exact ⟨rfl, rfl⟩))

theorem Made.noted {field? : Option String} {key : NodeKey} {node' : Node} (h : store.Made node)
    (hnotes : Node.Notes field? key node node') : store.Made node' := by
  obtain ⟨⟨kind, hk, hmade⟩, hissued⟩ := h
  obtain ⟨sets, rfl, hsets⟩ := hnotes
  refine ⟨⟨kind, hk, ⟨fun r hr => ?_, fun field s hset => ?_⟩⟩, hissued⟩
  · obtain ⟨s, hset, hreach⟩ := hmade.set r hr
    have hnow := hsets r.field
    rw [hset] at hnow
    split at hnow
    · exact ⟨s.loadOne key, hnow, hreach.loadOne key⟩
    · exact ⟨s, hnow, hreach⟩
  · have hset : sets[field]? = some s := hset
    rw [hsets] at hset
    split at hset
    · obtain ⟨old, hold, _⟩ := Option.map_eq_some_iff.mp hset
      exact hmade.only field old hold
    · exact hmade.only field s hset

theorem Savable.noted {field? : Option String} {key : NodeKey} {node' : Node} (h : store.Savable node)
    (hnotes : Node.Notes field? key node node') {id : String} (hid : store.known[key]? = some id) : store.Savable node' := by
  obtain ⟨sets, rfl, hsets⟩ := hnotes
  refine ⟨h.stored, fun field s hset => ?_⟩
  have hset : sets[field]? = some s := hset
  rw [hsets] at hset
  split at hset
  · obtain ⟨old, hold, rfl⟩ := Option.map_eq_some_iff.mp hset
    exact (h.fields field old hold).loadOne hid
  · exact h.fields field s hset

/-- A relationship to one node is loaded with one row at most. -/
theorem Savable.length_rows (h : store.Savable node) (hone : store.ToOne) {kind : EntityKind}
    (hk : store.schema.kinds[node.kind]? = some kind) {r : Relationship} (hr : r ∈ kind.relationships)
    (hcard : r.cardinality = .one) {rows : List (String × StoredNode)}
    (hrows : node.id = none ∧ rows = [] ∨ ∃ id, node.id = some id ∧ rows = store.relatedRows r id) : rows.length ≤ 1 := by
  rcases hrows with ⟨_, rfl⟩ | ⟨id, hid, rfl⟩
  · exact Nat.zero_le 1
  · obtain ⟨given, hgiven, hstored⟩ := h.stored
    obtain rfl := Option.some.inj (hid.symm.trans hgiven)
    exact hone.length_relatedRows hstored hk hr hcard

/-- Nodes that were made in memory for the rows of a relationship are held when the node that it was loaded for was noted in them,
which has an id if there are any. -/
theorem Keeps.receive_noted (hs : store.schema.WellFormed) (h : store.Keeps held) {rows : List (String × StoredNode)}
    {related related' : List Node} {read : Store} (hm : store.materialize rows = .ok (related, read))
    (hrows : ∀ row ∈ rows, store.graph.nodes[row.1]? = some row.2) {field? : Option String}
    (hnoted : List.Forall₂ (Node.Notes field? node.key) related related') (hid : rows ≠ [] → ∃ id, node.id = some id) :
    (read.remember (node :: related)).Keeps (related'.map (⟨·, true⟩) ++ held) := by
  obtain ⟨hnodup, hnew⟩ := materialize_made hs hm hrows
  have hread : read.Grows (read.remember (node :: related)) := grows_remember _ (Nat.le_refl _)
  obtain ⟨rfl, hids, _⟩ := materialize_eq_ok hm
  have hkeys : related'.map Node.key = related.map Node.key := by
    refine map_eq_of_forall₂ hnoted fun made noted hnotes => ?_
    obtain ⟨_, rfl, _⟩ := hnotes
    rfl
  refine h.receive (grows_remember _ (Nat.le_add_right _ _)) (hkeys ▸ hnodup) (fun noted hn => ?_) (fun noted hn => ?_)
    fun _ noted hn => ?_ <;> obtain ⟨made, hmem, hnotes⟩ := exists_of_forall₂ hnoted noted hn
  · obtain ⟨_, rfl, _⟩ := hnotes
    exact (hnew made hmem).1
  · exact ((hnew made hmem).2.1.grow hread).noted hnotes
  · have hsome : rows ≠ [] := by
      rintro rfl
      rw [List.map_eq_nil_iff.mp hids] at hmem
      cases hmem
    obtain ⟨id, hgiven⟩ := hid hsome
    obtain ⟨later, hlater⟩ := known_remember_isSome_iff.mpr (Or.inr ⟨node, List.mem_cons_self, rfl, id, hgiven⟩)
    exact ((hnew made hmem).2.2.grow hread).noted hnotes hlater

/-- When a relationship is loaded, also for a node that was never saved, all that is held can still be told by ids. -/
theorem Keeps.load (hs : store.schema.WellFormed) (hone : store.ToOne) (h : store.Keeps held) {entry : Held}
    (hentry : entry ∈ held) {result : Except StoreError (List Node)}
    (hload : store.load entry.node field = ((after, node), result)) :
    after.Keeps (⟨node, entry.stored⟩ :: (result.toOption.getD []).map (⟨·, true⟩) ++ held) := by
  obtain ⟨kind, hk, hmade⟩ := (h.made entry hentry).kind
  rcases load_cases hs hk hmade hload with ⟨rfl, rfl, e, rfl⟩ |
    ⟨r, hr, rows, related, read, s, related', hm, hrows, hset, rfl, hnoted, rfl, rfl⟩
  · refine h.subset fun other hother => ?_
    rcases List.mem_cons.mp hother with rfl | hold
    · exact hentry
    · exact hold
  · have hstored : ∀ row ∈ rows, store.graph.nodes[row.1]? = some row.2 := by
      rcases hrows with ⟨_, rfl⟩ | ⟨id, _, rfl⟩
      · exact List.forall_mem_nil _
      · exact fun row hrow => (mem_relatedRows_iff.mp hrow).2.1
    have hid : rows ≠ [] → ∃ id, entry.node.id = some id := by
      rcases hrows with ⟨_, rfl⟩ | ⟨id, hid, _⟩
      · exact fun hnone => absurd rfl hnone
      · exact fun _ => ⟨id, hid⟩
    have hrelated := h.receive_noted hs hm hstored hnoted hid
    have hg : store.Grows (read.remember (entry.node :: related)) := by
      rw [(materialize_eq_ok hm).1]
      exact grows_remember _ (Nat.le_add_right _ _)
    refine hrelated.cons (List.mem_append_right _ hentry) ⟨⟨kind, ?_, ?_⟩, ?_⟩ (fun hflag => ?_) rfl rfl
    · rw [hg.schema]
      exact hk
    · exact hmade.insert hset fun _ hreach => hreach.load _
    · exact Nat.lt_of_lt_of_le (h.made entry hentry).issued hg.nextKey
    · have hsavable := h.stored entry hentry hflag
      refine (hsavable.grow hg).insert (RelatedSet.resolvable_load (fun other ho => ?_) fun hcard => ?_)
      · obtain ⟨⟨id, hgiven, _⟩, _⟩ := ((materialize_made hs hm hstored).2 other ho).2.2
        exact known_remember_isSome_iff.mpr (Or.inr ⟨other, List.mem_cons_of_mem _ ho, rfl, id, hgiven⟩)
      · have hlength : related.length = rows.length := by simpa using congrArg List.length (materialize_eq_ok hm).2.1
        have hshape := (hmade.reachable hr hset).shape.2
        rw [hlength]
        exact hsavable.length_rows hone hk hr (hshape.symm.trans hcard) hrows

end Store

end EntityGraph
