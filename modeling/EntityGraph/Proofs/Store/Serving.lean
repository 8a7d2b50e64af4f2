import EntityGraph.Proofs.Store.Settled

/-!
# Stores that serve many clients

One client holds nodes that it made or that a store handed out to it, while the store serves whatever requests others make, saves
of any batch among them (`Store.Serving`). The client does with its nodes what it likes, but for giving them ids and for noting in
their fields what the store did not show. All states that a store reaches occur in this way. However much happens between two
requests of the client, a node that was handed out or saved is stored as one of its kind and can be told by ids, and a node that
was never saved has nothing loaded (`Store.Tracks`).
-/

namespace EntityGraph

namespace Store

/-- The states that a store of a schema reaches by any requests, with the nodes that one client holds then. A node can be copied,
so that the node before a change counts as held also after it. When a batch is saved, by the client or by others, the client may
hold those of the nodes saved that it held before, if every node of the batch with the same key is a copy that it held. -/
inductive Serving (schema : Schema) : Store → List Held → Prop
  | start : Serving schema (.empty schema) []
  | other {store after : Store} {held : List Held} : Serving schema store held → store.Step after → Serving schema after held
  | create {store : Store} {held : List Held} {name : String} {kind : EntityKind} : Serving schema store held →
      schema.kinds[name]? = some kind → Serving schema (store.newNode kind).2 (⟨(store.newNode kind).1, false⟩ :: held)
  | setAttribute {store : Store} {held : List Held} {entry : Held} (name : String) (value : Value) :
      Serving schema store held → entry ∈ held →
      Serving schema store (⟨entry.node.setAttribute name value, entry.stored⟩ :: held)
  | edit {store : Store} {held : List Held} {entry : Held} (field : String) (change : LocalChange) :
      Serving schema store held → entry ∈ held →
      Serving schema store (⟨(entry.node.edit field change.apply).1, entry.stored⟩ :: held)
  | query {store after : Store} {held : List Held} {kind : String} {subject : Variable} {condition : Condition}
      {nodes : List Node} : Serving schema store held → store.query kind subject condition = .ok (nodes, after) →
      Serving schema after (nodes.map (⟨·, true⟩) ++ held)
  | get {store after : Store} {held : List Held} {kind id : String} {node? : Option Node} : Serving schema store held →
      store.get kind id = .ok (node?, after) → Serving schema after (node?.toList.map (⟨·, true⟩) ++ held)
  | load {store after : Store} {held : List Held} {entry : Held} {field : String} {node : Node}
      {result : Except StoreError (List Node)} : Serving schema store held → entry ∈ held →
      store.load entry.node field = ((after, node), result) →
      Serving schema after (⟨node, entry.stored⟩ :: (result.toOption.getD []).map (⟨·, true⟩) ++ held)
  | save {store after : Store} {held : List Held} {makeId : NodeKey → String} {rank : NodeKey → Nat}
      {nodes nodes' saved : List Node} {writes : List EdgeWrite} : Serving schema store held → store.Fresh makeId nodes →
      store.save makeId rank nodes = ((after, nodes'), .ok writes) →
      (∀ node' ∈ saved, ∃ entry ∈ held, (entry.node, node') ∈ nodes.zip nodes' ∧
        ∀ copy ∈ nodes, copy.key = entry.node.key → ∃ own ∈ held, own.node = copy) →
      Serving schema after (saved.map (⟨·, true⟩) ++ held)

variable {schema : Schema} {store after : Store} {makeId : NodeKey → String} {rank : NodeKey → Nat} {nodes nodes' : List Node}
  {plan : SavePlan} {held : List Held}

theorem Serving.reachable (h : Serving schema store held) : Reachable schema store := by
  induction h with
  | start => exact .empty
  | other _ hstep ih => exact .step ih hstep
  | create _ _ ih => exact .step ih .issueKey
  | setAttribute _ _ _ _ ih => exact ih
  | edit _ _ _ _ ih => exact ih
  | query _ hquery ih => exact .step ih (.query hquery)
  | get _ hget ih => exact .step ih (.get hget)
  | @load store after held entry field node result _ _ hload ih =>
    rw [show after = (store.load entry.node field).1.1 by rw [hload]]
    exact .step ih (.load entry.node field)
  | @save store after held makeId rank nodes nodes' saved writes _ hf hsave _ ih =>
    rw [show after = (store.save makeId rank nodes).1.1 by rw [hsave]]
    exact .step ih (.save makeId rank nodes hf.stored)

/-- In every state that a store reaches, a client may come to it that holds no nodes yet. -/
theorem serving_of_reachable (h : Reachable schema store) : Serving schema store [] := by
  induction h with
  | empty => exact .start
  | step _ hstep ih => exact .other ih hstep

/-! ## Requests of others -/

/-- Whatever a request is, stored nodes keep their kinds and what is remembered stays remembered. -/
theorem Step.grows (hs : store.schema.WellFormed) (h : store.Step after) : store.Grows after := by
  cases h with
  | issueKey => exact ⟨rfl, Nat.le_succ _, fun hk => hk, fun hid => ⟨_, hid⟩⟩
  | query hquery =>
    obtain ⟨_, read, hm, rfl⟩ := query_eq_ok_iff.mp hquery
    obtain ⟨rfl, _⟩ := materialize_eq_ok hm
    exact grows_remember _ (Nat.le_add_right _ _)
  | get hget =>
    unfold Store.get at hget
    split at hget
    · obtain ⟨_, rfl⟩ := Prod.mk.inj (Except.ok.inj hget)
      exact .refl store
    · split at hget
      · exact absurd hget throw_ne_ok
      · simp only [bind_eq_ok_iff, StoreError.liftSchema_eq_ok_iff] at hget
        obtain ⟨⟨nodes, read⟩, hm, hget⟩ := hget
        obtain ⟨_, rfl⟩ := Prod.mk.inj (Except.ok.inj hget)
        obtain ⟨rfl, _⟩ := materialize_eq_ok hm
        exact grows_remember _ (Nat.le_add_right _ _)
  | load node field =>
    rw [Store.load]
    cases hfetch : store.fetch node field with
    | error e => exact .refl store
    | ok fetched =>
      obtain ⟨r, related, read⟩ := fetched
      obtain ⟨_, rows, hm, _⟩ := fetch_eq_ok hfetch
      obtain ⟨rfl, _⟩ := materialize_eq_ok hm
      dsimp only
      split
      · exact ⟨rfl, Nat.le_add_right _ _, fun hk => hk, fun hid => ⟨_, hid⟩⟩
      · exact grows_remember _ (Nat.le_add_right _ _)
  | save makeId rank nodes hf =>
    rcases hsave : store.save makeId rank nodes with ⟨⟨after, nodes'⟩, e | writes⟩
    · rw [(eq_of_save_error hsave).1]
      exact .refl store
    · obtain ⟨plan, hp, hafter, _⟩ := exists_saves_of_made hs hsave
      exact hp.grows hf (by rw [hafter]) (by rw [hafter]) (by rw [hafter]) (hp.known_eq_lookup (congrArg Store.known hafter))

theorem Keeps.grow (h : store.Keeps held) (hg : store.Grows after) : after.Keeps held :=
  h.change hg (List.forall_mem_nil _)

/-! ## Saves of any batch -/

/-- A node of a batch is stored as one of its kind, if the nodes of the batch with its key are of its kind, and those of them that
have an id are stored so. -/
theorem Unchecked.kindOf?_write_of_copies (hp : store.Unchecked makeId nodes plan) (hf : store.Fresh makeId nodes) {node : Node}
    (hn : node ∈ nodes) (hcopies : ∀ copy ∈ nodes, copy.key = node.key → copy.kind = node.kind ∧
      ∀ id, copy.id = some id → store.graph.kindOf? id = some copy.kind) :
    (plan.write nodes store.graph).kindOf? (plan.idOf node) = some node.kind := by
  obtain ⟨last, hlast, hid⟩ := hp.ids_eq_some_iff.mp (hp.ids_key hn)
  obtain ⟨hln, hkey⟩ := lastWith_some hlast
  rcases (assignId_eq_ok_iff.mp hid).2 with ⟨_, hmade⟩ | ⟨hgiven, _⟩
  · -- No other key has the id that was made up for this one.
    refine Planned.kindOf?_write_of_mem hn fun other ho hother => ?_
    obtain ⟨lastOther, hlastOther, hidOther⟩ := hp.ids_eq_some_iff.mp (hp.ids_key ho)
    obtain ⟨hlon, hkeyOther⟩ := lastWith_some hlastOther
    rw [hother, hmade] at hidOther
    rcases (assignId_eq_ok_iff.mp hidOther).2 with ⟨_, hsame⟩ | ⟨hgiven, _⟩
    · refine (hcopies other ho ?_).1
      rw [← hkeyOther, ← hkey]
      exact (hf.different last hln lastOther hlon hsame).symm
    · exact absurd hgiven (hf.given lastOther hlon last hln)
  · obtain ⟨hkind, hstored⟩ := hcopies last hln hkey
    rw [← hkind]
    exact hp.kindOf?_write_of_kindOf? hf.stored (hstored _ hgiven)

/-! ## What a client holds -/

/-- What is true of the nodes that a client holds, also of those that were never saved: these have no id, and nothing loaded. -/
structure Tracks (store : Store) (held : List Held) : Prop where
  keeps : store.Keeps held
  unsaved : ∀ entry ∈ held, entry.stored = false →
    entry.node.id = none ∧ ∀ (field : String) (s : RelatedSet), entry.node.related[field]? = some s → s.known = ∅

/-- A node that a client holds has no id, or it is stored under it as one of its kind. -/
theorem Tracks.stored (h : store.Tracks held) {entry : Held} (hentry : entry ∈ held) {id : String}
    (hid : entry.node.id = some id) : store.graph.kindOf? id = some entry.node.kind := by
  cases hflag : entry.stored with
  | false =>
    rw [(h.unsaved entry hentry hflag).1] at hid
    cases hid
  | true =>
    obtain ⟨given, hgiven, hstored⟩ := (h.keeps.stored entry hentry hflag).stored
    obtain rfl := Option.some.inj (hid.symm.trans hgiven)
    exact hstored

/-- All that a node held by a client has loaded can be told by ids. -/
theorem Tracks.resolvable (h : store.Tracks held) {entry : Held} (hentry : entry ∈ held) {field : String} {s : RelatedSet}
    (hset : entry.node.related[field]? = some s) : s.Resolvable store := by
  cases hflag : entry.stored with
  | false =>
    have hnone := (h.unsaved entry hentry hflag).2 field s hset
    constructor <;> simp [hnone]
  | true => exact (h.keeps.stored entry hentry hflag).fields field s hset

theorem Tracks.receive (h : store.Tracks held) {new : List Node}
    (hkeeps : after.Keeps (new.map (⟨·, true⟩) ++ held)) : after.Tracks (new.map (⟨·, true⟩) ++ held) := by
  refine ⟨hkeeps, fun entry hentry hflag => ?_⟩
  rcases List.mem_append.mp hentry with hnew | hold
  · obtain ⟨node, _, rfl⟩ := List.mem_map.mp hnew
    cases hflag
  · exact h.unsaved entry hold hflag

/-- A node that one held before was changed to: if that one was never saved, the changed one has no id and nothing loaded
either. -/
theorem Tracks.cons (h : store.Tracks held) {node : Node} {stored : Bool} (hkeeps : after.Keeps (⟨node, stored⟩ :: held))
    (hunsaved : stored = false →
      node.id = none ∧ ∀ (field : String) (s : RelatedSet), node.related[field]? = some s → s.known = ∅) :
    after.Tracks (⟨node, stored⟩ :: held) := by
  refine ⟨hkeeps, fun entry hentry hflag => ?_⟩
  rcases List.mem_cons.mp hentry with rfl | hold
  · exact hunsaved hflag
  · exact h.unsaved entry hold hflag

theorem known_of_insert {related : Std.ExtTreeMap String RelatedSet} {field : String} {t : RelatedSet}
    (h : ∀ (field : String) (s : RelatedSet), related[field]? = some s → s.known = ∅) (ht : t.known = ∅) :
    ∀ (other : String) (s : RelatedSet), (related.insert field t)[other]? = some s → s.known = ∅ := by
  intro other s hset
  rw [Std.ExtTreeMap.getElem?_insert] at hset
  split at hset
  · obtain rfl := Option.some.inj hset
    exact ht
  · exact h other s hset

theorem Tracks.create (hs : store.schema.WellFormed) (h : store.Tracks held) {name : String} {kind : EntityKind}
    (hk : store.schema.kinds[name]? = some kind) :
    (store.newNode kind).2.Tracks (⟨(store.newNode kind).1, false⟩ :: held) := by
  refine h.cons (h.keeps.create hs hk) fun _ => ⟨rfl, fun field s hset => ?_⟩
  obtain ⟨r, _, _, rfl⟩ := Node.exists_of_related_new hset
  rfl

theorem Tracks.edit (h : store.Tracks held) {entry : Held} (hentry : entry ∈ held) (field : String) (change : LocalChange) :
    store.Tracks (⟨(entry.node.edit field change.apply).1, entry.stored⟩ :: held) := by
  refine h.cons (h.keeps.edit hentry field change) fun hflag => ?_
  obtain ⟨hid, hnone⟩ := h.unsaved entry hentry hflag
  unfold Node.edit
  split
  · next s hset =>
    have hknown : (change.apply s).known = ∅ := by
      rw [(RelatedSet.sameLoaded_apply s change).known]
      exact hnone field s (Node.relatedSet_eq_ok_iff.mp hset)
    exact ⟨hid, known_of_insert hnone hknown⟩
  · exact ⟨hid, hnone⟩

theorem Tracks.load (hs : store.schema.WellFormed) (hone : store.ToOne) (h : store.Tracks held) {entry : Held}
    (hentry : entry ∈ held) {field : String} {node : Node} {result : Except StoreError (List Node)}
    (hload : store.load entry.node field = ((after, node), result)) :
    after.Tracks (⟨node, entry.stored⟩ :: (result.toOption.getD []).map (⟨·, true⟩) ++ held) := by
  have hkeeps := h.keeps.load hs hone hentry hload
  obtain ⟨kind, hk, hmade⟩ := (h.keeps.made entry hentry).kind
  have hrest : after.Tracks ((result.toOption.getD []).map (⟨·, true⟩) ++ held) :=
    h.receive (hkeeps.subset (List.subset_cons_self _ _))
  refine hrest.cons hkeeps fun hflag => ?_
  obtain ⟨hid, hnone⟩ := h.unsaved entry hentry hflag
  rcases load_cases hs hk hmade hload with ⟨_, rfl, _⟩ |
    ⟨r, _, rows, related, read, s, _, hm, ⟨_, rfl⟩ | ⟨id, hgiven, _⟩, _, rfl, _⟩
  · exact ⟨hid, hnone⟩
  · -- There are no rows for a node that was never saved.
    have hempty : related = [] := List.map_eq_nil_iff.mp (materialize_eq_ok hm).2.1
    refine ⟨hid, known_of_insert hnone ?_⟩
    rw [hempty]
    rfl
  · rw [hid] at hgiven
    cases hgiven

theorem Tracks.save (hs : store.schema.WellFormed) (h : store.Tracks held) (hf : store.Fresh makeId nodes)
    {writes : List EdgeWrite} (hsave : store.save makeId rank nodes = ((after, nodes'), .ok writes)) {saved : List Node}
    (hsaved : ∀ node' ∈ saved, ∃ entry ∈ held, (entry.node, node') ∈ nodes.zip nodes' ∧
      ∀ copy ∈ nodes, copy.key = entry.node.key → ∃ own ∈ held, own.node = copy) :
    after.Tracks (saved.map (⟨·, true⟩) ++ held) := by
  obtain ⟨plan, hp, hafter, hall⟩ := exists_saves_of_made hs hsave
  have hgraph : after.graph = plan.write nodes store.graph := by rw [hafter]
  have hg : store.Grows after := hp.grows hf.stored (by rw [hafter]) (by rw [hafter]) hgraph
    (hp.known_eq_lookup (congrArg Store.known hafter))
  refine h.receive (h.keeps.change hg fun new hnew => ?_)
  obtain ⟨node', hn', rfl⟩ := List.mem_map.mp hnew
  obtain ⟨entry, hentry, hzip, hcopies⟩ := hsaved node' hn'
  have hmade := h.keeps.made entry hentry
  obtain ⟨kind, hk, hsaves⟩ := (List.forall₂_iff_zip.mp hall).2 hzip hmade
  have hkind : after.graph.kindOf? (plan.idOf entry.node) = some entry.node.kind := by
    rw [hgraph]
    refine hp.unchecked.kindOf?_write_of_copies hf (List.of_mem_zip hzip).1 fun copy hcopy hkey => ?_
    obtain ⟨own, hown, rfl⟩ := hcopies copy hcopy hkey
    exact ⟨h.keeps.kinds own hown entry hentry hkey, fun id hid => h.stored hown hid⟩
  refine ⟨⟨⟨kind, ?_, hsaves.made⟩, ?_⟩, fun _ => ⟨⟨_, hsaves.id, ?_⟩, hsaves.resolvable⟩, entry, hentry, hsaves.key.symm,
    hsaves.kind.symm⟩
  · rw [hg.schema, hsaves.kind, hk]
  · rw [hsaves.key]
    exact Nat.lt_of_lt_of_le hmade.issued hg.nextKey
  · rw [hkind, hsaves.kind]

/-- Whatever requests a store serves, what is true of the nodes that a client holds stays true. -/
theorem Serving.tracks (hs : schema.WellFormed) (h : Serving schema store held) : store.Tracks held := by
  induction h with
  | start => exact ⟨⟨List.forall_mem_nil _, List.forall_mem_nil _, List.forall_mem_nil _⟩, List.forall_mem_nil _⟩
  | other hserving hstep ih => exact ⟨ih.keeps.grow (hstep.grows (hserving.reachable.schema_eq ▸ hs)), ih.unsaved⟩
  | create hserving hk ih =>
    have hschema := hserving.reachable.schema_eq
    exact ih.create (hschema ▸ hs) (hschema ▸ hk)
  | setAttribute name value _ hentry ih =>
    exact ih.cons (ih.keeps.relabel hentry rfl rfl (fun _ hid => hid) rfl) fun hflag => ih.unsaved _ hentry hflag
  | edit field change _ hentry ih => exact ih.edit hentry field change
  | query hserving hquery ih => exact ih.receive (ih.keeps.query (hserving.reachable.schema_eq ▸ hs) hquery)
  | get hserving hget ih => exact ih.receive (ih.keeps.get (hserving.reachable.schema_eq ▸ hs) hget)
  | load hserving hentry hload ih =>
    exact ih.load (hserving.reachable.schema_eq ▸ hs) hserving.reachable.toOne hentry hload
  | save hserving hf hsave hsaved ih => exact ih.save (hserving.reachable.schema_eq ▸ hs) hf hsave hsaved

end Store

end EntityGraph
