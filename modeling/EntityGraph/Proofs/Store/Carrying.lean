import EntityGraph.Proofs.Node.Edit
import EntityGraph.Proofs.Schema.Built
import EntityGraph.Proofs.Store.Following
import EntityGraph.Proofs.Store.Plan

/-!
# What a plan that was carried out leaves

When a plan was carried out, the store has written it and remembers the batch, and every node of the batch has its id; each of
its fields is what the changes taken over and the writes noted one after the other make of it (`Store.carryOut_eq_none`).
-/

namespace EntityGraph

namespace Store

/-! ## Noting writes -/

variable {store : Store} {keys : Std.ExtTreeMap String NodeKey} {write : EdgeWrite} {kind : EntityKind} {node node' : Node}

/-- A write seen from one end is noted in the relationships that follow its edge from there. -/
theorem editedBy_noteWriteAt (hn : (kind.relationships.map Relationship.field).Nodup) {id? : Option String}
    {this other : String} {direction : Direction}
    (h : store.noteWriteAt keys write kind id? this other direction node = (node', none)) :
    Node.EditedBy kind (fun r s =>
      if id? = some this ∧ r.label = write.edge.label ∧ r.direction = direction ∧
          store.graph.kindOf? other = some r.relatedKind
        then store.noteWrite keys write.isCreate other s else s) node node' := by
  cases hk : store.graph.kindOf? other with
  | none =>
    simp only [noteWriteAt, hk, Edit.done, Prod.mk.injEq, and_true] at h
    subst h
    simpa using Node.EditedBy.refl kind node
  | some otherKind =>
    simp only [noteWriteAt, hk] at h
    by_cases hid : id? = some this
    · rw [if_pos hid] at h
      simpa [hid, @eq_comm _ otherKind] using Node.editedBy_of_filter hn h
    · simp only [if_neg hid, Edit.done, Prod.mk.injEq, and_true] at h
      subst h
      simpa [hid] using Node.EditedBy.refl kind node

/-- Seen from both ends, a write is noted in a field at the end that the field's relationship leads from. -/
theorem noteField_eq (store : Store) (keys : Std.ExtTreeMap String NodeKey) (r : Relationship) (id : String) (s : RelatedSet)
    (write : EdgeWrite) :
    store.noteField keys r id s write =
      (let first := if some id = some write.edge.source ∧ r.label = write.edge.label ∧ r.direction = .outgoing ∧
          store.graph.kindOf? write.edge.target = some r.relatedKind
        then store.noteWrite keys write.isCreate write.edge.target s else s
      if some id = some write.edge.target ∧ r.label = write.edge.label ∧ r.direction = .incoming ∧
          store.graph.kindOf? write.edge.source = some r.relatedKind
        then store.noteWrite keys write.isCreate write.edge.source first else first) := by
  unfold noteField Graph.otherEnd?
  by_cases hl : write.edge.label = r.label
  · cases hd : r.direction with
    | outgoing =>
      by_cases hs : write.edge.source = id
      · simp [hl, hs]
      · simp [hl, hs, Ne.symm hs]
    | incoming =>
      by_cases ht : write.edge.target = id
      · simp [hl, ht]
      · simp [hl, ht, Ne.symm ht]
  · simp [hl, Ne.symm hl]

theorem editedBy_noteWriteOn (hk : store.schema.kinds[node.kind]? = some kind)
    (hn : (kind.relationships.map Relationship.field).Nodup) {id : String} (hid : node.id = some id)
    (h : store.noteWriteOn keys write node = (node', none)) :
    Node.EditedBy kind (fun r s => store.noteField keys r id s write) node node' := by
  obtain ⟨found, hfound, h⟩ := Edit.withValue_eq_none_iff.mp h
  obtain rfl := Option.some.inj (hk.symm.trans (Schema.kind_eq_ok_iff.mp hfound))
  obtain ⟨between, hfirst, hsecond⟩ := Edit.andThen_eq_none_iff.mp h
  have hedit := (editedBy_noteWriteAt hn hfirst).trans (editedBy_noteWriteAt hn hsecond)
  simpa only [hid, noteField_eq] using hedit

/-- Writes noted one after the other have their effects on a field in this order. -/
theorem editedBy_noteWritesOn (hk : store.schema.kinds[node.kind]? = some kind)
    (hn : (kind.relationships.map Relationship.field).Nodup) {id : String} (hid : node.id = some id)
    {writes : List EdgeWrite} (h : Edit.inOrder (writes.map (store.noteWriteOn keys)) node = (node', none)) :
    Node.EditedBy kind (fun r s => writes.foldl (store.noteField keys r id) s) node node' := by
  induction writes generalizing node with
  | nil =>
    simp only [List.map_nil, Edit.inOrder, Edit.done, Prod.mk.injEq, and_true] at h
    subst h
    exact Node.EditedBy.refl kind node
  | cons write writes ih =>
    obtain ⟨between, hfirst, hrest⟩ := Edit.inOrder_cons_eq_none_iff.mp h
    have hedit := editedBy_noteWriteOn hk hn hid hfirst
    have hsame : between.kind = node.kind ∧ between.id = node.id := by
      obtain ⟨_, rfl, _⟩ := hedit
      exact ⟨rfl, rfl⟩
    exact hedit.trans (ih (hsame.1 ▸ hk) (hsame.2.trans hid) hrest)

/-! ## Committing the batch -/

variable {plan : SavePlan} {after : Store} {nodes nodes' : List Node}

/-- A node that is committed gets its id and is remembered with it. -/
theorem commit_eq_none (h : plan.commit (store, node) = ((after, node'), none)) :
    after = { store with known := store.known.insert node.key (plan.idOf node) } ∧
      ∃ kind, store.schema.kinds[node.kind]? = some kind ∧ Node.commit kind (node.withId (plan.idOf node)) = (node', none) := by
  obtain ⟨hafter, hnode⟩ := Edit.onSecond_eq_iff.mp h
  obtain ⟨kind, hk, hcommit⟩ := Edit.withValue_eq_none_iff.mp hnode
  exact ⟨hafter, kind, Schema.kind_eq_ok_iff.mp hk, hcommit⟩

theorem onEach_commit_eq_none (h : Edit.onEach plan.commit (store, nodes) = ((after, nodes'), none)) :
    after = { store with
        known := nodes.foldl (fun known node => known.insert node.key (plan.idOf node)) store.known } ∧
      List.Forall₂ (fun node node' => ∃ kind, store.schema.kinds[node.kind]? = some kind ∧
        Node.commit kind (node.withId (plan.idOf node)) = (node', none)) nodes nodes' := by
  induction nodes generalizing store nodes' with
  | nil =>
    simp only [Edit.onEach, Edit.along, Prod.mk.injEq, and_true] at h
    obtain ⟨rfl, rfl⟩ := h
    exact ⟨rfl, .nil⟩
  | cons node nodes ih =>
    obtain ⟨between, first, rest, hfirst, hrest, rfl⟩ := Edit.onEach_cons_eq_none_iff.mp h
    obtain ⟨rfl, hnode⟩ := commit_eq_none hfirst
    obtain ⟨rfl, hall⟩ := ih hrest
    exact ⟨rfl, .cons hnode hall⟩

/-- The key of a batch is remembered with the id of the node that has it, other keys with the id of before. -/
theorem known_committed (h : after.known = nodes.foldl (fun known node => known.insert node.key (plan.idOf node)) store.known)
    (key : NodeKey) : after.known[key]? = ((lastWith Node.key nodes key).map plan.idOf).or store.known[key]? := by
  rw [h, getElem?_foldl_insert]

/-! ## Nodes in memory by their ids -/

section

variable (rank : NodeKey → Nat)

theorem getElem?_takeKey (keys : Std.ExtTreeMap String NodeKey) (entry : NodeKey × String) (id : String) :
    (takeKey rank keys entry)[id]? = keys[id]? ∨ entry.2 = id ∧ (takeKey rank keys entry)[id]? = some entry.1 := by
  unfold takeKey
  split
  · exact Or.inl rfl
  · by_cases hid : entry.2 = id
    · exact Or.inr ⟨hid, by simp [hid]⟩
    · exact Or.inl (by simp [Std.ExtTreeMap.getElem?_insert, hid])

/-- An id that comes with a key has one taken for it. -/
theorem exists_takeKey (keys : Std.ExtTreeMap String NodeKey) (entry : NodeKey × String) :
    ∃ taken, (takeKey rank keys entry)[entry.2]? = some taken := by
  unfold takeKey
  split
  · next h => exact Option.isSome_iff_exists.mp (Option.isSome_of_any h)
  · exact ⟨entry.1, by simp⟩

/-- Whatever the ranks, the key taken for an id is one that came with it, or the one taken before. -/
theorem mem_of_foldl_takeKey {entries : List (NodeKey × String)} {keys : Std.ExtTreeMap String NodeKey} {id : String}
    {key : NodeKey} (h : (entries.foldl (takeKey rank) keys)[id]? = some key) : (key, id) ∈ entries ∨ keys[id]? = some key := by
  induction entries generalizing keys with
  | nil => exact Or.inr h
  | cons entry entries ih =>
    rcases ih h with hmem | hkeys
    · exact Or.inl (List.mem_cons_of_mem _ hmem)
    · rcases getElem?_takeKey rank keys entry id with hsame | ⟨rfl, htaken⟩
      · exact Or.inr (hsame ▸ hkeys)
      · obtain rfl := Option.some.inj (htaken.symm.trans hkeys)
        exact Or.inl List.mem_cons_self

/-- An id that comes with a key keeps a key. -/
theorem exists_foldl_takeKey {entries : List (NodeKey × String)} {keys : Std.ExtTreeMap String NodeKey} {id : String}
    (h : (∃ key, (key, id) ∈ entries) ∨ ∃ key, keys[id]? = some key) :
    ∃ key, (entries.foldl (takeKey rank) keys)[id]? = some key := by
  induction entries generalizing keys with
  | nil => simpa using h
  | cons entry entries ih =>
    refine ih ?_
    rcases h with ⟨key, hmem⟩ | ⟨key, hkeys⟩
    · rcases List.mem_cons.mp hmem with rfl | hmem
      · exact Or.inr (exists_takeKey rank keys (key, id))
      · exact Or.inl ⟨key, hmem⟩
    · rcases getElem?_takeKey rank keys entry id with hsame | ⟨_, htaken⟩
      · exact Or.inr ⟨key, hsame.trans hkeys⟩
      · exact Or.inr ⟨_, htaken⟩

/-- The key that a batch gives for an id is that of a node with this id. -/
theorem exists_of_lastWith_ids {id : String} {last : String × NodeKey}
    (h : lastWith Prod.fst (nodes.filterMap fun node => node.id.map fun id => (id, node.key)) id = some last) :
    ∃ node ∈ nodes, node.id = some id ∧ node.key = last.2 := by
  obtain ⟨hmem, rfl⟩ := lastWith_some h
  obtain ⟨node, hn, hpair⟩ := List.mem_filterMap.mp hmem
  obtain ⟨id, hid, rfl⟩ := Option.map_eq_some_iff.mp hpair
  exact ⟨node, hn, hid, rfl⟩

/-- For every id that is remembered there is a node in memory, where the nodes of a batch are remembered with their ids. -/
theorem exists_keysById (hids : ∀ node ∈ nodes, ∀ id, node.id = some id → store.known[node.key]? = some id) {key : NodeKey}
    {other : String} (h : store.known[key]? = some other) :
    ∃ found, (store.keysById rank nodes)[other]? = some found ∧ store.known[found]? = some other := by
  rw [keysById, getElem?_foldl_insert]
  cases hlast : lastWith Prod.fst (nodes.filterMap fun node => node.id.map fun id => (id, node.key)) other with
  | some last =>
    obtain ⟨node, hn, hid, hkey⟩ := exists_of_lastWith_ids hlast
    exact ⟨last.2, rfl, hkey ▸ hids node hn other hid⟩
  | none =>
    obtain ⟨found, hfound⟩ : ∃ found, (store.known.toList.foldl (takeKey rank) ∅)[other]? = some found :=
      exists_foldl_takeKey rank (Or.inl ⟨key, Std.ExtTreeMap.mem_toList_iff_getElem?_eq_some.mpr h⟩)
    refine ⟨found, hfound, ?_⟩
    rcases mem_of_foldl_takeKey rank hfound with hmem | hnone
    · exact Std.ExtTreeMap.mem_toList_iff_getElem?_eq_some.mp hmem
    · simp at hnone

variable {rank} in
theorem takeKey_of_outranks {keys : Std.ExtTreeMap String NodeKey} {key : NodeKey} {id : String}
    (h : ∀ taken, keys[id]? = some taken → rank taken ≤ rank key) : (takeKey rank keys (key, id))[id]? = some key := by
  cases hk : keys[id]? with
  | none => simp [takeKey, hk]
  | some taken => simp [takeKey, hk, Nat.not_lt.mpr (h taken hk)]

variable {rank} in
/-- A key that outranks the others that come with its id is the one taken. -/
theorem foldl_takeKey_of_outranks {entries : List (NodeKey × String)} {keys : Std.ExtTreeMap String NodeKey} {id : String}
    {key : NodeKey} (hentries : ∀ other, (other, id) ∈ entries → other ≠ key → rank other < rank key)
    (hkeys : keys[id]? = some key ∨ (key, id) ∈ entries ∧ ∀ taken, keys[id]? = some taken → rank taken < rank key) :
    (entries.foldl (takeKey rank) keys)[id]? = some key := by
  induction entries generalizing keys with
  | nil => simpa using hkeys
  | cons entry entries ih =>
    refine ih (fun other ho => hentries other (List.mem_cons_of_mem _ ho)) ?_
    obtain ⟨found, i⟩ := entry
    by_cases hi : i = id
    · subst hi
      by_cases hfound : found = key
      · subst hfound
        refine Or.inl (takeKey_of_outranks fun taken h => ?_)
        rcases hkeys with hsame | ⟨_, hlow⟩
        · exact Nat.le_of_eq (congrArg rank (Option.some.inj (h.symm.trans hsame)))
        · exact Nat.le_of_lt (hlow taken h)
      · have hrank := hentries found List.mem_cons_self hfound
        rcases hkeys with htaken | ⟨hmem, hlow⟩
        · exact Or.inl (by simp [takeKey, htaken, hrank])
        · refine Or.inr ⟨(List.mem_cons.mp hmem).resolve_left (by simp [Ne.symm hfound]), fun taken h => ?_⟩
          rcases getElem?_takeKey rank keys (found, i) i with hsame | ⟨_, htaken⟩
          · exact hlow taken (hsame ▸ h)
          · obtain rfl := Option.some.inj (htaken.symm.trans h)
            exact hrank
    · have hsame : (takeKey rank keys (found, i))[id]? = keys[id]? :=
        (getElem?_takeKey rank keys (found, i) id).resolve_right fun h => hi h.1
      rw [hsame]
      exact hkeys.imp_right (And.imp_left fun hmem => (List.mem_cons.mp hmem).resolve_left (by simp [Ne.symm hi]))

/-- Every choice of a remembered key for each id is that of some ranks. -/
theorem exists_rank (store : Store) (nodes : List Node) (choose : String → Option NodeKey)
    (h : ∀ id key, choose id = some key → store.known[key]? = some id) :
    ∃ rank, ∀ id key, choose id = some key → (∀ node ∈ nodes, node.id ≠ some id) →
      (store.keysById rank nodes)[id]? = some key := by
  refine ⟨fun key => if store.known[key]?.bind choose = some key then 1 else 0, fun id key hchoose hnodes => ?_⟩
  have hnone : lastWith Prod.fst (nodes.filterMap fun node => node.id.map fun id => (id, node.key)) id = none := by
    cases hlast : lastWith Prod.fst (nodes.filterMap fun node => node.id.map fun id => (id, node.key)) id with
    | none => rfl
    | some last =>
      obtain ⟨node, hn, hid, _⟩ := exists_of_lastWith_ids hlast
      exact absurd hid (hnodes node hn)
  rw [keysById, getElem?_foldl_insert, hnone]
  have hknown := h id key hchoose
  refine foldl_takeKey_of_outranks (fun other ho hne => ?_) (Or.inr ⟨?_, ?_⟩)
  · have hother := Std.ExtTreeMap.mem_toList_iff_getElem?_eq_some.mp ho
    simp [hother, hknown, hchoose, Ne.symm hne]
  · exact Std.ExtTreeMap.mem_toList_iff_getElem?_eq_some.mpr hknown
  · simp

end

/-! ## Carrying out -/

variable {rank : NodeKey → Nat}

/-- When a plan was carried out, the store has written it and remembers the batch, and every node of the batch has its id, and in
each field the changes taken over and the writes noted one after the other. -/
theorem carryOut_eq_none (hs : store.schema.WellFormed) (h : carryOut rank plan (store, nodes) = ((after, nodes'), none)) :
    after = { store with
        graph := plan.write nodes store.graph
        known := nodes.foldl (fun known node => known.insert node.key (plan.idOf node)) store.known } ∧
      ∃ keys : Std.ExtTreeMap String NodeKey,
        (∀ (key : NodeKey) (other : String), after.known[key]? = some other →
          ∃ found, keys[other]? = some found ∧ after.known[found]? = some other) ∧
        List.Forall₂ (fun node node' => ∃ kind, store.schema.kinds[node.kind]? = some kind ∧
          Node.EditedBy kind (fun r s => (writeOrder plan.writes).foldl (after.noteField keys r (plan.idOf node)) s.commit)
            (node.withId (plan.idOf node)) node') nodes nodes' := by
  obtain ⟨⟨between, batch⟩, hcommit, hnote⟩ := Edit.andThen_eq_none_iff.mp h
  obtain ⟨hbetween, hbatch⟩ := onEach_commit_eq_none hcommit
  obtain ⟨rfl, hnoted⟩ := Edit.inOrder_onEach_eq_none hnote
  have hmiddle : List.Forall₂ (fun node middle => ∃ kind, store.schema.kinds[node.kind]? = some kind ∧
      Node.EditedBy kind (fun _ s => s.commit) (node.withId (plan.idOf node)) middle) nodes batch :=
    hbatch.imp fun node middle ⟨kind, hk, hc⟩ => ⟨kind, hk, Node.editedBy_commit (hs.relationshipFields hk) hc⟩
  refine ⟨hbetween, after.keysById rank batch, fun key other hk => exists_keysById rank (fun middle hm id hid => ?_) hk, ?_⟩
  · obtain ⟨node, hn, _, _, _, rfl, _⟩ := exists_of_forall₂ hmiddle middle hm
    obtain rfl := Option.some.inj hid
    obtain ⟨last, hl⟩ := lastWith_isSome Node.key hn
    rw [known_committed (congrArg Store.known hbetween), show (node.withId _).key = node.key from rfl, hl]
    simp only [Option.map_some, Option.some_or, SavePlan.idOf, (lastWith_some hl).2]
  · refine forall₂_trans (fun node middle node' ⟨kind, hk, hedit⟩ hw => ⟨kind, hk, ?_⟩) hmiddle hnoted
    have hsame : middle.kind = node.kind ∧ middle.id = some (plan.idOf node) := by
      obtain ⟨_, rfl, _⟩ := hedit
      exact ⟨rfl, rfl⟩
    refine hedit.trans (editedBy_noteWritesOn ?_ (hs.relationshipFields hk) hsame.2 hw)
    rw [hsame.1, hbetween]
    exact hk

end Store

end EntityGraph
