import EntityGraph.Proofs.Graph.Neighbors
import EntityGraph.Proofs.Node.RelatedSet
import EntityGraph.Store.Save

/-!
# Related nodes that follow the writes of a save

The writes of a save are noted one after the other. All the way, what a field has loaded agrees with the edges written so far,
up to the writes that are still to be noted (`Store.Following`): a node may be loaded before its edge is created, and missing
before its edge is deleted. When all writes were noted, it agrees with the graph.
-/

namespace EntityGraph

namespace Store

/-- The related nodes of one field of the node with an id, brought in line with a write. -/
def noteField (store : Store) (keys : Std.ExtTreeMap String NodeKey) (r : Relationship) (id : String) (s : RelatedSet)
    (write : EdgeWrite) : RelatedSet :=
  match Graph.otherEnd? id r.label r.direction write.edge with
  | some other =>
    if store.graph.kindOf? other = some r.relatedKind then store.noteWrite keys write.isCreate other s else s
  | none => s

/-- What holds of the related nodes of a field while writes are noted: they are as the edges of the graph reached demand, or as
one of the remaining writes will. -/
structure Following (store : Store) (r : Relationship) (id : String) (g : Graph) (rest : List EdgeWrite) (s : RelatedSet) :
    Prop where
  canonical : s.Canonical
  cardinality : s.cardinality = r.cardinality
  unchanged : s.hasChanges = false
  /-- A loaded node is remembered with the id of a related one, to which an edge leads or will lead. -/
  known : ∀ key ∈ s.known, ∃ other, store.known[key]? = some other ∧ store.graph.kindOf? other = some r.relatedKind ∧
    (r.edge ⟨id, other⟩ ∈ g.edges ∨ .create (r.edge ⟨id, other⟩) ∈ rest)
  /-- Where all is loaded, a related node is loaded, or the edge to it will be deleted. -/
  complete : s.isLoaded = true → ∀ other, store.graph.kindOf? other = some r.relatedKind →
    r.edge ⟨id, other⟩ ∈ g.edges → (∃ key ∈ s.known, store.known[key]? = some other) ∨
      .delete (r.edge ⟨id, other⟩) ∈ rest

variable {store : Store} {keys : Std.ExtTreeMap String NodeKey} {r : Relationship} {id other : String} {g : Graph}
  {write : EdgeWrite} {rest : List EdgeWrite} {s : RelatedSet}

/-! ## Noting one write -/

/-- An edge that is there or is still to be created stays so by a write that does not delete it. -/
theorem mem_or_create_apply {e : Edge} (h : e ∈ g.edges ∨ .create e ∈ write :: rest) (hd : write ≠ .delete e) :
    e ∈ (g.apply write).edges ∨ .create e ∈ rest := by
  rcases h with he | hc
  · exact Or.inl (Graph.mem_edges_apply_iff.mpr (Or.inr ⟨he, hd⟩))
  · rcases List.mem_cons.mp hc with hc | hc
    · exact Or.inl (Graph.mem_edges_apply_iff.mpr (Or.inl hc.symm))
    · exact Or.inr hc

/-- A write is noted in a field if its edge leads to a node of the related kind through the field, and changes nothing else. -/
theorem noteField_cases (store : Store) (keys : Std.ExtTreeMap String NodeKey) (r : Relationship) (id : String) (s : RelatedSet)
    (write : EdgeWrite) :
    (∃ other, write.edge = r.edge ⟨id, other⟩ ∧ store.graph.kindOf? other = some r.relatedKind ∧
        store.noteField keys r id s write = store.noteWrite keys write.isCreate other s) ∨
      (∀ other, store.graph.kindOf? other = some r.relatedKind → write.edge ≠ r.edge ⟨id, other⟩) ∧
        store.noteField keys r id s write = s := by
  unfold noteField
  cases ho : Graph.otherEnd? id r.label r.direction write.edge with
  | none =>
    refine Or.inr ⟨fun other _ he => ?_, rfl⟩
    rw [Graph.otherEnd?_eq_some_iff.mpr he] at ho
    cases ho
  | some other =>
    have he := Graph.otherEnd?_eq_some_iff.mp ho
    dsimp only
    split
    · next hk => exact Or.inl ⟨other, he, hk, rfl⟩
    · next hk =>
      refine Or.inr ⟨fun another hak hae => ?_, rfl⟩
      obtain ⟨_, rfl⟩ := IdPair.mk.inj (Relationship.edge_injective (he.symm.trans hae))
      exact hk hak

/-- What is kept when a node is dropped, and when one that is remembered is seen, is kept while writes are noted. -/
theorem noteField_induction {motive : RelatedSet → Prop} (hunload : ∀ t key, motive t → motive (t.unload key))
    (hload : ∀ t key other, store.known[key]? = some other → motive t → motive (t.loadOne key)) {writes : List EdgeWrite}
    (hkey : ∀ other, .create (r.edge ⟨id, other⟩) ∈ writes → ∃ key, keys[other]? = some key ∧ store.known[key]? = some other)
    (h : motive s) : motive (writes.foldl (store.noteField keys r id) s) := by
  induction writes generalizing s with
  | nil => exact h
  | cons write rest ih =>
    refine ih (fun other ho => hkey other (List.mem_cons_of_mem _ ho)) ?_
    rcases store.noteField_cases keys r id s write with ⟨other, he, _, hnote⟩ | ⟨_, hnote⟩ <;> rw [hnote]
    · unfold noteWrite
      cases write with
      | delete e => exact RelatedSet.foldl_induction hunload _ h
      | create e =>
        obtain rfl : e = r.edge ⟨id, other⟩ := he
        obtain ⟨key, hfound, hknown⟩ := hkey other List.mem_cons_self
        simp only [EdgeWrite.isCreate, Bool.not_true, Bool.false_eq_true, if_false, hfound]
        split
        · exact hload s key other hknown h
        · exact h
    · exact h

/-- The loaded nodes that are remembered with an id. -/
theorem mem_present_iff (h : s.hasChanges = false) {key : NodeKey} :
    key ∈ (s.current.toList.filter fun key => store.known[key]? == some other) ↔
      key ∈ s.known ∧ store.known[key]? = some other := by
  rw [RelatedSet.current_eq_known h]
  simp

/-- A write that is not noted in the field is of no concern to it. -/
theorem Following.skip (h : store.Following r id g (write :: rest) s)
    (hw : ∀ other, store.graph.kindOf? other = some r.relatedKind → write.edge ≠ r.edge ⟨id, other⟩) :
    store.Following r id (g.apply write) rest s := by
  have hcreate : ∀ other, store.graph.kindOf? other = some r.relatedKind → write ≠ .create (r.edge ⟨id, other⟩) :=
    fun other hk he => hw other hk (by rw [he]; rfl)
  have hdelete : ∀ other, store.graph.kindOf? other = some r.relatedKind → write ≠ .delete (r.edge ⟨id, other⟩) :=
    fun other hk he => hw other hk (by rw [he]; rfl)
  refine ⟨h.canonical, h.cardinality, h.unchanged, fun key hkey => ?_, fun hl other hk he => ?_⟩
  · obtain ⟨other, hother, hk, he⟩ := h.known key hkey
    exact ⟨other, hother, hk, mem_or_create_apply he (hdelete other hk)⟩
  · rcases Graph.mem_edges_apply_iff.mp he with hc | ⟨hold, _⟩
    · exact absurd hc (hcreate other hk)
    · rcases h.complete hl other hk hold with hcov | hd
      · exact Or.inl hcov
      · exact Or.inr ((List.mem_cons.mp hd).resolve_left (hdelete other hk).symm)

/-- When an edge is deleted, every loaded node that stands for its other end is dropped. -/
theorem Following.delete (h : store.Following r id g (.delete (r.edge ⟨id, other⟩) :: rest) s) :
    store.Following r id (g.apply (.delete (r.edge ⟨id, other⟩))) rest (store.noteWrite keys false other s) := by
  have hsame : store.noteWrite keys false other s =
      (s.current.toList.filter fun key => store.known[key]? == some other).foldl RelatedSet.unload s := rfl
  generalize hpresent : (s.current.toList.filter fun key => store.known[key]? == some other) = present at hsame
  have hmem : ∀ key, key ∈ present ↔ key ∈ s.known ∧ store.known[key]? = some other := by
    intro key
    rw [← hpresent, mem_present_iff h.unchanged]
  have hcanonical : (present.foldl RelatedSet.unload s).Canonical :=
    RelatedSet.foldl_induction (fun _ key ht => ht.unload key) present h.canonical
  obtain ⟨hcard, hcomplete⟩ := RelatedSet.foldl_unload_shape s present
  rw [hsame]
  refine ⟨hcanonical, hcard.trans h.cardinality, ?_, fun key hkey => ?_, fun hl another hk he => ?_⟩
  · exact RelatedSet.foldl_induction (motive := fun t => t.hasChanges = false)
      (fun _ key ht => RelatedSet.hasChanges_unload ht key) present h.unchanged
  · obtain ⟨hold, hgone⟩ := RelatedSet.mem_known_foldl_unload_iff.mp hkey
    obtain ⟨another, hanother, hk, he⟩ := h.known key hold
    have hne : another ≠ other := by
      rintro rfl
      exact hgone ((hmem key).mpr ⟨hold, hanother⟩)
    refine ⟨another, hanother, hk, mem_or_create_apply he ?_⟩
    simpa [Relationship.edge_inj] using hne.symm
  · obtain ⟨hold, hnot⟩ := (Graph.mem_edges_apply_iff.mp he).resolve_left (by simp)
    have hne : another ≠ other := by
      rintro rfl
      exact hnot rfl
    rw [hcanonical.isLoaded_eq, hcomplete, ← h.canonical.isLoaded_eq] at hl
    rcases h.complete hl another hk hold with ⟨key, hkey, hid⟩ | hd
    · refine Or.inl ⟨key, RelatedSet.mem_known_foldl_unload_iff.mpr ⟨hkey, fun hp => ?_⟩, hid⟩
      exact hne (Option.some.inj (hid.symm.trans ((hmem key).mp hp).2))
    · refine Or.inr ((List.mem_cons.mp hd).resolve_left ?_)
      simpa [Relationship.edge_inj] using hne

/-- When an edge is created and its other end is loaded already, nothing is to be done. -/
theorem Following.create_loaded (h : store.Following r id g (.create (r.edge ⟨id, other⟩) :: rest) s) {key : NodeKey}
    (hkey : key ∈ s.known) (hother : store.known[key]? = some other) :
    store.Following r id (g.apply (.create (r.edge ⟨id, other⟩))) rest s := by
  refine ⟨h.canonical, h.cardinality, h.unchanged, fun k hk => ?_, fun hl another hak he => ?_⟩
  · obtain ⟨another, hanother, hak, he⟩ := h.known k hk
    exact ⟨another, hanother, hak, mem_or_create_apply he (by simp)⟩
  · rcases Graph.mem_edges_apply_iff.mp he with hc | ⟨hold, _⟩
    · obtain ⟨_, rfl⟩ := IdPair.mk.inj (Relationship.edge_injective (EdgeWrite.create.inj hc))
      exact Or.inl ⟨key, hkey, hother⟩
    · rcases h.complete hl another hak hold with hcov | hd
      · exact Or.inl hcov
      · exact Or.inr ((List.mem_cons.mp hd).resolve_left (by simp))

/-- When an edge of a relationship to several nodes is created, a node that stands for its other end is loaded. -/
theorem Following.create_many (h : store.Following r id g (.create (r.edge ⟨id, other⟩) :: rest) s)
    (hmany : r.cardinality = .many) (hk : store.graph.kindOf? other = some r.relatedKind) {key : NodeKey}
    (hother : store.known[key]? = some other) :
    store.Following r id (g.apply (.create (r.edge ⟨id, other⟩))) rest (s.loadOne key) := by
  have hcard : s.cardinality = .many := h.cardinality.trans hmany
  have hcanonical := h.canonical.loadOne key
  refine ⟨hcanonical, (RelatedSet.loadOne_shape s key).2.trans h.cardinality, RelatedSet.hasChanges_loadOne h.unchanged key,
    fun k hk' => ?_, fun hl another hak he => ?_⟩
  · rcases (RelatedSet.mem_known_loadOne_many_iff hcard).mp hk' with rfl | hold
    · exact ⟨other, hother, hk, Or.inl (Graph.mem_edges_apply_iff.mpr (Or.inl rfl))⟩
    · obtain ⟨another, hanother, hak, he⟩ := h.known k hold
      exact ⟨another, hanother, hak, mem_or_create_apply he (by simp)⟩
  · rcases Graph.mem_edges_apply_iff.mp he with hc | ⟨hold, _⟩
    · obtain ⟨_, rfl⟩ := IdPair.mk.inj (Relationship.edge_injective (EdgeWrite.create.inj hc))
      exact Or.inl ⟨key, (RelatedSet.mem_known_loadOne_many_iff hcard).mpr (Or.inl rfl), hother⟩
    · have hloaded : s.isLoaded = true := by
        rw [hcanonical.isLoaded_eq] at hl
        rw [h.canonical.isLoaded_eq, ← hl]
        simp [RelatedSet.loadOne, hcard]
      rcases h.complete hloaded another hak hold with ⟨k, hk', hid⟩ | hd
      · exact Or.inl ⟨k, (RelatedSet.mem_known_loadOne_many_iff hcard).mpr (Or.inr hk'), hid⟩
      · exact Or.inr ((List.mem_cons.mp hd).resolve_left (by simp))

/-- When an edge of a relationship to one node is created, a node that stands for its other end replaces what was loaded. That
is all there is to load, if any other edge will be deleted. -/
theorem Following.create_one (h : store.Following r id g (.create (r.edge ⟨id, other⟩) :: rest) s)
    (hone : r.cardinality = .one) (hk : store.graph.kindOf? other = some r.relatedKind) {key : NodeKey}
    (hother : store.known[key]? = some other)
    (hrest : ∀ another, store.graph.kindOf? another = some r.relatedKind →
      r.edge ⟨id, another⟩ ∈ (g.apply (.create (r.edge ⟨id, other⟩))).edges →
      another = other ∨ .delete (r.edge ⟨id, another⟩) ∈ rest) :
    store.Following r id (g.apply (.create (r.edge ⟨id, other⟩))) rest (s.loadOne key) := by
  have hknown : (s.loadOne key).known = {key} := RelatedSet.known_loadOne_one (h.cardinality.trans hone)
  refine ⟨h.canonical.loadOne key, (RelatedSet.loadOne_shape s key).2.trans h.cardinality,
    RelatedSet.hasChanges_loadOne h.unchanged key, fun k hmem => ?_, fun _ another hak he => ?_⟩
  · rw [hknown, mem_singleton_iff] at hmem
    rw [hmem]
    exact ⟨other, hother, hk, Or.inl (Graph.mem_edges_apply_iff.mpr (Or.inl rfl))⟩
  · rcases hrest another hak he with rfl | hd
    · exact Or.inl ⟨key, by rw [hknown, mem_singleton_iff], hother⟩
    · exact Or.inr hd

/-! ## Noting all writes -/

/-- What is asked of the writes that are noted: they lead to the graph of the store, which has a node in memory for every node
that an edge is created to, and a relationship to one node leads to no other node than the one that an edge is created to. -/
structure Notable (store : Store) (keys : Std.ExtTreeMap String NodeKey) (r : Relationship) (id : String) (g : Graph)
    (writes : List EdgeWrite) : Prop where
  edges : (g.applyAll writes).edges = store.graph.edges
  key : ∀ other, .create (r.edge ⟨id, other⟩) ∈ writes → ∃ key, keys[other]? = some key ∧ store.known[key]? = some other
  one : r.cardinality = .one → ∀ a b, .create (r.edge ⟨id, a⟩) ∈ writes → store.graph.kindOf? a = some r.relatedKind →
    r.edge ⟨id, b⟩ ∈ store.graph.edges → store.graph.kindOf? b = some r.relatedKind → b = a

theorem Notable.tail (h : store.Notable keys r id g (write :: rest)) : store.Notable keys r id (g.apply write) rest :=
  ⟨h.edges, fun other ho => h.key other (List.mem_cons_of_mem _ ho),
    fun hone a b ha => h.one hone a b (List.mem_cons_of_mem _ ha)⟩

theorem Following.step (hn : store.Notable keys r id g (write :: rest)) (h : store.Following r id g (write :: rest) s) :
    store.Following r id (g.apply write) rest (store.noteField keys r id s write) := by
  rcases store.noteField_cases keys r id s write with ⟨other, he, hk, hnote⟩ | ⟨hother, hnote⟩ <;> rw [hnote]
  · cases write with
    | delete e =>
      obtain rfl : e = r.edge ⟨id, other⟩ := he
      exact h.delete
    | create e =>
      obtain rfl : e = r.edge ⟨id, other⟩ := he
      by_cases hp : ∃ key ∈ s.known, store.known[key]? = some other
      · obtain ⟨key, hkey, hid⟩ := hp
        have hsame : store.noteWrite keys true other s = s := by
          have hmem := (mem_present_iff h.unchanged).mpr ⟨hkey, hid⟩
          rw [noteWrite, if_neg (by simp), if_neg]
          rw [List.isEmpty_iff]
          exact List.ne_nil_of_mem hmem
        rw [EdgeWrite.isCreate, hsame]
        exact h.create_loaded hkey hid
      · obtain ⟨key, hkey, hid⟩ := hn.key other List.mem_cons_self
        have hload : store.noteWrite keys true other s = s.loadOne key := by
          rw [noteWrite, if_neg (by simp), if_pos, hkey]
          rw [List.isEmpty_iff, List.eq_nil_iff_forall_not_mem]
          exact fun k hmem => hp ⟨k, (mem_present_iff h.unchanged).mp hmem⟩
        rw [EdgeWrite.isCreate, hload]
        cases hc : r.cardinality with
        | many => exact h.create_many hc hk hid
        | one =>
          refine h.create_one hc hk hid fun another hak hae => ?_
          by_cases hd : .delete (r.edge ⟨id, another⟩) ∈ rest
          · exact Or.inr hd
          · -- An edge that is not deleted any more is there in the end.
            refine Or.inl (hn.one hc other another List.mem_cons_self hk ?_ hak)
            rw [← hn.tail.edges]
            exact Graph.mem_edges_applyAll_of_mem hae hd
  · exact h.skip hother

/-- When all writes were noted, the related nodes are as the edges of the graph reached demand. -/
theorem Following.run {writes : List EdgeWrite} (hn : store.Notable keys r id g writes)
    (h : store.Following r id g writes s) :
    store.Following r id (g.applyAll writes) [] (writes.foldl (store.noteField keys r id) s) := by
  induction writes generalizing g s with
  | nil => exact h
  | cons write rest ih => exact ih hn.tail (h.step hn)

end Store

end EntityGraph
