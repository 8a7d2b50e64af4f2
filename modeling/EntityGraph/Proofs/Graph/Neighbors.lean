import EntityGraph.Graph.Basic
import EntityGraph.Proofs.Collections
import Mathlib.Data.List.Nodup

/-!
# Neighbours and writes

A node's neighbours through a relationship are the nodes that an edge of the relationship leads to. After a set of writes, the
edges are those created and those that were there and were not deleted.
-/

namespace EntityGraph

attribute [ext] Graph

/-! ## Edges of a relationship -/

namespace Relationship

/-- A relationship relates different pairs by different edges. -/
theorem edge_injective {r : Relationship} {p q : IdPair} (h : r.edge p = r.edge q) : p = q := by
  cases p
  cases q
  unfold edge at h
  split at h <;> simp_all

theorem edge_inj {r : Relationship} {p q : IdPair} : r.edge p = r.edge q ↔ p = q := ⟨edge_injective, fun h => h ▸ rfl⟩

@[simp] theorem edge_label (r : Relationship) (p : IdPair) : (r.edge p).label = r.label := by
  unfold edge
  split <;> rfl

/-- The ends of an edge are the two nodes that it relates. -/
theorem mem_ends_iff {r : Relationship} {p : IdPair} {id : String} :
    id = (r.edge p).source ∨ id = (r.edge p).target ↔ id = p.owner ∨ id = p.related := by
  unfold edge
  split
  · exact Iff.rfl
  · exact or_comm

theorem owner_end (r : Relationship) {owner related : String} :
    owner = (r.edge ⟨owner, related⟩).source ∨ owner = (r.edge ⟨owner, related⟩).target := mem_ends_iff.mpr (Or.inl rfl)

theorem related_end (r : Relationship) {owner related : String} :
    related = (r.edge ⟨owner, related⟩).source ∨ related = (r.edge ⟨owner, related⟩).target := mem_ends_iff.mpr (Or.inr rfl)

/-- The edges of a relationship from a node are in the order of the nodes that they lead to. -/
theorem compare_edge (r : Relationship) (id a b : String) : compare (r.edge ⟨id, a⟩) (r.edge ⟨id, b⟩) = compare a b := by
  have hself : ∀ text : String, compare text text = .eq := fun _ => Std.ReflOrd.compare_self
  unfold edge
  split
  · change ((compare id id).then (compare r.label r.label)).then (compare a b) = _
    rw [hself, hself]
    rfl
  · change ((compare a b).then (compare r.label r.label)).then (compare id id) = _
    rw [hself, hself]
    cases compare a b <;> rfl

/-- The creations and deletions of a relationship's changes are the edges of their pairs. -/
theorem create_mem_writes_iff {r : Relationship} {changes : EdgeChanges} {e : Edge} :
    .create e ∈ r.writes changes ↔ ∃ pair ∈ changes.add, r.edge pair = e := by
  simp [writes]

theorem delete_mem_writes_iff {r : Relationship} {changes : EdgeChanges} {e : Edge} :
    .delete e ∈ r.writes changes ↔ ∃ pair ∈ changes.remove, r.edge pair = e := by
  simp [writes]

end Relationship

namespace Graph

theorem otherEnd?_eq_some_iff {r : Relationship} {id other : String} {e : Edge} :
    otherEnd? id r.label r.direction e = some other ↔ e = r.edge ⟨id, other⟩ := by
  obtain ⟨source, label, target⟩ := e
  unfold otherEnd? Relationship.edge
  by_cases hl : label = r.label
  · cases r.direction with
    | outgoing => by_cases hs : source = id <;> simp [hl, hs]
    | incoming => by_cases ht : target = id <;> simp [hl, ht]
  · cases r.direction <;> simp [hl]

/-- The neighbours of a node through a relationship are the other ends of its edges. -/
theorem mem_neighbors_iff {g : Graph} {r : Relationship} {id other : String} :
    other ∈ g.neighbors id r.label r.direction ↔ r.edge ⟨id, other⟩ ∈ g.edges := by
  simp [neighbors, otherEnd?_eq_some_iff]

/-- Neighbours are listed in the order of their ids. -/
theorem pairwise_neighbors (g : Graph) (r : Relationship) (id : String) :
    (g.neighbors id r.label r.direction).Pairwise (· < ·) := by
  refine List.Pairwise.filterMap _ (fun e e' hlt a ha b hb => ?_) Std.ExtTreeSet.ordered_toList
  rw [otherEnd?_eq_some_iff] at ha hb
  rw [ha, hb, Relationship.compare_edge] at hlt
  exact compareOfLessAndEq_eq_lt.mp hlt

/-- No neighbour is listed twice. -/
theorem nodup_neighbors (g : Graph) (r : Relationship) (id : String) : (g.neighbors id r.label r.direction).Nodup :=
  (g.pairwise_neighbors r id).nodup

theorem kindOf?_eq_some_iff {g : Graph} {id kind : String} :
    g.kindOf? id = some kind ↔ ∃ stored, g.nodes[id]? = some stored ∧ stored.kind = kind := by
  simp [kindOf?]

/-! ## Writes -/

@[simp] theorem nodes_apply (g : Graph) (write : EdgeWrite) : (g.apply write).nodes = g.nodes := by
  cases write <;> rfl

@[simp] theorem applyAll_cons (g : Graph) (write : EdgeWrite) (writes : List EdgeWrite) :
    g.applyAll (write :: writes) = (g.apply write).applyAll writes := rfl

@[simp] theorem nodes_applyAll (g : Graph) (writes : List EdgeWrite) : (g.applyAll writes).nodes = g.nodes := by
  induction writes generalizing g with
  | nil => rfl
  | cons write writes ih => rw [applyAll_cons, ih, nodes_apply]

theorem mem_edges_apply_iff {g : Graph} {write : EdgeWrite} {e : Edge} :
    e ∈ (g.apply write).edges ↔ write = .create e ∨ e ∈ g.edges ∧ write ≠ .delete e := by
  cases write with
  | create edge => simp [apply, Std.ExtTreeSet.mem_insert]
  | delete edge => simp [apply, Std.ExtTreeSet.mem_erase, and_comm]

/-- An edge that no write deletes stays. -/
theorem mem_edges_applyAll_of_mem {g : Graph} {writes : List EdgeWrite} {e : Edge} (h : e ∈ g.edges)
    (hd : .delete e ∉ writes) : e ∈ (g.applyAll writes).edges := by
  induction writes generalizing g with
  | nil => exact h
  | cons write writes ih =>
    rw [List.mem_cons, not_or] at hd
    exact ih (mem_edges_apply_iff.mpr (Or.inr ⟨h, fun hw => hd.1 hw.symm⟩)) hd.2

/-- An edge that no write creates was there before. -/
theorem mem_edges_of_mem_applyAll {g : Graph} {writes : List EdgeWrite} {e : Edge} (h : e ∈ (g.applyAll writes).edges)
    (hc : .create e ∉ writes) : e ∈ g.edges := by
  induction writes generalizing g with
  | nil => exact h
  | cons write writes ih =>
    rw [List.mem_cons, not_or] at hc
    rcases mem_edges_apply_iff.mp (ih h hc.2) with hw | hw
    · exact absurd hw.symm hc.1
    · exact hw.1

/-- An edge that is created and not deleted is there. -/
theorem mem_edges_applyAll_of_create {g : Graph} {writes : List EdgeWrite} {e : Edge} (hc : .create e ∈ writes)
    (hd : .delete e ∉ writes) : e ∈ (g.applyAll writes).edges := by
  induction writes generalizing g with
  | nil => simp at hc
  | cons write writes ih =>
    rw [List.mem_cons, not_or] at hd
    rcases List.mem_cons.mp hc with rfl | hc
    · rw [applyAll_cons]
      exact mem_edges_applyAll_of_mem (mem_edges_apply_iff.mpr (Or.inl rfl)) hd.2
    · exact ih hc hd.2

/-- An edge that is deleted and not created is gone. -/
theorem not_mem_edges_applyAll {g : Graph} {writes : List EdgeWrite} {e : Edge} (hd : .delete e ∈ writes)
    (hc : .create e ∉ writes) : e ∉ (g.applyAll writes).edges := by
  induction writes generalizing g with
  | nil => simp at hd
  | cons write writes ih =>
    rw [List.mem_cons, not_or] at hc
    rcases List.mem_cons.mp hd with rfl | hd
    · intro h
      rw [applyAll_cons] at h
      have hmem := mem_edges_of_mem_applyAll h hc.2
      simp [mem_edges_apply_iff] at hmem
    · exact ih hd hc.2

theorem applyAll_append (g : Graph) (first second : List EdgeWrite) :
    g.applyAll (first ++ second) = (g.applyAll first).applyAll second := by
  simp [applyAll, List.foldl_append]

end Graph

theorem mem_writeOrder_iff {writes : Std.ExtTreeSet EdgeWrite} {write : EdgeWrite} :
    write ∈ writeOrder writes ↔ write ∈ writes := by
  cases write <;> simp [writeOrder, EdgeWrite.isCreate]

namespace Graph

/-- After a set of writes, the edges are those created and those that were there and were not deleted. -/
theorem mem_edges_applyAll_writeOrder_iff {g : Graph} {writes : Std.ExtTreeSet EdgeWrite} {e : Edge} :
    e ∈ (g.applyAll (writeOrder writes)).edges ↔
      EdgeWrite.create e ∈ writes ∨ e ∈ g.edges ∧ EdgeWrite.delete e ∉ writes := by
  have hdel : ∀ e, EdgeWrite.delete e ∉ writes.toList.filter (·.isCreate) := by simp [EdgeWrite.isCreate]
  have hcre : ∀ e, EdgeWrite.create e ∉ writes.toList.filter (!·.isCreate) := by simp [EdgeWrite.isCreate]
  rw [writeOrder, applyAll_append]
  constructor
  · intro h
    by_cases hc : EdgeWrite.create e ∈ writes
    · exact Or.inl hc
    · have hmid := mem_edges_of_mem_applyAll h (by simp [EdgeWrite.isCreate, hc])
      refine Or.inr ⟨mem_edges_of_mem_applyAll hmid (hcre e), fun hd => ?_⟩
      exact not_mem_edges_applyAll (by simp [EdgeWrite.isCreate, hd]) (hcre e) hmid
  · rintro (hc | ⟨he, hd⟩)
    · exact mem_edges_applyAll_of_create (by simp [EdgeWrite.isCreate, hc]) (hdel e)
    · exact mem_edges_applyAll_of_mem (mem_edges_applyAll_of_mem he (by simp [EdgeWrite.isCreate, hd])) (hdel e)

end Graph

end EntityGraph
