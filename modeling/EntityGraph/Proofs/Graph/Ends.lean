import EntityGraph.Proofs.Graph.Neighbors

/-!
# Edges from both ends

Two relationships that follow one label in opposite directions see the same edges from their two ends. Changes of the one are
the mirrored changes of the other: they give the same writes, and the same neighbours afterwards
(`Relationship.ends_agree`). Neighbours through other labels stay as they were.
-/

namespace EntityGraph

/-! ## Mirrored changes -/

namespace EdgeChanges

variable {changes : EdgeChanges} {pair : IdPair}

theorem mem_map_swap_iff {pairs : List IdPair} : pair ∈ pairs.map IdPair.swap ↔ pair.swap ∈ pairs := by
  constructor
  · rw [List.mem_map]
    rintro ⟨p, hp, rfl⟩
    exact hp
  · exact fun h => List.mem_map.mpr ⟨pair.swap, h, rfl⟩

theorem mem_add_mirrored_iff : pair ∈ changes.mirrored.add ↔ pair.swap ∈ changes.add := by
  rw [mirrored, ofLists, Std.ExtTreeSet.mem_ofList, List.contains_iff_mem, mem_map_swap_iff, Std.ExtTreeSet.mem_toList]

theorem mem_remove_mirrored_iff : pair ∈ changes.mirrored.remove ↔ pair.swap ∈ changes.remove := by
  rw [mirrored, ofLists, Std.ExtTreeSet.mem_ofList, List.contains_iff_mem, mem_map_swap_iff, Std.ExtTreeSet.mem_toList]

end EdgeChanges

namespace Relationship

/-- A relationship that follows the same edges from the other end. -/
structure Opposite (r other : Relationship) : Prop where
  label : other.label = r.label
  direction : other.direction = r.direction.opposite

variable {r other : Relationship}

/-- Both relationships relate two nodes by the same edge. -/
theorem Opposite.edge_eq (h : r.Opposite other) (pair : IdPair) : other.edge pair.swap = r.edge pair := by
  unfold edge
  rw [h.label, h.direction]
  cases r.direction <;> rfl

/-- Mirrored changes of the one relationship are written as changes of the other. -/
theorem Opposite.mem_writes_iff (h : r.Opposite other) {changes : EdgeChanges} {write : EdgeWrite} :
    write ∈ other.writes changes.mirrored ↔ write ∈ r.writes changes := by
  have hsame : ∀ {P : IdPair → Prop} {e : Edge},
      (∃ pair, P pair.swap ∧ other.edge pair = e) ↔ ∃ pair, P pair ∧ r.edge pair = e := by
    intro P e
    constructor
    · rintro ⟨pair, hp, rfl⟩
      exact ⟨pair.swap, hp, (h.edge_eq pair.swap).symm⟩
    · rintro ⟨pair, hp, rfl⟩
      exact ⟨pair.swap, hp, h.edge_eq pair⟩
  cases write with
  | create e => simp only [create_mem_writes_iff, EdgeChanges.mem_add_mirrored_iff, hsame]
  | delete e => simp only [delete_mem_writes_iff, EdgeChanges.mem_remove_mirrored_iff, hsame]

/-- The set of writes that changes of a relationship come to. -/
def writeSet (r : Relationship) (changes : EdgeChanges) : Std.ExtTreeSet EdgeWrite := .ofList (r.writes changes) compare

theorem mem_writeSet_iff {changes : EdgeChanges} {write : EdgeWrite} :
    write ∈ r.writeSet changes ↔ write ∈ r.writes changes := by
  rw [writeSet, Std.ExtTreeSet.mem_ofList, List.contains_iff_mem]

theorem create_mem_writeSet_iff {changes : EdgeChanges} {pair : IdPair} :
    EdgeWrite.create (r.edge pair) ∈ r.writeSet changes ↔ pair ∈ changes.add := by
  simp [mem_writeSet_iff, create_mem_writes_iff, edge_inj]

theorem delete_mem_writeSet_iff {changes : EdgeChanges} {pair : IdPair} :
    EdgeWrite.delete (r.edge pair) ∈ r.writeSet changes ↔ pair ∈ changes.remove := by
  simp [mem_writeSet_iff, delete_mem_writes_iff, edge_inj]

/-- Changes write edges of the relationship's label only. -/
theorem label_of_mem_writeSet {changes : EdgeChanges} {write : EdgeWrite} (h : write ∈ r.writeSet changes) :
    write.edge.label = r.label := by
  rw [mem_writeSet_iff, writes, List.mem_append, List.mem_map, List.mem_map] at h
  rcases h with ⟨pair, -, rfl⟩ | ⟨pair, -, rfl⟩
  · exact edge_label r pair
  · exact edge_label r pair

end Relationship

/-! ## Neighbours -/

namespace Graph

variable {g g' : Graph}

/-- Neighbours through a label depend on the edges with that label alone. -/
theorem neighbors_congr {label : String} (h : ∀ e : Edge, e.label = label → (e ∈ g.edges ↔ e ∈ g'.edges)) (id : String)
    (direction : Direction) : g.neighbors id label direction = g'.neighbors id label direction := by
  let r : Relationship := ⟨"", "", "", label, direction, .many, none⟩
  have hperm : (g.neighbors id r.label r.direction).Perm (g'.neighbors id r.label r.direction) := by
    refine (List.perm_ext_iff_of_nodup (g.nodup_neighbors r id) (g'.nodup_neighbors r id)).mpr fun other => ?_
    rw [mem_neighbors_iff, mem_neighbors_iff]
    exact h _ (Relationship.edge_label r _)
  refine hperm.eq_of_pairwise (fun a b _ _ hab hba => ?_) (g.pairwise_neighbors r id) (g'.pairwise_neighbors r id)
  exact absurd hba (String.lt_asymm hab)

end Graph

namespace Relationship

/-- The graph after changes of a relationship. -/
def carryOut (r : Relationship) (changes : EdgeChanges) (g : Graph) : Graph := g.applyAll (writeOrder (r.writeSet changes))

/-- Two relationships that follow one label in opposite directions write the changes of the one and the mirrored changes of the
other alike, whatever the changes, and see the same edges afterwards, whatever the edges were before: two nodes are related just
if their pair is added, or if they were related before and their pair is not removed. Other labels are left alone. -/
theorem ends_agree {r other : Relationship} (h : r.Opposite other) (changes : EdgeChanges) (g : Graph) :
    other.writeSet changes.mirrored = r.writeSet changes ∧
    (∀ a b,
      (b ∈ (r.carryOut changes g).neighbors a r.label r.direction ↔
        a ∈ (r.carryOut changes g).neighbors b other.label other.direction) ∧
      (b ∈ (r.carryOut changes g).neighbors a r.label r.direction ↔
        ⟨a, b⟩ ∈ changes.add ∨ b ∈ g.neighbors a r.label r.direction ∧ ⟨a, b⟩ ∉ changes.remove)) ∧
    ∀ label ≠ r.label, ∀ id direction, (r.carryOut changes g).neighbors id label direction = g.neighbors id label direction := by
  refine ⟨?_, fun a b => ⟨?_, ?_⟩, fun label hne id direction => ?_⟩
  · ext write
    rw [mem_writeSet_iff, mem_writeSet_iff, h.mem_writes_iff]
  · rw [Graph.mem_neighbors_iff, Graph.mem_neighbors_iff, ← h.edge_eq]
    rfl
  · rw [Graph.mem_neighbors_iff, Graph.mem_neighbors_iff, carryOut, Graph.mem_edges_applyAll_writeOrder_iff,
      create_mem_writeSet_iff, delete_mem_writeSet_iff]
  · refine Graph.neighbors_congr (fun e he => ?_) id direction
    have hnone : ∀ write ∈ r.writeSet changes, write.edge ≠ e := by
      rintro write hw rfl
      exact hne (he.symm.trans (label_of_mem_writeSet hw))
    have hcreate : EdgeWrite.create e ∉ r.writeSet changes := fun hw => hnone _ hw rfl
    have hdelete : EdgeWrite.delete e ∉ r.writeSet changes := fun hw => hnone _ hw rfl
    rw [carryOut, Graph.mem_edges_applyAll_writeOrder_iff]
    simp [hcreate, hdelete]

namespace Example

/-- The children of a tree, and the tree above it. -/
def children : Relationship := ⟨"Tree", "children", "Tree", "CHILD", .outgoing, .many, some "parent"⟩

def parent : Relationship := ⟨"Tree", "parent", "Tree", "CHILD", .incoming, .one, some "children"⟩

/-- Changes that make a tree its own child and also take it from its children, with another child that is taken. -/
def looped : EdgeChanges := .ofLists [⟨"a", "a"⟩] [⟨"a", "a"⟩, ⟨"a", "b"⟩]

end Example

/-- A pair both added and removed is related afterwards, also when it is a node with itself, and a pair only removed is not; the
end that did not change says the same. -/
theorem loop_added_and_removed : Example.children.Opposite Example.parent ∧
    ∀ g : Graph, "a" ∈ (Example.children.carryOut Example.looped g).neighbors "a" "CHILD" .incoming ∧
      "a" ∉ (Example.children.carryOut Example.looped g).neighbors "b" "CHILD" .incoming ∧
      Example.parent.writeSet Example.looped.mirrored = Example.children.writeSet Example.looped := by
  have hopposite : Example.children.Opposite Example.parent := ⟨rfl, rfl⟩
  refine ⟨hopposite, fun g => ?_⟩
  obtain ⟨hwrites, hrelated, -⟩ := ends_agree hopposite Example.looped g
  have hadded : (⟨"a", "a"⟩ : IdPair) ∈ Example.looped.add := by decide +kernel
  have hremoved : (⟨"a", "b"⟩ : IdPair) ∉ Example.looped.add ∧ (⟨"a", "b"⟩ : IdPair) ∈ Example.looped.remove := by
    decide +kernel
  refine ⟨(hrelated "a" "a").1.mp ((hrelated "a" "a").2.mpr (Or.inl hadded)), fun hb => ?_, hwrites⟩
  rcases (hrelated "a" "b").2.mp ((hrelated "a" "b").1.mpr hb) with hadd | ⟨-, hkept⟩
  · exact hremoved.1 hadd
  · exact hkept hremoved.2

end Relationship

end EntityGraph
