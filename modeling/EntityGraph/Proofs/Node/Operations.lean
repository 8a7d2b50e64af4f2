import EntityGraph.Proofs.Node.Current
import EntityGraph.Proofs.Node.View

/-!
# Operations as set operations

What clients see of a `RelatedSet` changes with each operation as a plain set does. A node that was added is there and one that
was removed is not, whether they were loaded or pending before; the other operations are the set operations of
`RelatedSet.operations_on_current`.
-/

namespace EntityGraph

/-- What a local change does to a plain set of nodes. -/
def LocalChange.on (keys : KeySet) : LocalChange → KeySet
  | add key => keys.insert key
  | remove key => keys.erase key
  | set key? => key?.elim ∅ fun key => {key}

namespace RelatedSet

variable {s : RelatedSet}

/-! ## Local changes -/

theorem current_apply (h : s.Canonical) (change : LocalChange) : (change.apply s).current = change.on s.current := by
  refine Std.ExtTreeSet.ext_mem fun k => ?_
  cases change with
  | add key => rw [LocalChange.apply, LocalChange.on, mem_current_add_iff h, mem_insert_iff]
  | remove key => rw [LocalChange.apply, LocalChange.on, mem_current_remove_iff h, mem_erase_iff]
  | set key? =>
    rw [LocalChange.apply, LocalChange.on, mem_current_set_iff h]
    cases key? with
    | none => simp
    | some key => rw [Option.elim_some, mem_singleton_iff, Option.some.injEq, eq_comm]

/-! ## Saving and what the store shows -/

theorem Canonical.isLoaded_commit (h : s.Canonical) : s.commit.isLoaded = s.isLoaded := by
  rw [h.commit.isLoaded_eq, h.isLoaded_eq, RelatedSet.commit]

theorem current_load (h : s.Canonical) (keys : KeySet) : (s.load keys).current = keys \ s.removed ∪ s.added := by
  refine Std.ExtTreeSet.ext_mem fun k => ?_
  rw [mem_current_load_iff h, Std.ExtTreeSet.mem_union_iff, Std.ExtTreeSet.mem_diff_iff]

theorem current_unload (s : RelatedSet) (key : NodeKey) : (s.unload key).current = s.current.erase key := by
  refine Std.ExtTreeSet.ext_mem fun k => ?_
  rw [mem_current_unload_iff, mem_erase_iff]

theorem current_loadOne_many (h : s.Canonical) (hc : s.cardinality = .many) (key : NodeKey) :
    (s.loadOne key).current = if key ∈ s.removed then s.current else s.current.insert key := by
  refine Std.ExtTreeSet.ext_mem fun k => ?_
  rw [mem_current_loadOne_many_iff h hc]
  by_cases hr : key ∈ s.removed
  · rw [if_pos hr]
    simp [hr]
  · rw [if_neg hr, mem_insert_iff]
    simp [hr]

theorem current_loadOne_one (hc : s.cardinality = .one) (key : NodeKey) :
    (s.loadOne key).current =
      if s.added.erase key ≠ ∅ then s.added.erase key else if key ∈ s.removed then ∅ else {key} := by
  have hothers : s.added.erase key = ∅ ↔ ∀ other ∈ s.added, other = key := by
    rw [Std.ExtTreeSet.eq_empty_iff_forall_not_mem]
    simp only [mem_erase_iff, not_and, not_not]
  refine Std.ExtTreeSet.ext_mem fun k => ?_
  rw [mem_current_loadOne_one_iff hc, ← hothers, ← mem_erase_iff]
  by_cases hpending : s.added.erase key = ∅
  · rw [if_neg (not_not.mpr hpending), hpending]
    by_cases hr : key ∈ s.removed
    · rw [if_pos hr]
      simp [hr]
    · rw [if_neg hr, mem_singleton_iff]
      simp [hr]
  · rw [if_pos hpending]
    simp [hpending]

/-- A field for one node does not grow over what is seen from a node's end, unless it was empty. -/
theorem size_loadOne_one_le (hc : s.cardinality = .one) (hsome : 1 ≤ s.current.size) (key : NodeKey) :
    (s.loadOne key).current.size ≤ s.current.size := by
  rw [current_loadOne_one hc]
  split
  · refine size_le_of_subset fun k hk => ?_
    exact mem_current_iff.mpr (Or.inr (mem_erase_iff.mp hk).1)
  · refine Nat.le_trans ?_ hsome
    split
    · simp
    · exact size_le_one_of_forall_eq fun a ha b hb => (mem_singleton_iff.mp ha).trans (mem_singleton_iff.mp hb).symm

/-! ## All operations -/

/-- The operations act on what clients see as set operations. Adding and removing a node do so, setting leaves the node given or
none, and saving changes nothing but that no change is pending. What the store shows counts unless it is pending removal. A node
seen from its end joins the others of a field for several nodes; in a field for one node it gives way to another that is pending,
and takes the place of any that is not, so that the field does not grow. -/
theorem operations_on_current {field : String} {cardinality : Cardinality} (h : Reachable field cardinality s)
    (key : NodeKey) :
    (s.add key).current = s.current.insert key ∧
      (s.remove key).current = s.current.erase key ∧
      (∀ key?, (s.set key?).current = key?.elim ∅ fun key => {key}) ∧
      (s.commit.current = s.current ∧ s.commit.hasChanges = false ∧ s.commit.isLoaded = s.isLoaded) ∧
      (∀ keys, (s.load keys).current = keys \ s.removed ∪ s.added) ∧
      (s.unload key).current = s.current.erase key ∧
      (cardinality = .many →
        (s.loadOne key).current = if key ∈ s.removed then s.current else s.current.insert key) ∧
      (cardinality = .one →
        (s.loadOne key).current =
            (if s.added.erase key ≠ ∅ then s.added.erase key else if key ∈ s.removed then ∅ else {key}) ∧
          (1 ≤ s.current.size → (s.loadOne key).current.size ≤ s.current.size)) := by
  have hs := h.canonical
  have hshape := h.shape.2
  refine ⟨current_apply hs (.add key), current_apply hs (.remove key), fun key? => current_apply hs (.set key?), ?_,
    current_load hs, current_unload s key, ?_, ?_⟩
  · exact ⟨current_commit, hasChanges_commit s, hs.isLoaded_commit⟩
  · intro hmany
    exact current_loadOne_many hs (hshape.trans hmany) key
  · intro hone
    have hc := hshape.trans hone
    exact ⟨current_loadOne_one hc key, fun hsome => size_loadOne_one_le hc hsome key⟩

/-- A field for one node with one node pending, in place of another that was seen from its end: seen again, that one gives way
still, and so does a third one. When the pending one is removed, none is left. -/
theorem pending_node_kept : (Example.replacing.loadOne ⟨2⟩).current = {⟨1⟩} ∧ (Example.replacing.loadOne ⟨3⟩).current = {⟨1⟩} ∧
    (Example.replacing.remove ⟨1⟩).current = ∅ := by
  obtain ⟨_, _, _, _, _, _, _, hseen⟩ := operations_on_current Example.reachable_replacing ⟨2⟩
  obtain ⟨_, _, _, _, _, _, _, hthird⟩ := operations_on_current Example.reachable_replacing ⟨3⟩
  obtain ⟨_, hremove, _⟩ := operations_on_current Example.reachable_replacing ⟨1⟩
  have hpending : ∀ key : NodeKey, key ≠ ⟨1⟩ → Example.replacing.added.erase key = {⟨1⟩} := by
    intro key hne
    have hadded : Example.replacing.added = {⟨1⟩} := by decide +kernel
    refine Std.ExtTreeSet.ext_mem fun k => ?_
    rw [mem_erase_iff, hadded, mem_singleton_iff]
    exact ⟨And.left, fun hk => ⟨hk, fun heq => hne (heq.symm.trans hk)⟩⟩
  refine ⟨?_, ?_, ?_⟩
  · rw [(hseen rfl).1, hpending ⟨2⟩ (by decide)]
    decide +kernel
  · rw [(hthird rfl).1, hpending ⟨3⟩ (by decide)]
    decide +kernel
  · rw [hremove]
    decide +kernel

end RelatedSet

end EntityGraph
