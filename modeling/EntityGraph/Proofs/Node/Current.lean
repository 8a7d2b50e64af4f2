import EntityGraph.Proofs.Node.RelatedSet

/-!
# What clients see after each operation

The nodes that are current after an operation on a canonical `RelatedSet`, in terms of those that were current before. A change
that is pending stays in effect when the store is looked at again, as far as `RelatedSet.load` keeps it.
-/

namespace EntityGraph

namespace RelatedSet

variable {s : RelatedSet} {key k : NodeKey}

theorem Canonical.not_mem_removed (h : s.Canonical) (hk : k ∈ s.added) : k ∉ s.removed :=
  fun hr => h.added_new k hk (h.removed_known k hr)

/-! ## Local changes -/

theorem mem_current_add_iff (h : s.Canonical) : k ∈ (s.add key).current ↔ k = key ∨ k ∈ s.current := by
  rw [mem_current_iff, mem_current_iff]
  by_cases hr : key ∈ s.removed
  · have hadd : s.add key = { s with removed := s.removed.erase key } := by
      rw [add, if_pos (Std.ExtTreeSet.contains_iff_mem.mpr hr)]
    rw [hadd]
    simp only [known, mem_erase_iff]
    by_cases hk : k = key
    · exact iff_of_true (Or.inl ⟨hk ▸ h.removed_known key hr, fun he => he.2 hk⟩) (Or.inl hk)
    · simp [hk]
  · by_cases hl : key ∈ s.known
    · have hadd : s.add key = s := by simp [add, hr, hl]
      rw [hadd]
      constructor
      · exact Or.inr
      · rintro (rfl | hk)
        · exact Or.inl ⟨hl, hr⟩
        · exact hk
    · have hadd : s.add key = { s with added := s.added.insert key } := by simp [add, hr, hl]
      rw [hadd]
      simp only [known, mem_insert_iff]
      exact or_left_comm

theorem mem_current_remove_iff (h : s.Canonical) : k ∈ (s.remove key).current ↔ k ∈ s.current ∧ k ≠ key := by
  rw [mem_current_iff, mem_current_iff]
  by_cases ha : key ∈ s.added
  · have hremove : s.remove key = { s with added := s.added.erase key } := by simp [remove, ha]
    have hnew := h.added_new key ha
    rw [hremove]
    simp only [known, mem_erase_iff]
    by_cases hk : k = key
    · subst hk
      exact iff_of_false (fun hkept => hkept.elim (fun hl => hnew hl.1) fun he => he.2 rfl) fun hkept => hkept.2 rfl
    · simp [hk]
  · by_cases hl : key ∈ s.known
    · have hremove : s.remove key = { s with removed := s.removed.insert key } := by simp [remove, ha, hl]
      rw [hremove]
      simp only [known, mem_insert_iff]
      by_cases hk : k = key
      · simp [hk, ha]
      · simp [hk]
    · have hremove : s.remove key = s := by simp [remove, ha, hl]
      rw [hremove]
      refine ⟨fun hk => ⟨hk, ?_⟩, And.left⟩
      rintro rfl
      exact hk.elim (fun hold => hl hold.1) ha

theorem mem_current_foldl_remove_iff (h : s.Canonical) {keys : List NodeKey} :
    k ∈ (keys.foldl remove s).current ↔ k ∈ s.current ∧ k ∉ keys := by
  induction keys generalizing s with
  | nil => simp
  | cons key keys ih => rw [List.foldl_cons, ih (h.remove key), mem_current_remove_iff h, List.mem_cons, not_or, and_assoc]

/-- Replacement leaves the given node, or none. -/
theorem mem_current_set_iff (h : s.Canonical) {key? : Option NodeKey} :
    k ∈ (s.set key?).current ↔ key? = some k := by
  let others := s.current.toList.filter fun key => some key ≠ key?
  have hcleared : k ∈ (others.foldl remove s).current ↔ k ∈ s.current ∧ key? = some k := by
    rw [mem_current_foldl_remove_iff h]
    simp only [others, List.mem_filter, Std.ExtTreeSet.mem_toList, decide_eq_true_eq, not_and, not_not]
    exact ⟨fun ⟨hk, hkept⟩ => ⟨hk, (hkept hk).symm⟩, fun ⟨hk, heq⟩ => ⟨hk, fun _ => heq.symm⟩⟩
  cases key? with
  | none => exact hcleared.trans (by simp)
  | some key =>
    have hset : s.set (some key) = (others.foldl remove s).add key := rfl
    have hc : (others.foldl remove s).Canonical := foldl_induction (fun _ key ht => ht.remove key) others h
    rw [hset, mem_current_add_iff hc, hcleared, Option.some.injEq]
    exact ⟨fun hk => hk.elim Eq.symm And.right, fun hk => Or.inl hk.symm⟩

/-! ## What the store shows -/

/-- What was loaded counts unless it is pending removal, and what is pending addition stays. -/
theorem mem_current_load_iff (h : s.Canonical) {keys : KeySet} :
    k ∈ (s.load keys).current ↔ k ∈ keys ∧ k ∉ s.removed ∨ k ∈ s.added := by
  have hknown : (s.load keys).known = keys := rfl
  have hadded : k ∈ (s.load keys).added ↔ k ∈ s.added ∧ k ∉ keys := by
    rw [load, mem_filter_iff, Bool.not_eq_true', contains_eq_false_iff]
  have hremoved : k ∈ (s.load keys).removed ↔ k ∈ s.removed ∧ k ∈ keys := by
    rw [load, mem_filter_iff, Std.ExtTreeSet.contains_iff_mem]
  rw [mem_current_iff, hknown, hadded, hremoved]
  by_cases hk : k ∈ keys
  · simpa [hk] using h.not_mem_removed
  · simp [hk]

/-- At a field for several nodes the node seen from its end joins the others, unless it is pending removal. -/
theorem mem_current_loadOne_many_iff (h : s.Canonical) (hc : s.cardinality = .many) :
    k ∈ (s.loadOne key).current ↔ k = key ∧ key ∉ s.removed ∨ k ∈ s.current := by
  have hadded : k ∈ (s.loadOne key).added ↔ k ∈ s.added ∧ k ≠ key := by
    simp only [loadOne, hc]
    exact mem_erase_iff
  have hremoved : (s.loadOne key).removed = s.removed := by simp [loadOne, hc]
  rw [mem_current_iff, mem_current_iff, mem_known_loadOne_many_iff hc, hadded, hremoved]
  by_cases hk : k = key
  · subst hk
    simpa using fun hkept => hkept.elim And.right h.not_mem_removed
  · simp [hk]

/-- At a field for one node the node seen from its end takes the place of the one loaded, unless it is pending removal or another
node is pending. -/
theorem mem_current_loadOne_one_iff (hc : s.cardinality = .one) :
    k ∈ (s.loadOne key).current ↔
      k ∈ s.added ∧ k ≠ key ∨ k = key ∧ key ∉ s.removed ∧ ∀ other ∈ s.added, other = key := by
  have hadded : k ∈ (s.loadOne key).added ↔ k ∈ s.added ∧ k ≠ key := by
    simp only [loadOne, hc]
    exact mem_erase_iff
  have hpending : (s.added.erase key).isEmpty = true ↔ ∀ other ∈ s.added, other = key := by
    rw [Std.ExtTreeSet.isEmpty_iff, Std.ExtTreeSet.eq_empty_iff_forall_not_mem]
    simp only [mem_erase_iff, not_and, not_not]
  have hremoved : k ∈ (s.loadOne key).removed ↔ k = key ∧ ¬(key ∉ s.removed ∧ ∀ other ∈ s.added, other = key) := by
    rw [← hpending, ← contains_eq_false_iff]
    simp only [loadOne, hc]
    split
    · next hyes =>
      rw [mem_singleton_iff, and_iff_left]
      simpa [← Bool.not_eq_true, or_iff_not_imp_left] using hyes
    · next hno =>
      simpa [← Bool.not_eq_true] using fun _ => by simpa using hno
  rw [mem_current_iff, known_loadOne_one hc, mem_singleton_iff, hadded, hremoved, or_comm]
  refine or_congr_right (and_congr_right fun hk => ?_)
  simp [hk]

theorem mem_current_unload_iff : k ∈ (s.unload key).current ↔ k ∈ s.current ∧ k ≠ key := by
  rw [mem_current_iff, mem_current_iff, mem_known_unload_iff]
  simp only [unload, mem_erase_iff]
  by_cases hk : k = key <;> simp [hk]

/-- Saving takes over what is current. -/
theorem current_commit : s.commit.current = s.current := by
  rw [current_eq_known (hasChanges_commit s), known_commit]

end RelatedSet

end EntityGraph
