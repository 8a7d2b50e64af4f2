import EntityGraph.Proofs.Node.RelatedSet

/-!
# One state for each view

Clients see of a `RelatedSet` what is loaded and what is current. In a canonical set these two determine the pending changes: what
is added is what is current and not loaded, and what is removed is what is loaded and not current. So it makes no difference by
which local changes (`LocalChange`) a view was reached.
-/

namespace EntityGraph

/-- A change that a client makes of the nodes related by a field. -/
inductive LocalChange
  | add (key : NodeKey)
  | remove (key : NodeKey)
  | set (key? : Option NodeKey)
deriving DecidableEq, Repr

/-- The related nodes after a local change. -/
def LocalChange.apply (s : RelatedSet) : LocalChange → RelatedSet
  | add key => s.add key
  | remove key => s.remove key
  | set key? => s.set key?

namespace RelatedSet

/-- The related nodes after local changes in the order of the list. -/
def edited (s : RelatedSet) (changes : List LocalChange) : RelatedSet := changes.foldl LocalChange.apply s

variable {s t : RelatedSet}

/-! ## What local changes leave as it is -/

/-- Two sets differ in their pending changes at most. -/
structure SameLoaded (s t : RelatedSet) : Prop where
  field : t.field = s.field
  cardinality : t.cardinality = s.cardinality
  loaded : t.loaded = s.loaded
  complete : t.complete = s.complete

theorem SameLoaded.refl (s : RelatedSet) : s.SameLoaded s := ⟨rfl, rfl, rfl, rfl⟩

theorem SameLoaded.trans {u : RelatedSet} (h : s.SameLoaded t) (h' : t.SameLoaded u) : s.SameLoaded u :=
  ⟨h'.field.trans h.field, h'.cardinality.trans h.cardinality, h'.loaded.trans h.loaded, h'.complete.trans h.complete⟩

theorem SameLoaded.known (h : s.SameLoaded t) : t.known = s.known := by rw [RelatedSet.known, RelatedSet.known, h.loaded]

theorem sameLoaded_add (s : RelatedSet) (key : NodeKey) : s.SameLoaded (s.add key) := by
  obtain ⟨hfield, hcard, hloaded, hcomplete⟩ := add_shape s key
  exact ⟨hfield, hcard, hloaded, hcomplete⟩

theorem sameLoaded_remove (s : RelatedSet) (key : NodeKey) : s.SameLoaded (s.remove key) := by
  obtain ⟨hfield, hcard, hloaded, hcomplete⟩ := remove_shape s key
  exact ⟨hfield, hcard, hloaded, hcomplete⟩

/-- One local change keeps what is loaded. -/
theorem sameLoaded_apply (s : RelatedSet) (change : LocalChange) : s.SameLoaded (change.apply s) := by
  cases change with
  | add key => exact sameLoaded_add s key
  | remove key => exact sameLoaded_remove s key
  | set key? =>
    refine set_induction (motive := s.SameLoaded) ?_ ?_ key? (.refl s)
    · intro t key ht
      exact ht.trans (sameLoaded_add t key)
    · intro t key ht
      exact ht.trans (sameLoaded_remove t key)

theorem sameLoaded_edited (s : RelatedSet) (changes : List LocalChange) : s.SameLoaded (s.edited changes) := by
  induction changes generalizing s with
  | nil => exact .refl s
  | cons change changes ih => exact (sameLoaded_apply s change).trans (ih (change.apply s))

/-! ## Local changes of reachable sets -/

theorem Reachable.apply {field : String} {cardinality : Cardinality} (h : Reachable field cardinality s)
    (change : LocalChange) : Reachable field cardinality (change.apply s) := by
  cases change with
  | add key => exact .add key h
  | remove key => exact .remove key h
  | set key? => exact .set key? h

theorem Reachable.edited {field : String} {cardinality : Cardinality} (h : Reachable field cardinality s)
    (changes : List LocalChange) : Reachable field cardinality (s.edited changes) := by
  induction changes generalizing s with
  | nil => exact h
  | cons change changes ih => exact ih (h.apply change)

/-! ## The pending changes of a view -/

/-- What is removed is loaded and what is added is not, just when the pending changes are the differences between what is loaded
and what is current. -/
theorem changes_iff_differences :
    ((∀ key ∈ s.removed, key ∈ s.known) ∧ ∀ key ∈ s.added, key ∉ s.known) ↔
      s.added = s.current \ s.known ∧ s.removed = s.known \ s.current := by
  constructor
  · rintro ⟨hremoved, hadded⟩
    constructor <;> refine Std.ExtTreeSet.ext_mem fun key => ?_ <;> rw [Std.ExtTreeSet.mem_diff_iff, mem_current_iff]
    · constructor
      · intro hkey
        exact ⟨Or.inr hkey, hadded key hkey⟩
      · rintro ⟨⟨hknown, _⟩ | hkey, hnew⟩
        · exact absurd hknown hnew
        · exact hkey
    · constructor
      · intro hkey
        have hknown := hremoved key hkey
        exact ⟨hknown, fun hcurrent => hcurrent.elim (fun h => h.2 hkey) fun h => hadded key h hknown⟩
      · rintro ⟨hknown, hgone⟩
        by_contra hkept
        exact hgone (Or.inl ⟨hknown, hkept⟩)
  · rintro ⟨hadded, hremoved⟩
    constructor
    · intro key hkey
      rw [hremoved, Std.ExtTreeSet.mem_diff_iff] at hkey
      exact hkey.1
    · intro key hkey
      rw [hadded, Std.ExtTreeSet.mem_diff_iff] at hkey
      exact hkey.2

theorem Canonical.differences (h : s.Canonical) : s.added = s.current \ s.known ∧ s.removed = s.known \ s.current :=
  changes_iff_differences.mp ⟨h.removed_known, h.added_new⟩

/-- Canonical sets with the same nodes loaded and the same nodes current are the same. -/
theorem Canonical.eq_of_current (hs : s.Canonical) (ht : t.Canonical) (h : s.SameLoaded t) (hcurrent : t.current = s.current) :
    t = s := by
  have hadded : t.added = s.added := by rw [ht.differences.1, hs.differences.1, hcurrent, h.known]
  have hremoved : t.removed = s.removed := by rw [ht.differences.2, hs.differences.2, hcurrent, h.known]
  obtain ⟨hfield, hcard, hloaded, hcomplete⟩ := h
  cases s
  cases t
  simp_all only

/-- A reachable set is canonical: what is removed is loaded, what is added is not, what is loaded is present where it is complete
and not empty where it is partial. So the pending changes are disjoint, and they are the differences between what is loaded and
what is current. Local changes that end with the same nodes current end in the same set, with the same changes by id. -/
theorem one_state_for_each_view {field : String} {cardinality : Cardinality} (h : Reachable field cardinality s) :
    s.Canonical ∧ (∀ key ∈ s.added, key ∉ s.removed) ∧ s.added = s.current \ s.known ∧ s.removed = s.known \ s.current ∧
      ∀ first second : List LocalChange, (s.edited first).current = (s.edited second).current →
        s.edited first = s.edited second ∧ (s.edited first).changes = (s.edited second).changes := by
  have hs := h.canonical
  refine ⟨hs, ?_, hs.differences.1, hs.differences.2, ?_⟩
  · intro key hadded hremoved
    exact hs.added_new key hadded (hs.removed_known key hremoved)
  · intro first second hcurrent
    have hsame : (s.edited second).SameLoaded (s.edited first) := by
      obtain ⟨hfield, hcard, hloaded, hcomplete⟩ := sameLoaded_edited s second
      exact (⟨hfield.symm, hcard.symm, hloaded.symm, hcomplete.symm⟩ : SameLoaded _ s).trans (sameLoaded_edited s first)
    have heq := (h.edited second).canonical.eq_of_current (h.edited first).canonical hsame hcurrent
    exact ⟨heq, by rw [heq]⟩

namespace Example

/-- A field for one node, in which a node was seen from its end while another one was pending. -/
def replacing : RelatedSet := ((RelatedSet.empty "parent" .one).add ⟨1⟩).loadOne ⟨2⟩

theorem reachable_replacing : Reachable "parent" .one replacing := .loadOne ⟨2⟩ (.add ⟨1⟩ .empty)

end Example

/-- The node that was seen is pending removal; it is made current again by setting it, or by adding it and removing the other
one. -/
theorem parent_set_or_added : Example.replacing.removed = {⟨2⟩} ∧
    Example.replacing.removed = Example.replacing.known \ Example.replacing.current ∧
      Example.replacing.edited [.set (some ⟨2⟩)] = Example.replacing.edited [.add ⟨3⟩, .add ⟨2⟩, .remove ⟨1⟩, .remove ⟨3⟩] := by
  obtain ⟨_, _, _, hremoved, hsame⟩ := one_state_for_each_view Example.reachable_replacing
  exact ⟨by decide +kernel, hremoved, (hsame _ _ (by decide +kernel)).1⟩

end RelatedSet

end EntityGraph
