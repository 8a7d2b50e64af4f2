import EntityGraph.Node.RelatedSet
import EntityGraph.Proofs.Collections

/-!
# Related nodes over local changes and loading

A `RelatedSet` that is reached from the empty one by local changes and by what the store shows is canonical: what is removed is
loaded, what is added is not, and what is loaded is present where it is complete and not empty where it is partial. Each
operation is described by its effect on what is known and on the changes.
-/

namespace EntityGraph

namespace RelatedSet

/-- The sets reached from the empty one by local changes and by what the store shows. -/
inductive Reachable (field : String) (cardinality : Cardinality) : RelatedSet → Prop
  | empty : Reachable field cardinality (.empty field cardinality)
  | add {s : RelatedSet} (key : NodeKey) : Reachable field cardinality s → Reachable field cardinality (s.add key)
  | remove {s : RelatedSet} (key : NodeKey) : Reachable field cardinality s → Reachable field cardinality (s.remove key)
  | set {s : RelatedSet} (key? : Option NodeKey) : Reachable field cardinality s → Reachable field cardinality (s.set key?)
  | load {s : RelatedSet} (keys : KeySet) : Reachable field cardinality s → Reachable field cardinality (s.load keys)
  | loadOne {s : RelatedSet} (key : NodeKey) : Reachable field cardinality s → Reachable field cardinality (s.loadOne key)
  | unload {s : RelatedSet} (key : NodeKey) : Reachable field cardinality s → Reachable field cardinality (s.unload key)
  | commit {s : RelatedSet} : Reachable field cardinality s → Reachable field cardinality s.commit

/-- The one form that a set has for what is loaded and for the view that clients have of it. -/
structure Canonical (s : RelatedSet) : Prop where
  removed_known : ∀ key ∈ s.removed, key ∈ s.known
  added_new : ∀ key ∈ s.added, key ∉ s.known
  loaded_of_complete : s.complete = true → s.loaded.isSome = true
  nonempty_of_partial : s.complete = false → ∀ keys, s.loaded = some keys → keys ≠ ∅

variable {s : RelatedSet} {key k : NodeKey}

/-! ## Membership -/

theorem mem_current_iff : k ∈ s.current ↔ k ∈ s.known ∧ k ∉ s.removed ∨ k ∈ s.added := by
  rw [current, Std.ExtTreeSet.mem_union_iff, mem_filter_iff, Bool.not_eq_true', contains_eq_false_iff]

theorem hasChanges_eq_false_iff : s.hasChanges = false ↔ s.added = ∅ ∧ s.removed = ∅ := by
  simp [hasChanges]

/-- Without changes clients see what is loaded. -/
theorem current_eq_known (h : s.hasChanges = false) : s.current = s.known := by
  obtain ⟨ha, hr⟩ := hasChanges_eq_false_iff.mp h
  refine Std.ExtTreeSet.ext_mem fun k => ?_
  rw [mem_current_iff, ha, hr]
  simp

theorem known_eq_empty (h : s.loaded = none) : s.known = ∅ := by
  rw [known, h]
  rfl

theorem known_eq {keys : KeySet} (h : s.loaded = some keys) : s.known = keys := by
  rw [known, h]
  rfl

theorem known_loadOne_one (h : s.cardinality = .one) : (s.loadOne key).known = {key} := by
  simp [loadOne, h, known]

theorem mem_known_loadOne_many_iff (h : s.cardinality = .many) : k ∈ (s.loadOne key).known ↔ k = key ∨ k ∈ s.known := by
  have hk : (s.loadOne key).known = s.known.insert key := by simp [loadOne, h, known]
  rw [hk, mem_insert_iff]

theorem mem_known_unload_iff : k ∈ (s.unload key).known ↔ k ∈ s.known ∧ k ≠ key := by
  cases hl : s.loaded with
  | none => simp [unload, known, hl]
  | some keys =>
    rw [known_eq hl, ← mem_erase_iff]
    -- A partial set that becomes empty is forgotten, which has no effect on its members.
    by_cases he : (!s.complete && (keys.erase key).isEmpty) = true
    · have hempty : keys.erase key = ∅ := Std.ExtTreeSet.isEmpty_iff.mp (Bool.and_eq_true_iff.mp he).2
      have hnone : (s.unload key).loaded = none := by
        simp only [unload, hl, Option.map_some, Option.any_some, if_pos he]
      rw [known_eq_empty hnone, hempty]
    · have hsome : (s.unload key).loaded = some (keys.erase key) := by
        simp only [unload, hl, Option.map_some, Option.any_some, if_neg he]
      rw [known_eq hsome]

theorem known_commit : s.commit.known = s.current := by
  rw [known, commit]
  dsimp only
  by_cases h : (s.isLoaded || !s.current.isEmpty) = true
  · rw [if_pos h]
    rfl
  · rw [if_neg h]
    simp only [Bool.or_eq_true, not_or, Bool.not_eq_true', Bool.not_eq_false] at h
    exact (Std.ExtTreeSet.isEmpty_iff.mp h.2).symm

/-! ## What the operations leave as it is -/

/-- What an operation keeps is kept when it is done with several keys. -/
theorem foldl_induction {motive : RelatedSet → Prop} {op : RelatedSet → NodeKey → RelatedSet}
    (hop : ∀ s key, motive s → motive (op s key)) (keys : List NodeKey) (h : motive s) : motive (keys.foldl op s) := by
  induction keys generalizing s with
  | nil => exact h
  | cons key keys ih => exact ih (hop s key h)

/-- Local replacement is made of removals and an addition. -/
theorem set_induction {motive : RelatedSet → Prop} (hadd : ∀ s key, motive s → motive (s.add key))
    (hremove : ∀ s key, motive s → motive (s.remove key)) (key? : Option NodeKey) (h : motive s) : motive (s.set key?) := by
  unfold set
  cases key? with
  | none => exact foldl_induction hremove _ h
  | some key => exact hadd _ _ (foldl_induction hremove _ h)

theorem add_shape (s : RelatedSet) (key : NodeKey) : (s.add key).field = s.field ∧
    (s.add key).cardinality = s.cardinality ∧ (s.add key).loaded = s.loaded ∧ (s.add key).complete = s.complete := by
  unfold add
  split
  · exact ⟨rfl, rfl, rfl, rfl⟩
  · split <;> exact ⟨rfl, rfl, rfl, rfl⟩

theorem remove_shape (s : RelatedSet) (key : NodeKey) : (s.remove key).field = s.field ∧
    (s.remove key).cardinality = s.cardinality ∧ (s.remove key).loaded = s.loaded ∧
      (s.remove key).complete = s.complete := by
  unfold remove
  split
  · exact ⟨rfl, rfl, rfl, rfl⟩
  · split <;> exact ⟨rfl, rfl, rfl, rfl⟩

theorem loadOne_shape (s : RelatedSet) (key : NodeKey) :
    (s.loadOne key).field = s.field ∧ (s.loadOne key).cardinality = s.cardinality := by
  unfold loadOne
  split <;> exact ⟨rfl, rfl⟩

/-- A reachable set keeps the field and the cardinality it was made with. -/
theorem Reachable.shape {field : String} {cardinality : Cardinality} (h : Reachable field cardinality s) :
    s.field = field ∧ s.cardinality = cardinality := by
  induction h with
  | empty => exact ⟨rfl, rfl⟩
  | @add s key _ ih => rw [(add_shape s key).1, (add_shape s key).2.1]; exact ih
  | @remove s key _ ih => rw [(remove_shape s key).1, (remove_shape s key).2.1]; exact ih
  | @set s key? _ ih =>
    refine set_induction (motive := fun t => t.field = field ∧ t.cardinality = cardinality) ?_ ?_ key? ih
    · intro t key ht
      rw [(add_shape t key).1, (add_shape t key).2.1]
      exact ht
    · intro t key ht
      rw [(remove_shape t key).1, (remove_shape t key).2.1]
      exact ht
  | load _ _ ih => exact ih
  | @loadOne s key _ ih => rw [(loadOne_shape s key).1, (loadOne_shape s key).2]; exact ih
  | unload _ _ ih => exact ih
  | commit _ ih => exact ih

/-! ## Reachable sets are canonical -/

theorem Canonical.empty (field : String) (cardinality : Cardinality) : Canonical (.empty field cardinality) := by
  refine ⟨?_, ?_, ?_, ?_⟩ <;> simp [RelatedSet.empty]

theorem Canonical.add (h : s.Canonical) (key : NodeKey) : (s.add key).Canonical := by
  obtain ⟨-, -, hl, hc⟩ := add_shape s key
  have hk : (s.add key).known = s.known := by rw [known, known, hl]
  refine ⟨?_, ?_, by rw [hl, hc]; exact h.loaded_of_complete, by rw [hl, hc]; exact h.nonempty_of_partial⟩
  · intro k hm
    rw [hk]
    apply h.removed_known
    unfold RelatedSet.add at hm
    split at hm
    · exact Std.ExtTreeSet.mem_of_mem_erase hm
    · split at hm <;> exact hm
  · intro k hm
    rw [hk]
    unfold RelatedSet.add at hm
    split at hm
    · exact h.added_new k hm
    · split at hm
      · exact h.added_new k hm
      · next hnew =>
        rcases mem_insert_iff.mp hm with rfl | hm
        · simpa using hnew
        · exact h.added_new k hm

theorem Canonical.remove (h : s.Canonical) (key : NodeKey) : (s.remove key).Canonical := by
  obtain ⟨-, -, hl, hc⟩ := remove_shape s key
  have hk : (s.remove key).known = s.known := by rw [known, known, hl]
  refine ⟨?_, ?_, by rw [hl, hc]; exact h.loaded_of_complete, by rw [hl, hc]; exact h.nonempty_of_partial⟩
  · intro k hm
    rw [hk]
    unfold RelatedSet.remove at hm
    split at hm
    · exact h.removed_known k hm
    · split at hm
      · next hold =>
        rcases mem_insert_iff.mp hm with rfl | hm
        · simpa using hold
        · exact h.removed_known k hm
      · exact h.removed_known k hm
  · intro k hm
    rw [hk]
    apply h.added_new
    unfold RelatedSet.remove at hm
    split at hm
    · exact Std.ExtTreeSet.mem_of_mem_erase hm
    · split at hm <;> exact hm

theorem Canonical.set (h : s.Canonical) (key? : Option NodeKey) : (s.set key?).Canonical :=
  set_induction (motive := Canonical) (fun _ key ht => ht.add key) (fun _ key ht => ht.remove key) key? h

theorem Canonical.load (keys : KeySet) : (s.load keys).Canonical := by
  refine ⟨?_, ?_, fun _ => rfl, fun hc => nomatch hc⟩
  · intro k hm
    exact Std.ExtTreeSet.contains_iff_mem.mp (mem_filter_iff.mp hm).2
  · intro k hm
    have hk := (mem_filter_iff.mp hm).2
    rw [Bool.not_eq_true'] at hk
    exact contains_eq_false_iff.mp hk

theorem Canonical.loadOne (h : s.Canonical) (key : NodeKey) : (s.loadOne key).Canonical := by
  cases hc : s.cardinality with
  | one =>
    have hk : (s.loadOne key).known = {key} := known_loadOne_one hc
    refine ⟨?_, ?_, by simp [RelatedSet.loadOne, hc], by simp [RelatedSet.loadOne, hc]⟩
    · intro k hm
      rw [hk]
      simp only [RelatedSet.loadOne, hc] at hm
      split at hm
      · exact hm
      · simp at hm
    · intro k hm
      rw [hk]
      simp only [RelatedSet.loadOne, hc] at hm
      rw [mem_singleton_iff]
      exact (mem_erase_iff.mp hm).2
  | many =>
    have hloaded : (s.loadOne key).loaded = some (s.known.insert key) := by simp [RelatedSet.loadOne, hc]
    have hcomplete : (s.loadOne key).complete = s.complete := by simp [RelatedSet.loadOne, hc]
    refine ⟨?_, ?_, fun _ => by rw [hloaded]; rfl, ?_⟩
    · intro k hm
      simp only [RelatedSet.loadOne, hc] at hm
      exact (mem_known_loadOne_many_iff hc).mpr (Or.inr (h.removed_known k hm))
    · intro k hm hk
      simp only [RelatedSet.loadOne, hc] at hm
      obtain ⟨ha, hne⟩ := mem_erase_iff.mp hm
      rcases (mem_known_loadOne_many_iff hc).mp hk with rfl | hk
      · exact hne rfl
      · exact h.added_new k ha hk
    · intro _ keys hkeys
      obtain rfl := Option.some.inj (hloaded.symm.trans hkeys)
      exact Std.ExtTreeSet.insert_ne_empty

theorem Canonical.unload (h : s.Canonical) (key : NodeKey) : (s.unload key).Canonical := by
  refine ⟨?_, ?_, ?_, ?_⟩
  · intro k hm
    obtain ⟨hr, hne⟩ := mem_erase_iff.mp hm
    exact mem_known_unload_iff.mpr ⟨h.removed_known k hr, hne⟩
  · intro k hm hk
    exact h.added_new k (mem_erase_iff.mp hm).1 (mem_known_unload_iff.mp hk).1
  · intro hc
    have hc : s.complete = true := hc
    obtain ⟨keys, hl⟩ := Option.isSome_iff_exists.mp (h.loaded_of_complete hc)
    simp [RelatedSet.unload, hc, hl]
  · intro hc keys hkeys
    have hc : s.complete = false := hc
    cases hl : s.loaded with
    | none => simp [RelatedSet.unload, hl] at hkeys
    | some old =>
      by_cases he : (old.erase key).isEmpty = true
      · simp [RelatedSet.unload, hc, hl, he] at hkeys
      · simp only [RelatedSet.unload, hc, hl, Option.map_some, Option.any_some, Bool.not_false, Bool.true_and, if_neg he,
          Option.some.injEq] at hkeys
        rw [← hkeys]
        exact fun hempty => he (Std.ExtTreeSet.isEmpty_iff.mpr hempty)

theorem Canonical.commit (h : s.Canonical) : s.commit.Canonical := by
  refine ⟨?_, ?_, ?_, ?_⟩
  · simp [RelatedSet.commit]
  · simp [RelatedSet.commit]
  · intro hc
    have hc : s.complete = true := hc
    simp [RelatedSet.commit, isLoaded, hc, h.loaded_of_complete hc]
  · intro hc keys hkeys
    have hc : s.complete = false := hc
    simp only [RelatedSet.commit, isLoaded, hc, Bool.and_false, Bool.false_or] at hkeys
    split at hkeys
    · next hne =>
      obtain rfl := Option.some.inj hkeys
      simpa using hne
    · simp at hkeys

theorem Reachable.canonical {field : String} {cardinality : Cardinality} (h : Reachable field cardinality s) : s.Canonical := by
  induction h with
  | empty => exact Canonical.empty field cardinality
  | add key _ ih => exact ih.add key
  | remove key _ ih => exact ih.remove key
  | set key? _ ih => exact ih.set key?
  | load keys _ _ => exact Canonical.load keys
  | loadOne key _ ih => exact ih.loadOne key
  | unload key _ ih => exact ih.unload key
  | commit _ ih => exact ih.commit

/-! ## Sets without changes -/

/-- What is loaded completely is marked as complete, and the other way round. -/
theorem Canonical.isLoaded_eq (h : s.Canonical) : s.isLoaded = s.complete := by
  cases hc : s.complete with
  | true => simp [isLoaded, hc, h.loaded_of_complete hc]
  | false => simp [isLoaded, hc]

theorem hasChanges_commit (s : RelatedSet) : s.commit.hasChanges = false := by simp [hasChanges, RelatedSet.commit]

/-- Where nothing was changed there is nothing to take over. -/
theorem Canonical.commit_eq_self (h : s.Canonical) (hun : s.hasChanges = false) : s.commit = s := by
  obtain ⟨hadded, hremoved⟩ := hasChanges_eq_false_iff.mp hun
  have hloaded : (if s.isLoaded || !s.current.isEmpty then some s.current else none) = s.loaded := by
    rw [current_eq_known hun, h.isLoaded_eq]
    cases hl : s.loaded with
    | none =>
      have hcomplete : s.complete = false := by
        by_contra hc
        have hsome := h.loaded_of_complete (by simpa using hc)
        simp [hl] at hsome
      simp [known_eq_empty hl, hcomplete]
    | some keys =>
      rw [known_eq hl]
      refine if_pos ?_
      cases hc : s.complete with
      | true => rfl
      | false => simpa using h.nonempty_of_partial hc keys hl
  rw [RelatedSet.commit, hloaded, ← hadded]
  exact congrArg (fun removed => { s with removed := removed }) (hadded.trans hremoved.symm)

theorem hasChanges_loadOne (h : s.hasChanges = false) (key : NodeKey) : (s.loadOne key).hasChanges = false := by
  obtain ⟨ha, hr⟩ := hasChanges_eq_false_iff.mp h
  have he : (∅ : KeySet).erase key = ∅ := Std.ExtTreeSet.ext_mem fun k => by simp
  rw [hasChanges_eq_false_iff]
  cases hc : s.cardinality with
  | one => simp [RelatedSet.loadOne, hc, ha, hr, he]
  | many => simp [RelatedSet.loadOne, hc, ha, hr, he]

theorem hasChanges_load (h : s.hasChanges = false) (keys : KeySet) : (s.load keys).hasChanges = false := by
  obtain ⟨hadded, hremoved⟩ := hasChanges_eq_false_iff.mp h
  have hfilter : ∀ p : NodeKey → Bool, (∅ : KeySet).filter p = ∅ := fun p => Std.ExtTreeSet.ext_mem fun k => by simp
  exact hasChanges_eq_false_iff.mpr ⟨by rw [load, hadded, hfilter], by rw [load, hremoved, hfilter]⟩

theorem hasChanges_unload (h : s.hasChanges = false) (key : NodeKey) : (s.unload key).hasChanges = false := by
  obtain ⟨ha, hr⟩ := hasChanges_eq_false_iff.mp h
  have he : (∅ : KeySet).erase key = ∅ := Std.ExtTreeSet.ext_mem fun k => by simp
  rw [hasChanges_eq_false_iff]
  exact ⟨by rw [RelatedSet.unload, ha, he], by rw [RelatedSet.unload, hr, he]⟩

theorem foldl_unload_shape (s : RelatedSet) (keys : List NodeKey) :
    (keys.foldl unload s).cardinality = s.cardinality ∧ (keys.foldl unload s).complete = s.complete := by
  induction keys generalizing s with
  | nil => exact ⟨rfl, rfl⟩
  | cons key keys ih => exact ih (s.unload key)

theorem mem_known_foldl_unload_iff {keys : List NodeKey} : k ∈ (keys.foldl unload s).known ↔ k ∈ s.known ∧ k ∉ keys := by
  induction keys generalizing s with
  | nil => simp
  | cons key keys ih => rw [List.foldl_cons, ih, mem_known_unload_iff, List.mem_cons, not_or, and_assoc]

/-! ## Relating a node where nothing was changed -/

/-- Relates a node, in place of any other where the field holds one node. -/
def relate (s : RelatedSet) (key : NodeKey) : RelatedSet :=
  match s.cardinality with
  | .one => s.set (some key)
  | .many => s.add key

/-- A set in which a node was related, in terms of the set before, which had no changes. -/
structure Relates (key : NodeKey) (s t : RelatedSet) : Prop where
  cardinality : t.cardinality = s.cardinality
  known : t.known = s.known
  added : ∀ k, k ∈ t.added ↔ k = key ∧ key ∉ s.known
  removed : ∀ k, k ∈ t.removed ↔ s.cardinality = .one ∧ k ∈ s.known ∧ k ≠ key

/-- Removing loaded nodes when nothing was added marks them as removed. -/
theorem foldl_remove (hadded : s.added = ∅) {keys : List NodeKey} (hkeys : ∀ key ∈ keys, key ∈ s.known) :
    (keys.foldl remove s).cardinality = s.cardinality ∧ (keys.foldl remove s).known = s.known ∧
      (keys.foldl remove s).added = ∅ ∧ ∀ k, k ∈ (keys.foldl remove s).removed ↔ k ∈ s.removed ∨ k ∈ keys := by
  induction keys generalizing s with
  | nil => exact ⟨rfl, rfl, hadded, by simp⟩
  | cons key keys ih =>
    have hremove : s.remove key = { s with removed := s.removed.insert key } := by
      have hknown : s.known.contains key = true := Std.ExtTreeSet.contains_iff_mem.mpr (hkeys key List.mem_cons_self)
      simp [remove, hadded, hknown]
    rw [List.foldl_cons, hremove]
    obtain ⟨hc, hk, ha, hr⟩ := ih (s := { s with removed := s.removed.insert key }) hadded
      fun k hk => hkeys k (List.mem_cons_of_mem _ hk)
    refine ⟨hc, hk, ha, fun k => ?_⟩
    rw [hr, mem_insert_iff, List.mem_cons, or_assoc, or_left_comm]

/-- Adding a node when no other was added, and it was not removed, adds it unless it is loaded. -/
theorem add_of_added_eq_empty (hadded : s.added = ∅) {key : NodeKey} (hremoved : key ∉ s.removed) :
    (∀ k, k ∈ (s.add key).added ↔ k = key ∧ key ∉ s.known) ∧ (s.add key).removed = s.removed := by
  have hr : s.removed.contains key = false := contains_eq_false_iff.mpr hremoved
  by_cases hk : key ∈ s.known
  · have hknown : s.known.contains key = true := Std.ExtTreeSet.contains_iff_mem.mpr hk
    have hadd : s.add key = s := by simp [add, hr, hknown]
    simp [hadd, hadded, hk]
  · have hknown : s.known.contains key = false := contains_eq_false_iff.mpr hk
    have hadd : s.add key = { s with added := s.added.insert key } := by simp [add, hr, hknown]
    refine ⟨fun k => ?_, by rw [hadd]⟩
    simp only [hadd, mem_insert_iff, hadded, Std.ExtTreeSet.not_mem_empty, or_false, hk, not_false_eq_true, and_true]

theorem relates_relate (h : s.hasChanges = false) (key : NodeKey) : s.Relates key (s.relate key) := by
  obtain ⟨hadded, hremoved⟩ := hasChanges_eq_false_iff.mp h
  cases hc : s.cardinality with
  | many =>
    have hrelate : s.relate key = s.add key := by rw [relate, hc]
    obtain ⟨-, hcard, hloaded, -⟩ := add_shape s key
    have hkept : key ∉ s.removed := by simp [hremoved]
    obtain ⟨hadd, hsame⟩ := add_of_added_eq_empty hadded hkept
    rw [hrelate]
    exact ⟨hcard, by rw [known, known, hloaded], hadd, fun k => by simp [hsame, hremoved, hc]⟩
  | one =>
    let others := s.current.toList.filter fun k => some k ≠ some key
    let cleared := others.foldl remove s
    have hrelate : s.relate key = cleared.add key := by rw [relate, hc]; rfl
    have hothers : ∀ k, k ∈ others ↔ k ∈ s.known ∧ k ≠ key := by simp [others, current_eq_known h]
    have hloaded : ∀ k ∈ others, k ∈ s.known := fun k hk => ((hothers k).mp hk).1
    obtain ⟨hcard, hknown, hnone, hrest⟩ := foldl_remove hadded hloaded
    have hcleared : ∀ k, k ∈ cleared.removed ↔ k ∈ s.known ∧ k ≠ key := fun k => by simp [cleared, hrest, hremoved, hothers]
    obtain ⟨-, hcard', hloaded', -⟩ := add_shape cleared key
    have hkept : key ∉ cleared.removed := fun hk => ((hcleared key).mp hk).2 rfl
    obtain ⟨hadd, hsame⟩ := add_of_added_eq_empty hnone hkept
    have hk : cleared.known = s.known := hknown
    rw [hrelate]
    refine ⟨hcard'.trans hcard, ?_, fun k => ?_, fun k => ?_⟩
    · rw [known, hloaded', ← known, hk]
    · rw [hadd, hk]
    · rw [hsame, hcleared, hc]
      simp

/-- A field for one node in which a node was related holds this one. -/
theorem Relates.eq_of_mem_current {key k : NodeKey} {t : RelatedSet} (h : s.Relates key t) (hone : s.cardinality = .one)
    (hk : k ∈ t.current) : k = key := by
  rcases mem_current_iff.mp hk with ⟨hknown, hkept⟩ | hadded
  · rw [h.known] at hknown
    by_contra hne
    exact hkept ((h.removed k).mpr ⟨hone, hknown, hne⟩)
  · exact ((h.added k).mp hadded).1

end RelatedSet

end EntityGraph
