import EntityGraph.Proofs.Node.View

/-!
# Changes by id

When the changes of a `RelatedSet` can be expressed by ids, and by which. They are refused when a relationship to one node holds
several, then when a node has no id; otherwise they are the pairs of the owner with what is current and not loaded, and with what
is loaded and not current. Where different nodes have different ids these are the least changes that lead from the pairs of what
is loaded to the pairs of what is current (`RelatedSet.changes_lead_to_current`).
-/

namespace EntityGraph

namespace RelatedSet

variable {s : RelatedSet} {owner : NodeKey} {idOf : NodeKey → Option String}

theorem resolve_eq_ok_iff {key : NodeKey} {id : String} :
    s.resolve idOf key = .ok id ↔ idOf key = some id := by
  rw [resolve]
  cases idOf key with
  | none => simp
  | some other => simpa using eq_comm

theorem mem_pairs_iff {owner : String} {keys : KeySet} {pair : IdPair} :
    pair ∈ pairs idOf owner keys ↔ ∃ key ∈ keys, idOf key = some pair.related ∧ pair.owner = owner := by
  simp only [pairs, List.mem_filterMap, Std.ExtTreeSet.mem_toList, Option.map_eq_some_iff]
  constructor
  · rintro ⟨key, hk, id, hid, rfl⟩
    exact ⟨key, hk, hid, rfl⟩
  · rintro ⟨key, hk, hid, rfl⟩
    exact ⟨key, hk, pair.related, hid, rfl⟩

/-! ## Changes that are made -/

/-- Changes by id are the pairs of the owner with the nodes that were added or removed; all nodes in them have an id. -/
theorem changes_eq_ok {changes : EdgeChanges} (h : s.changes owner idOf = .ok changes) :
    ∃ ownerId, idOf owner = some ownerId ∧
      (∀ key, key ∈ s.known ∨ key ∈ s.added ∨ key ∈ s.removed → ∃ id, idOf key = some id) ∧
      (∀ pair, pair ∈ changes.add ↔
        ∃ key ∈ s.added, key ∉ s.known ∧ idOf key = some pair.related ∧ pair.owner = ownerId) ∧
      ∀ pair, pair ∈ changes.remove ↔
        ∃ key ∈ s.removed, key ∈ s.known ∧ idOf key = some pair.related ∧ pair.owner = ownerId := by
  unfold RelatedSet.changes at h
  split at h
  · exact absurd h throw_ne_ok
  · simp only [bind_eq_ok_iff] at h
    obtain ⟨ownerId, ho, _, hall, hc⟩ := h
    obtain rfl := Except.ok.inj hc
    refine ⟨ownerId, resolve_eq_ok_iff.mp ho, fun key hk => ?_, fun pair => ?_, fun pair => ?_⟩
    · have hmem : key ∈ s.known.toList ++ s.added.toList ++ s.removed.toList := by
        simpa [or_assoc] using hk
      obtain ⟨id, hid, _⟩ := bind_eq_ok_iff.mp (forM_eq_ok_iff.mp hall key hmem)
      exact ⟨id, resolve_eq_ok_iff.mp hid⟩
    · simp only [EdgeChanges.ofLists, Std.ExtTreeSet.mem_ofList, List.contains_iff_mem, mem_pairs_iff, mem_filter_iff,
        Bool.not_eq_true', contains_eq_false_iff, and_assoc]
    · simp only [EdgeChanges.ofLists, Std.ExtTreeSet.mem_ofList, List.contains_iff_mem, mem_pairs_iff, mem_filter_iff,
        Std.ExtTreeSet.contains_iff_mem, and_assoc]

/-- Changes that can be expressed by ids leave a field for one node with one at most. -/
theorem size_of_changes_eq_ok {changes : EdgeChanges} (h : s.changes owner idOf = .ok changes) (hone : s.cardinality = .one) :
    s.current.size ≤ 1 := by
  unfold RelatedSet.changes at h
  split at h
  · exact absurd h throw_ne_ok
  · next hmany =>
    have hfew : ¬1 < s.current.size := fun hlt => hmany ⟨hone, hlt⟩
    omega

/-- Changes can be expressed by ids when all nodes have one, and a relationship to one node has at most one. -/
theorem exists_changes {ownerId : String} (ho : idOf owner = some ownerId)
    (hone : s.cardinality = .one → s.current.size ≤ 1)
    (hall : ∀ key, key ∈ s.known ∨ key ∈ s.added ∨ key ∈ s.removed → ∃ id, idOf key = some id) :
    ∃ changes, s.changes owner idOf = .ok changes := by
  have hresolved : (s.known.toList ++ s.added.toList ++ s.removed.toList).forM
      (fun key => do let _ ← s.resolve idOf key) = (.ok () : Except ChangesError Unit) := by
    refine forM_eq_ok_iff.mpr fun key hkey => ?_
    obtain ⟨id, hid⟩ := hall key (by simpa [or_assoc] using hkey)
    exact bind_eq_ok_iff.mpr ⟨id, resolve_eq_ok_iff.mpr hid, rfl⟩
  have hcount : ¬(s.cardinality = .one ∧ 1 < s.current.size) := fun h => Nat.not_lt.mpr (hone h.1) h.2
  rw [RelatedSet.changes, if_neg hcount]
  exact ⟨_, bind_eq_ok_iff.mpr ⟨ownerId, resolve_eq_ok_iff.mpr ho, bind_eq_ok_iff.mpr ⟨(), hresolved, rfl⟩⟩⟩

/-! ## Changes that are refused -/

/-- A relationship to one node holds several. -/
def Overfull (s : RelatedSet) : Prop := s.cardinality = .one ∧ 1 < s.current.size

/-- A node that changes by id mention: the owner, or one that was loaded or added. -/
def Mentions (s : RelatedSet) (owner key : NodeKey) : Prop := key = owner ∨ key ∈ s.known ∨ key ∈ s.added

theorem changes_of_overfull (h : s.Overfull) (owner : NodeKey) (idOf : NodeKey → Option String) :
    s.changes owner idOf = .error (.tooMany s.field s.current.size) := by
  have hmany : s.cardinality = .one ∧ 1 < s.current.size := h
  rw [RelatedSet.changes, if_pos hmany]
  rfl

theorem resolve_failsWith (key : NodeKey) :
    FailsWith (fun e => idOf key = none ∧ e = ChangesError.unresolved s.field key) (s.resolve idOf key) := by
  unfold resolve
  split
  · exact failsWith_pure _
  · next hid => exact failsWith_throw ⟨hid, rfl⟩

/-- Where a relationship to one node does not hold several, changes are only refused because of a node that has no id. -/
theorem changes_failsWith (hfew : ¬s.Overfull) (owner : NodeKey) (idOf : NodeKey → Option String) :
    FailsWith (fun e => ∃ key, (key = owner ∨ key ∈ s.known ∨ key ∈ s.added ∨ key ∈ s.removed) ∧ idOf key = none ∧
      e = ChangesError.unresolved s.field key) (s.changes owner idOf) := by
  have hcount : ¬(s.cardinality = .one ∧ 1 < s.current.size) := hfew
  rw [RelatedSet.changes, if_neg hcount]
  refine FailsWith.bind ?_ fun ownerId _ => FailsWith.bind (.forM fun key hkey => ?_) fun _ _ => failsWith_pure _
  · intro e he
    exact ⟨owner, Or.inl rfl, resolve_failsWith owner e he⟩
  · refine FailsWith.bind (fun e he => ⟨key, Or.inr ?_, resolve_failsWith key e he⟩) fun _ _ => failsWith_pure _
    simpa [or_assoc] using hkey

/-- What was removed is loaded, so that it is mentioned too. -/
theorem Canonical.mentions (h : s.Canonical) {key : NodeKey} (hkey : key ∈ s.known ∨ key ∈ s.added ∨ key ∈ s.removed) :
    s.Mentions owner key := by
  rcases hkey with hknown | hadded | hremoved
  · exact Or.inr (Or.inl hknown)
  · exact Or.inr (Or.inr hadded)
  · exact Or.inr (Or.inl (h.removed_known key hremoved))

theorem Canonical.changes_failsWith_mentioned (h : s.Canonical) (hfew : ¬s.Overfull) :
    FailsWith (fun e => ∃ key, s.Mentions owner key ∧ idOf key = none ∧ e = ChangesError.unresolved s.field key)
      (s.changes owner idOf) := by
  intro e he
  obtain ⟨key, rfl | hkey, hnone, he⟩ := changes_failsWith hfew owner idOf e he
  · exact ⟨key, Or.inl rfl, hnone, he⟩
  · exact ⟨key, h.mentions hkey, hnone, he⟩

/-- Changes are made just when a relationship to one node does not hold several and all nodes mentioned have an id. -/
theorem Canonical.exists_changes_iff (h : s.Canonical) :
    (∃ changes, s.changes owner idOf = .ok changes) ↔ ¬s.Overfull ∧ ∀ key, s.Mentions owner key → ∃ id, idOf key = some id := by
  constructor
  · rintro ⟨changes, hchanges⟩
    obtain ⟨ownerId, ho, hall, _⟩ := changes_eq_ok hchanges
    refine ⟨fun hmany => Nat.not_lt.mpr (size_of_changes_eq_ok hchanges hmany.1) hmany.2, ?_⟩
    rintro key (rfl | hknown | hadded)
    · exact ⟨ownerId, ho⟩
    · exact hall key (Or.inl hknown)
    · exact hall key (Or.inr (Or.inl hadded))
  · rintro ⟨hfew, hall⟩
    obtain ⟨ownerId, ho⟩ := hall owner (Or.inl rfl)
    have hone : s.cardinality = .one → s.current.size ≤ 1 := fun hone => Nat.le_of_not_lt fun hlt => hfew ⟨hone, hlt⟩
    exact exists_changes ho hone fun key hkey => hall key (h.mentions hkey)

theorem Canonical.changes_eq_tooMany_iff (h : s.Canonical) {name : String} {count : Nat} :
    s.changes owner idOf = .error (.tooMany name count) ↔ s.Overfull ∧ name = s.field ∧ count = s.current.size := by
  constructor
  · intro herror
    by_cases hmany : s.Overfull
    · rw [changes_of_overfull hmany] at herror
      cases herror
      exact ⟨hmany, rfl, rfl⟩
    · obtain ⟨_, _, _, he⟩ := h.changes_failsWith_mentioned hmany _ herror
      cases he
  · rintro ⟨hmany, rfl, rfl⟩
    exact changes_of_overfull hmany owner idOf

theorem Canonical.of_changes_eq_unresolved (h : s.Canonical) {name : String} {key : NodeKey}
    (herror : s.changes owner idOf = .error (.unresolved name key)) :
    ¬s.Overfull ∧ name = s.field ∧ s.Mentions owner key ∧ idOf key = none := by
  have hfew : ¬s.Overfull := by
    intro hmany
    rw [changes_of_overfull hmany] at herror
    cases herror
  obtain ⟨missing, hmentions, hnone, he⟩ := h.changes_failsWith_mentioned hfew _ herror
  cases he
  exact ⟨hfew, rfl, hmentions, hnone⟩

theorem Canonical.exists_changes_eq_unresolved_iff (h : s.Canonical) :
    (∃ name key, s.changes owner idOf = .error (.unresolved name key)) ↔
      ¬s.Overfull ∧ ∃ key, s.Mentions owner key ∧ idOf key = none := by
  constructor
  · rintro ⟨name, key, herror⟩
    obtain ⟨hfew, -, hkey⟩ := h.of_changes_eq_unresolved herror
    exact ⟨hfew, key, hkey⟩
  · rintro ⟨hfew, key, hmentions, hnone⟩
    cases hchanges : s.changes owner idOf with
    | error e =>
      obtain ⟨missing, -, -, rfl⟩ := h.changes_failsWith_mentioned hfew e hchanges
      exact ⟨s.field, missing, rfl⟩
    | ok changes =>
      obtain ⟨id, hid⟩ := (h.exists_changes_iff.mp ⟨changes, hchanges⟩).2 key hmentions
      rw [hid] at hnone
      cases hnone

/-! ## Sets of pairs -/

/-- The pairs of an owner with the nodes of a set that have an id, as a set. -/
def pairSet (idOf : NodeKey → Option String) (owner : String) (keys : KeySet) : Std.ExtTreeSet IdPair :=
  .ofList (pairs idOf owner keys) compare

section

variable {ownerId : String} {keys others : KeySet} {pair : IdPair}

theorem mem_pairSet_iff :
    pair ∈ pairSet idOf ownerId keys ↔ ∃ key ∈ keys, idOf key = some pair.related ∧ pair.owner = ownerId := by
  rw [pairSet, Std.ExtTreeSet.mem_ofList, List.contains_iff_mem, mem_pairs_iff]

theorem pairSet_eq_empty_iff (hall : ∀ key ∈ keys, ∃ id, idOf key = some id) : pairSet idOf ownerId keys = ∅ ↔ keys = ∅ := by
  rw [Std.ExtTreeSet.eq_empty_iff_forall_not_mem, Std.ExtTreeSet.eq_empty_iff_forall_not_mem]
  constructor
  · intro h key hkey
    obtain ⟨id, hid⟩ := hall key hkey
    exact h ⟨ownerId, id⟩ (mem_pairSet_iff.mpr ⟨key, hkey, hid, rfl⟩)
  · intro h pair hpair
    obtain ⟨key, hkey, -⟩ := mem_pairSet_iff.mp hpair
    exact h key hkey

/-- Where different nodes have different ids, a pair of two sets is that of a node of both. -/
theorem pairSet_diff
    (hinj : ∀ a b, (a ∈ keys ∨ a ∈ others) → (b ∈ keys ∨ b ∈ others) → idOf a = idOf b → a = b) :
    pairSet idOf ownerId (keys \ others) = pairSet idOf ownerId keys \ pairSet idOf ownerId others := by
  refine Std.ExtTreeSet.ext_mem fun pair => ?_
  simp only [Std.ExtTreeSet.mem_diff_iff, mem_pairSet_iff]
  constructor
  · rintro ⟨key, ⟨hkey, hnot⟩, hid, howner⟩
    refine ⟨⟨key, hkey, hid, howner⟩, ?_⟩
    rintro ⟨other, hother, hid', -⟩
    obtain rfl := hinj key other (Or.inl hkey) (Or.inr hother) (hid.trans hid'.symm)
    exact hnot hother
  · rintro ⟨⟨key, hkey, hid, howner⟩, hnone⟩
    exact ⟨key, ⟨hkey, fun hother => hnone ⟨key, hother, hid, howner⟩⟩, hid, howner⟩

end

/-! ## From what is loaded to what is current -/

theorem mem_current_of_known_or_added {key : NodeKey} (h : key ∈ s.current) : key ∈ s.known ∨ key ∈ s.added := by
  rcases mem_current_iff.mp h with ⟨hknown, -⟩ | hadded
  · exact Or.inl hknown
  · exact Or.inr hadded

/-- The changes that are made are the differences between what is loaded and what is current. -/
theorem Canonical.changes_eq_differences (h : s.Canonical) {changes : EdgeChanges}
    (hchanges : s.changes owner idOf = .ok changes) :
    ∃ ownerId, idOf owner = some ownerId ∧ changes.add = pairSet idOf ownerId (s.current \ s.known) ∧
      changes.remove = pairSet idOf ownerId (s.known \ s.current) := by
  obtain ⟨ownerId, ho, -, hadd, hremove⟩ := changes_eq_ok hchanges
  obtain ⟨hadded, hremoved⟩ := h.differences
  refine ⟨ownerId, ho, Std.ExtTreeSet.ext_mem fun pair => ?_, Std.ExtTreeSet.ext_mem fun pair => ?_⟩
  · rw [hadd, ← hadded, mem_pairSet_iff]
    exact exists_congr fun key => and_congr_right fun hkey => and_iff_right (h.added_new key hkey)
  · rw [hremove, ← hremoved, mem_pairSet_iff]
    exact exists_congr fun key => and_congr_right fun hkey => and_iff_right (h.removed_known key hkey)

/-- Taking from a set what another lacks, and adding what the other has more, makes it the other. -/
theorem diff_diff_union_diff {α : Type} [Ord α] [Std.TransOrd α] [Std.LawfulEqOrd α] (t u : Std.ExtTreeSet α) :
    t \ (t \ u) ∪ (u \ t) = u := by
  refine Std.ExtTreeSet.ext_mem fun a => ?_
  simp only [Std.ExtTreeSet.mem_union_iff, Std.ExtTreeSet.mem_diff_iff, not_and, not_not]
  by_cases ht : a ∈ t
  · simp [ht]
  · simp [ht]

/-- The changes of a reachable set are refused as holding several just when it is for one node and holds several; else, for a node
without an id, just when the owner or a node that was loaded or added has none. Else they are made: the pairs of the owner with
what is current and not loaded, and with what is loaded and not current, which are none just when no change is pending. Where
different nodes have different ids, removing the one and adding the other leads from the pairs of what is loaded to those of what
is current; all that is removed was there, and nothing that is added was. -/
theorem changes_lead_to_current {field : String} {cardinality : Cardinality} (h : Reachable field cardinality s)
    (owner : NodeKey) (idOf : NodeKey → Option String) :
    (∀ name count, s.changes owner idOf = .error (.tooMany name count) ↔
        (cardinality = .one ∧ 1 < s.current.size) ∧ name = field ∧ count = s.current.size) ∧
      ((∃ name key, s.changes owner idOf = .error (.unresolved name key)) ↔
        ¬(cardinality = .one ∧ 1 < s.current.size) ∧
          ∃ key, (key = owner ∨ key ∈ s.known ∨ key ∈ s.added) ∧ idOf key = none) ∧
      (∀ name key, s.changes owner idOf = .error (.unresolved name key) →
        name = field ∧ (key = owner ∨ key ∈ s.known ∨ key ∈ s.added) ∧ idOf key = none) ∧
      (¬(cardinality = .one ∧ 1 < s.current.size) →
        (∀ key, key = owner ∨ key ∈ s.known ∨ key ∈ s.added → ∃ id, idOf key = some id) →
        ∃ ownerId changes, idOf owner = some ownerId ∧ s.changes owner idOf = .ok changes ∧
          changes.add = pairSet idOf ownerId (s.current \ s.known) ∧
          changes.remove = pairSet idOf ownerId (s.known \ s.current) ∧
          (changes.isEmpty = true ↔ s.hasChanges = false) ∧
          ((∀ a b, (a ∈ s.known ∨ a ∈ s.added) → (b ∈ s.known ∨ b ∈ s.added) → idOf a = idOf b → a = b) →
            pairSet idOf ownerId s.known \ changes.remove ∪ changes.add = pairSet idOf ownerId s.current ∧
            (∀ pair ∈ changes.add, pair ∉ pairSet idOf ownerId s.known) ∧
            ∀ pair ∈ changes.remove, pair ∈ pairSet idOf ownerId s.known)) := by
  have hs := h.canonical
  obtain ⟨rfl, rfl⟩ := h.shape
  refine ⟨fun name count => hs.changes_eq_tooMany_iff, hs.exists_changes_eq_unresolved_iff, ?_, ?_⟩
  · intro name key herror
    exact (hs.of_changes_eq_unresolved herror).2
  · intro hfew hall
    obtain ⟨changes, hchanges⟩ := hs.exists_changes_iff.mpr ⟨hfew, hall⟩
    obtain ⟨ownerId, ho, hadd, hremove⟩ := hs.changes_eq_differences hchanges
    have hloaded : ∀ key, key ∈ s.known ∨ key ∈ s.added → ∃ id, idOf key = some id := fun key hkey => hall key (Or.inr hkey)
    refine ⟨ownerId, changes, ho, hchanges, hadd, hremove, ?_, ?_⟩
    · rw [EdgeChanges.isEmpty, Bool.and_eq_true, Std.ExtTreeSet.isEmpty_iff, Std.ExtTreeSet.isEmpty_iff, hadd, hremove,
        ← hs.differences.1, ← hs.differences.2, pairSet_eq_empty_iff fun key hkey => hloaded key (Or.inr hkey),
        pairSet_eq_empty_iff fun key hkey => hloaded key (Or.inl (hs.removed_known key hkey)), hasChanges_eq_false_iff]
    · intro hinj
      have hcurrent : ∀ key, key ∈ s.known ∨ key ∈ s.current → key ∈ s.known ∨ key ∈ s.added := by
        rintro key (hknown | hkey)
        · exact Or.inl hknown
        · exact mem_current_of_known_or_added hkey
      have hnew : changes.add = pairSet idOf ownerId s.current \ pairSet idOf ownerId s.known :=
        hadd.trans (pairSet_diff fun a b ha hb => hinj a b (hcurrent a ha.symm) (hcurrent b hb.symm))
      have hgone : changes.remove = pairSet idOf ownerId s.known \ pairSet idOf ownerId s.current :=
        hremove.trans (pairSet_diff fun a b ha hb => hinj a b (hcurrent a ha) (hcurrent b hb))
      refine ⟨?_, fun pair hpair => ?_, fun pair hpair => ?_⟩
      · rw [hnew, hgone, diff_diff_union_diff]
      · rw [hnew] at hpair
        exact (Std.ExtTreeSet.mem_diff_iff.mp hpair).2
      · rw [hgone] at hpair
        exact (Std.ExtTreeSet.mem_diff_iff.mp hpair).1

namespace Example

/-- A field for several nodes that was loaded with two, of which one was removed; then a third one was added. -/
def exchanged : RelatedSet := (((RelatedSet.empty "children" .many).load (.ofList [⟨1⟩, ⟨2⟩] compare)).remove ⟨1⟩).add ⟨3⟩

theorem reachable_exchanged : Reachable "children" .many exchanged := .add ⟨3⟩ (.remove ⟨1⟩ (.load _ .empty))

/-- The ids of four nodes. -/
def shortIdOf (key : NodeKey) : Option String := ["p", "a", "b", "c"][key.val]?

end Example

/-- The exchange is made by adding one pair and removing one; for an owner without an id it is refused. -/
theorem child_exchanged :
    (∃ changes, Example.exchanged.changes ⟨0⟩ Example.shortIdOf = .ok changes ∧ changes.add = .ofList [⟨"p", "c"⟩] compare ∧
        changes.remove = .ofList [⟨"p", "a"⟩] compare ∧
        pairSet Example.shortIdOf "p" Example.exchanged.known \ changes.remove ∪ changes.add =
          .ofList [⟨"p", "b"⟩, ⟨"p", "c"⟩] compare) ∧
      ∃ name key, Example.exchanged.changes ⟨4⟩ Example.shortIdOf = .error (.unresolved name key) := by
  obtain ⟨_, _, _, hmade⟩ := changes_lead_to_current Example.reachable_exchanged ⟨0⟩ Example.shortIdOf
  obtain ⟨_, hrefused, _, _⟩ := changes_lead_to_current Example.reachable_exchanged ⟨4⟩ Example.shortIdOf
  have hmentioned : Example.exchanged.known.toList ++ Example.exchanged.added.toList = [⟨1⟩, ⟨2⟩, ⟨3⟩] := by decide +kernel
  have hkeys : ∀ key, key ∈ Example.exchanged.known ∨ key ∈ Example.exchanged.added → key ∈ [(⟨1⟩ : NodeKey), ⟨2⟩, ⟨3⟩] := by
    intro key hkey
    rw [← hmentioned, List.mem_append, Std.ExtTreeSet.mem_toList, Std.ExtTreeSet.mem_toList]
    exact hkey
  constructor
  · obtain ⟨ownerId, changes, ho, hchanges, hadd, hremove, -, hlead⟩ := hmade (fun hone => nomatch hone.1) (by
      rintro key (rfl | hkey)
      · exact ⟨"p", rfl⟩
      · have hall : ∀ key ∈ [(⟨1⟩ : NodeKey), ⟨2⟩, ⟨3⟩], (Example.shortIdOf key).isSome := by decide
        exact Option.isSome_iff_exists.mp (hall key (hkeys key hkey)))
    have hdifferent : ∀ a ∈ [(⟨1⟩ : NodeKey), ⟨2⟩, ⟨3⟩], ∀ b ∈ [(⟨1⟩ : NodeKey), ⟨2⟩, ⟨3⟩],
        Example.shortIdOf a = Example.shortIdOf b → a = b := by decide
    obtain ⟨hcurrent, -, -⟩ := hlead fun a b ha hb => hdifferent a (hkeys a ha) b (hkeys b hb)
    obtain rfl : ownerId = "p" := (Option.some.inj ho).symm
    exact ⟨changes, hchanges, hadd.trans (by decide +kernel), hremove.trans (by decide +kernel),
      hcurrent.trans (by decide +kernel)⟩
  · exact hrefused.mpr ⟨fun hone => (nomatch hone.1), ⟨4⟩, Or.inl rfl, rfl⟩

end RelatedSet

end EntityGraph
