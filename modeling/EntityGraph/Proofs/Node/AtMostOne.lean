import EntityGraph.Proofs.Node.Changes
import EntityGraph.Proofs.Node.Current
import Mathlib.Data.List.Induction

/-!
# Fields for one node

A field for one node is set by clients, shown by the store, as a whole or from the other end, and saved. Setting it, and a node seen
from its end, leave it with one node at most. Fetching it again may not: a node that the store shows joins one that is pending,
unless it was loaded before (`RelatedSet.Clashes`). So the field holds several nodes just when this has happened
(`RelatedSet.holds_one_iff`), and then its changes cannot be expressed by ids.
-/

namespace EntityGraph

/-- What happens to a field for one node. -/
inductive ValueEvent
  /-- A client sets it. -/
  | set (key? : Option NodeKey)
  /-- The store shows the node it has for the field, or that there is none. -/
  | load (key? : Option NodeKey)
  /-- The store shows, from a node's end, that it is related. -/
  | loadOne (key : NodeKey)
  /-- The edge to a node was deleted from its end. -/
  | unload (key : NodeKey)
  /-- The changes were saved. -/
  | commit
deriving DecidableEq, Repr

/-- The related nodes after an event. -/
def ValueEvent.apply (s : RelatedSet) : ValueEvent → RelatedSet
  | set key? => s.set key?
  | load key? => s.load (key?.elim ∅ fun key => {key})
  | loadOne key => s.loadOne key
  | unload key => s.unload key
  | commit => s.commit

namespace RelatedSet

/-- A field for one node after events in the order of the list. -/
def ofEvents (field : String) (events : List ValueEvent) : RelatedSet := events.foldl ValueEvent.apply (.empty field .one)

/-- A node is pending, and the one that the store shows is another one that was not loaded before. -/
def Clashes (s : RelatedSet) (key : NodeKey) : Prop := key ∉ s.known ∧ ∃ other ∈ s.added, other ≠ key

variable {s : RelatedSet} {field : String} {events : List ValueEvent}

theorem ofEvents_append (field : String) (events : List ValueEvent) (event : ValueEvent) :
    ofEvents field (events ++ [event]) = event.apply (ofEvents field events) := by
  simp [ofEvents]

theorem Reachable.applyEvent {cardinality : Cardinality} (h : Reachable field cardinality s) (event : ValueEvent) :
    Reachable field cardinality (event.apply s) := by
  cases event with
  | set key? => exact .set key? h
  | load key? => exact .load _ h
  | loadOne key => exact .loadOne key h
  | unload key => exact .unload key h
  | commit => exact .commit h

theorem reachable_ofEvents (field : String) (events : List ValueEvent) : Reachable field .one (ofEvents field events) := by
  induction events using List.reverseRecOn with
  | nil => exact .empty
  | append_singleton events event ih =>
    rw [ofEvents_append]
    exact ih.applyEvent event

/-! ## One event -/

theorem size_current_le_one_iff : s.current.size ≤ 1 ↔ ∀ a ∈ s.current, ∀ b ∈ s.current, a = b :=
  ⟨fun h _ ha _ hb => eq_of_size_le_one h ha hb, size_le_one_of_forall_eq⟩

/-- The store shows the node of a field: it holds one node at most afterwards unless this one clashes with a pending one. -/
theorem size_load_le_one_iff (h : s.Canonical) (hone : s.current.size ≤ 1) (key : NodeKey) :
    (s.load {key}).current.size ≤ 1 ↔ ¬s.Clashes key := by
  rw [size_current_le_one_iff] at hone ⊢
  simp only [mem_current_load_iff h, mem_singleton_iff]
  constructor
  · rintro hall ⟨hnew, other, hadded, hne⟩
    exact hne (hall other (Or.inr hadded) key (Or.inl ⟨rfl, fun hr => hnew (h.removed_known key hr)⟩))
  · intro hclash
    -- A node that is shown and counts is the pending one: they were both current before, or it is no other one.
    have hpending : key ∉ s.removed → ∀ other ∈ s.added, other = key := by
      intro hkept other hadded
      by_contra hne
      have hknown : key ∈ s.known := by
        by_contra hnew
        exact hclash ⟨hnew, other, hadded, hne⟩
      exact hne (hone other (mem_current_iff.mpr (Or.inr hadded)) key (mem_current_iff.mpr (Or.inl ⟨hknown, hkept⟩)))
    rintro a (⟨rfl, ha⟩ | ha) b (⟨rfl, hb⟩ | hb)
    · rfl
    · exact (hpending ha b hb).symm
    · exact hpending hb a ha
    · exact hone a (mem_current_iff.mpr (Or.inr ha)) b (mem_current_iff.mpr (Or.inr hb))

/-- Every other event leaves a field for one node with one at most. -/
theorem size_apply_le_one (h : s.Canonical) (hc : s.cardinality = .one) (hone : s.current.size ≤ 1) (event : ValueEvent)
    (hshown : ∀ key, event = .load (some key) → ¬s.Clashes key) : (event.apply s).current.size ≤ 1 := by
  cases event with
  | set key? =>
    simp only [ValueEvent.apply, size_current_le_one_iff, mem_current_set_iff h]
    rintro a rfl b hb
    exact Option.some.inj hb
  | load key? =>
    cases key? with
    | some key => exact (size_load_le_one_iff h hone key).mpr (hshown key rfl)
    | none =>
      rw [size_current_le_one_iff] at hone ⊢
      simp only [ValueEvent.apply, Option.elim_none, mem_current_load_iff h, Std.ExtTreeSet.not_mem_empty, false_and, false_or]
      exact fun a ha b hb => hone a (mem_current_iff.mpr (Or.inr ha)) b (mem_current_iff.mpr (Or.inr hb))
  | loadOne key =>
    rw [size_current_le_one_iff] at hone ⊢
    simp only [ValueEvent.apply, mem_current_loadOne_one_iff hc]
    rintro a (⟨ha, hne⟩ | ⟨rfl, -, hothers⟩) b (⟨hb, hne'⟩ | ⟨rfl, -, hothers'⟩)
    · exact hone a (mem_current_iff.mpr (Or.inr ha)) b (mem_current_iff.mpr (Or.inr hb))
    · exact hothers' a ha
    · exact (hothers b hb).symm
    · rfl
  | unload key =>
    rw [size_current_le_one_iff] at hone ⊢
    simp only [ValueEvent.apply, mem_current_unload_iff]
    exact fun a ha b hb => hone a ha.1 b hb.1
  | commit => exact (congrArg (·.size ≤ 1) current_commit).mpr hone

/-- A field with one node at most has changes by id unless a node has no id. -/
theorem changes_failsWith_unresolved (hone : s.current.size ≤ 1) (owner : NodeKey) (idOf : NodeKey → Option String) :
    FailsWith (fun e => ∃ key, e = ChangesError.unresolved s.field key) (s.changes owner idOf) := by
  have hfew : ¬s.Overfull := fun h => absurd h.2 (Nat.not_lt.mpr hone)
  intro e he
  obtain ⟨key, -, -, he⟩ := changes_failsWith hfew owner idOf e he
  exact ⟨key, he⟩

/-! ## Events in a row -/

/-- Throughout a row of events a field for one node holds one at most, and its changes are never refused for holding several,
just when no node that the store shows for it clashes with a pending one. -/
theorem holds_one_iff (field : String) (events : List ValueEvent) :
    (∀ seen, seen <+: events → (ofEvents field seen).current.size ≤ 1 ∧
      ∀ owner idOf name count, (ofEvents field seen).changes owner idOf ≠ .error (.tooMany name count)) ↔
    ∀ seen key, seen ++ [.load (some key)] <+: events → ¬(ofEvents field seen).Clashes key := by
  constructor
  · intro hall seen key hseen
    have hone := (hall seen ((List.prefix_append ..).trans hseen)).1
    have hafter := (hall _ hseen).1
    rw [ofEvents_append] at hafter
    exact (size_load_le_one_iff (reachable_ofEvents field seen).canonical hone key).mp hafter
  · intro hshown seen hseen
    have hone : (ofEvents field seen).current.size ≤ 1 := by
      induction seen using List.reverseRecOn with
      | nil => simp [ofEvents, size_current_le_one_iff, mem_current_iff, RelatedSet.empty, known]
      | append_singleton seen event ih =>
        have hreach := reachable_ofEvents field seen
        rw [ofEvents_append]
        refine size_apply_le_one hreach.canonical hreach.shape.2 (ih ((List.prefix_append ..).trans hseen)) event ?_
        rintro key rfl
        exact hshown seen key hseen
    refine ⟨hone, fun owner idOf name count herror => ?_⟩
    obtain ⟨key, he⟩ := changes_failsWith_unresolved hone owner idOf _ herror
    cases he

/-- A client sets a field, and then the store shows another node for it: both are current, and the changes are refused. Had that
node been seen from its end, the pending one would have stayed alone. -/
theorem pending_value_joined :
    (ofEvents "parent" [.set (some ⟨1⟩), .load (some ⟨2⟩)]).current = .ofList [⟨1⟩, ⟨2⟩] compare ∧
      (ofEvents "parent" [.set (some ⟨1⟩), .load (some ⟨2⟩)]).changes ⟨0⟩ (fun key => some ("n" ++ toString key.val)) =
        .error (.tooMany "parent" 2) ∧
      (ofEvents "parent" [.set (some ⟨1⟩), .loadOne ⟨2⟩]).current = .ofList [⟨1⟩] compare := by
  refine ⟨?_, ?_, ?_⟩ <;> decide +kernel

end RelatedSet

end EntityGraph
