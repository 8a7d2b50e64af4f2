import EntityGraph.Proofs.Store.Succeeding

/-!
# Saves that fail

A save fails only while it is planned, where nothing was written yet: once a plan was made, every node of the batch is known to
have the fields of its kind, so that neither taking over the changes nor noting the writes can be stopped
(`save_all_or_nothing`). While the store is sound, a plan never fails because an edge would lead to a node that is missing
(`Sound.failsWith_plan`).
-/

namespace EntityGraph

/-- An error that does not say that a node is missing. -/
def StoreError.NoneMissing : StoreError → Prop
  | .nodeNotFound _ => False
  | _ => True

namespace Store

open StoreError

/-! ## All or nothing -/

/-- The nodes of a batch that a plan was made for have the fields of their kinds, which are kinds of the schema. -/
theorem Planned.complete {store : Store} {makeId : NodeKey → String} {nodes : List Node} {plan : SavePlan}
    (h : store.Planned makeId nodes plan) : ∀ node ∈ nodes, Complete store.schema node := by
  intro node hn
  obtain ⟨id, hid⟩ := h.assigned node hn
  obtain ⟨kind, hk⟩ := (assignId_eq_ok_iff.mp hid).1
  refine ⟨kind, hk, fun r hr => ?_⟩
  obtain ⟨writes, hwrites⟩ := h.each node hn kind hk r hr
  obtain ⟨s, _, _, hs, _⟩ := relationshipWrites_eq_ok hwrites
  exact ⟨s, hs⟩

/-- A plan that was made is carried out. -/
theorem exists_carryOut_of_plan {store : Store} {makeId : NodeKey → String} {nodes : List Node} {plan : SavePlan}
    (h : store.plan makeId nodes = .ok plan) (rank : NodeKey → Nat) :
    ∃ reached, carryOut rank plan (store, nodes) = (reached, none) :=
  exists_carryOut rank plan (plan_eq_ok h).complete

/-- A save fails with the error of its plan only. -/
theorem plan_of_save_error {store : Store} {makeId : NodeKey → String} {rank : NodeKey → Nat} {nodes : List Node}
    {e : StoreError} (h : (store.save makeId rank nodes).2 = .error e) : store.plan makeId nodes = .error e := by
  cases hplan : store.plan makeId nodes with
  | error e' =>
    rw [save, hplan] at h
    obtain rfl := Except.error.inj h
    rfl
  | ok plan =>
    obtain ⟨reached, hcarry⟩ := exists_carryOut_of_plan hplan rank
    rw [save, hplan] at h
    simp only [hcarry] at h
    cases h

/-- A save of any batch either fails while it is planned, and leaves the store and the nodes as they were, or runs to the end:
once a plan was made and the graph was written, neither the edits that take over the changes of the nodes nor those that note
the writes are stopped. -/
theorem save_all_or_nothing (store : Store) (makeId : NodeKey → String) (rank : NodeKey → Nat) (nodes : List Node) :
    (∃ e, store.plan makeId nodes = .error e ∧ store.save makeId rank nodes = ((store, nodes), .error e)) ∨
      ∃ plan committed reached, store.plan makeId nodes = .ok plan ∧
        Edit.onEach plan.commit ({ store with graph := plan.write nodes store.graph }, nodes) = (committed, none) ∧
        noteWrites rank plan.writes committed = (reached, none) ∧
        store.save makeId rank nodes = (reached, .ok plan.writes.toList) := by
  cases hplan : store.plan makeId nodes with
  | error e =>
    refine Or.inl ⟨e, rfl, ?_⟩
    rw [save, hplan]
  | ok plan =>
    obtain ⟨reached, hcarry⟩ := exists_carryOut_of_plan hplan rank
    obtain ⟨committed, hcommit, hnote⟩ := Edit.andThen_eq_none_iff.mp hcarry
    refine Or.inr ⟨plan, committed, reached, rfl, hcommit, hnote, ?_⟩
    rw [save, hplan]
    simp only [hcarry]

/-! ## Errors of a plan -/

section

variable {store : Store} {makeId : NodeKey → String} {nodes : List Node} {node : Node} {ids : Std.ExtTreeMap NodeKey String}

theorem failsWith_assignId (node : Node) : FailsWith NoneMissing (store.assignId makeId node) := by
  refine (failsWith_mapError (fun _ => trivial) _).bind fun _ _ => ?_
  cases node.id with
  | none => exact failsWith_pure _
  | some id =>
    dsimp only
    split
    · split
      · exact failsWith_pure _
      · exact failsWith_throw trivial
    · exact failsWith_pure _

theorem failsWith_displaced (r : Relationship) (changes : EdgeChanges) :
    FailsWith NoneMissing (store.displaced r changes) := by
  unfold displaced
  split
  · exact failsWith_pure _
  · refine (failsWith_mapError (fun _ => trivial) _).bind fun mirror _ => ?_
    split
    · exact failsWith_pure _
    · exact failsWith_pure _

theorem failsWith_relationshipWrites (r : Relationship) : FailsWith NoneMissing (store.relationshipWrites ids node r) := by
  refine (failsWith_mapError (fun _ => trivial) _).bind fun s _ => ?_
  refine (FailsWith.forM fun key _ => ?_).bind fun _ _ => ?_
  · split
    · exact failsWith_throw trivial
    · exact failsWith_pure _
  · exact (failsWith_mapError (fun _ => trivial) _).bind fun changes _ =>
      (failsWith_displaced r changes).bind fun _ _ => failsWith_pure _

theorem failsWith_nodeWrites (node : Node) : FailsWith NoneMissing (store.nodeWrites ids node) :=
  (failsWith_mapError (fun _ => trivial) _).bind fun _ _ =>
    (FailsWith.mapM fun r _ => failsWith_relationshipWrites r).bind fun _ _ => failsWith_pure _

theorem failsWith_checkOneAt {schema : Schema} {graph : Graph} {kindOf? : String → Option String} {id label : String}
    {direction : Direction} : FailsWith NoneMissing (checkOneAt schema graph kindOf? id label direction) := by
  unfold checkOneAt
  split
  · exact failsWith_pure _
  · refine (failsWith_mapError (fun _ => trivial) _).bind fun kind _ => FailsWith.forM fun r _ => ?_
    split
    · dsimp only
      split
      · exact failsWith_throw trivial
      · exact failsWith_pure _
    · exact failsWith_pure _

theorem failsWith_checkToOne (plan : SavePlan) : FailsWith NoneMissing (store.checkToOne plan nodes) := by
  refine FailsWith.forM fun write _ => ?_
  split
  · exact failsWith_checkOneAt.bind fun _ _ => failsWith_checkOneAt
  · exact failsWith_pure _

/-- The ends of an edge that a node of the batch creates are nodes of the batch, or nodes that are remembered. -/
theorem lookup_of_create_mem {writes : List EdgeWrite} (h : store.nodeWrites ids node = .ok writes) {e : Edge}
    (he : EdgeWrite.create e ∈ writes) {id : String} (hid : id = e.source ∨ id = e.target) :
    ∃ key, store.lookup ids key = some id := by
  obtain ⟨kind, _, r, _, ws, hws, hmem⟩ := (mem_nodeWrites_iff h).mp he
  obtain ⟨_, _, _, _, hchanges, _, _⟩ := relationshipWrites_eq_ok hws
  obtain ⟨owner, howner, _⟩ := RelatedSet.changes_eq_ok hchanges
  obtain ⟨_, _, key, _, _, other, hother, rfl⟩ := (create_mem_relationshipWrites_iff hws howner).mp hmem
  rcases Relationship.mem_ends_iff.mp hid with rfl | rfl
  · exact ⟨node.key, howner⟩
  · exact ⟨key, hother⟩

/-- While what is remembered is stored, the check of ends passes for every batch. -/
theorem Sound.checkEnds_eq_ok (hs : store.Sound) {lists : List (List EdgeWrite)}
    (h : nodes.mapM (store.nodeWrites ids) = .ok lists) : store.checkEnds ⟨ids, .ofList lists.flatten compare⟩ = .ok () := by
  refine checkEnds_eq_ok_iff.mpr fun e he id hid => ?_
  simp only [Std.ExtTreeSet.mem_ofList, List.contains_iff_mem, List.mem_flatten] at he
  obtain ⟨writes, hwrites, hmem⟩ := he
  obtain ⟨node, _, hnode⟩ := (mapM_ok_mem_iff h).mp hwrites
  obtain ⟨key, hkey⟩ := lookup_of_create_mem hnode hmem hid
  rcases Option.or_eq_some_iff.mp hkey with hbatch | ⟨_, hknown⟩
  · exact Or.inl ⟨key, hbatch⟩
  · exact Or.inr (hs.known hknown)

/-- While a store is sound, no plan fails because a node is missing. -/
theorem Sound.failsWith_plan (hs : store.Sound) : FailsWith NoneMissing (store.plan makeId nodes) := by
  have hids : FailsWith NoneMissing (store.assignIds makeId nodes) :=
    .foldlM (fun _ node _ => (failsWith_assignId node).bind fun _ _ => failsWith_pure _) ∅
  refine hids.bind fun ids _ => (FailsWith.mapM fun node _ => failsWith_nodeWrites node).bind fun lists hlists => ?_
  dsimp only
  rw [hs.checkEnds_eq_ok hlists]
  exact (failsWith_pure ()).bind fun _ _ => (failsWith_checkToOne _).bind fun _ _ => failsWith_pure _

end

end Store

end EntityGraph
