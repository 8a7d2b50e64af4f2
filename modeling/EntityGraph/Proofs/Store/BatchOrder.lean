import EntityGraph.Proofs.Store.Agreement
import EntityGraph.Proofs.Store.Failing

/-!
# The order of a batch

A batch whose nodes have different keys and different ids is saved in any order with the same outcome: a plan depends on which
nodes are in the batch (`Planned.perm`), and so do the nodes and edges that it writes and what is remembered. Only the error of a
batch that cannot be saved may differ, as it is that of the first node with which something is wrong.
-/

namespace EntityGraph

namespace Store

/-- The nodes of a batch have different keys, and no two of them were given one id. -/
structure Distinct (nodes : List Node) : Prop where
  keys : (nodes.map Node.key).Nodup
  ids : (nodes.filterMap Node.id).Nodup

variable {store : Store} {makeId : NodeKey → String} {rank rank' : NodeKey → Nat} {nodes nodes' : List Node} {plan : SavePlan}

theorem Distinct.perm (h : Distinct nodes) (hperm : nodes.Perm nodes') : Distinct nodes' where
  keys := (hperm.map Node.key).nodup_iff.mp h.keys
  ids := (hperm.filterMap Node.id).nodup_iff.mp h.ids

theorem Fresh.perm (h : store.Fresh makeId nodes) (hperm : nodes.Perm nodes') : store.Fresh makeId nodes' where
  stored := h.stored
  given node hn other ho := h.given node (hperm.mem_iff.mpr hn) other (hperm.mem_iff.mpr ho)
  different node hn other ho := h.different node (hperm.mem_iff.mpr hn) other (hperm.mem_iff.mpr ho)

/-! ## Different ids -/

/-- No two nodes of the batch are saved under one id. -/
theorem Planned.nodup_idOf (hp : store.Planned makeId nodes plan) (hd : Distinct nodes) (hf : store.Fresh makeId nodes) :
    (nodes.map plan.idOf).Nodup := by
  refine List.Nodup.map_on ?_ hd.keys.of_map
  intro a ha b hb hab
  exact List.inj_on_of_nodup_map hd.keys ha hb (hp.key_of_idOf hd.ids hf hb ha hab)

/-! ## Planning and writing in another order -/

/-- What a plan writes to the graph does not depend on the order of the batch. -/
theorem write_perm (hids : (nodes.map plan.idOf).Nodup) (hperm : nodes.Perm nodes') (graph : Graph) :
    plan.write nodes' graph = plan.write nodes graph := by
  refine Graph.ext (Std.ExtTreeMap.ext_getElem? fun id => ?_) (Std.ExtTreeSet.ext_mem fun e => ?_)
  · rw [SavePlan.nodes_write, SavePlan.nodes_write, lastWith_perm hperm hids]
  · rw [SavePlan.mem_edges_write_iff, SavePlan.mem_edges_write_iff]

/-- A plan for a batch is a plan for the batch in any other order. -/
theorem Planned.perm (hp : store.Planned makeId nodes plan) (hd : Distinct nodes) (hf : store.Fresh makeId nodes)
    (hperm : nodes.Perm nodes') : store.Planned makeId nodes' plan := by
  have hkinds : store.futureKind? plan nodes' = store.futureKind? plan nodes := by
    rw [futureKind?_eq, futureKind?_eq, write_perm (hp.nodup_idOf hd hf) hperm]
  refine ⟨?_, fun key => ?_, ?_, fun write => ?_, hp.ends, ?_⟩
  · intro node hn
    exact hp.assigned node (hperm.mem_iff.mpr hn)
  · rw [hp.ids, lastWith_perm hperm hd.keys]
  · intro node hn
    exact hp.each node (hperm.mem_iff.mpr hn)
  · rw [hp.writes]
    simp only [hperm.mem_iff]
  · rw [hkinds]
    exact hp.oneAt

/-- When a plan was carried out, the store has written it and remembers the batch. -/
theorem store_carryOut {after : Store} {batch : List Node} (h : carryOut rank plan (store, nodes) = ((after, batch), none)) :
    after = { store with
      graph := plan.write nodes store.graph
      known := nodes.foldl (fun known node => known.insert node.key (plan.idOf node)) store.known } := by
  obtain ⟨between, hcommit, hnote⟩ := Edit.andThen_eq_none_iff.mp h
  obtain ⟨hbetween, _⟩ := onEach_commit_eq_none hcommit
  obtain ⟨hafter, _⟩ := Edit.inOrder_onEach_eq_none hnote
  exact hafter.trans hbetween

/-- The order in which what is remembered is gone through matters for the nodes of the batch alone: the result and the store
afterwards are the same in any other. -/
theorem save_rank (store : Store) (makeId : NodeKey → String) (rank rank' : NodeKey → Nat) (nodes : List Node) :
    ∃ batch', store.save makeId rank' nodes =
      (((store.save makeId rank nodes).1.1, batch'), (store.save makeId rank nodes).2) := by
  rcases store.save_all_or_nothing makeId rank nodes with ⟨e, hplan, hsave⟩ | ⟨plan, _, _, hplan, _, _, _⟩
  · exact ⟨nodes, by rw [hsave, save, hplan]⟩
  · obtain ⟨⟨after, batch⟩, hcarry⟩ := exists_carryOut_of_plan hplan rank
    obtain ⟨⟨after', batch'⟩, hcarry'⟩ := exists_carryOut_of_plan hplan rank'
    refine ⟨batch', ?_⟩
    simp only [save, hplan, hcarry, hcarry', store_carryOut hcarry, store_carryOut hcarry']

/-- A batch that is saved is saved in any other order, with the same writes and the same store afterwards. -/
theorem save_perm (hd : Distinct nodes) (hf : store.Fresh makeId nodes) (hperm : nodes.Perm nodes') {after : Store}
    {batch : List Node} {writes : List EdgeWrite} (h : store.save makeId rank nodes = ((after, batch), .ok writes)) :
    ∃ batch', store.save makeId rank' nodes' = ((after, batch'), .ok writes) := by
  obtain ⟨plan, hplan, hcarry⟩ := save_eq_ok h
  have hp := plan_eq_ok_iff.mp hplan
  have hplan' : store.plan makeId nodes' = .ok plan := plan_eq_ok_iff.mpr (hp.perm hd hf hperm)
  obtain ⟨⟨after', batch'⟩, hcarry'⟩ := exists_carryOut_of_plan hplan' rank'
  have hknown : nodes'.foldl (fun known node => known.insert node.key (plan.idOf node)) store.known =
      nodes.foldl (fun known node => known.insert node.key (plan.idOf node)) store.known := by
    refine Std.ExtTreeMap.ext_getElem? fun key => ?_
    rw [getElem?_foldl_insert, getElem?_foldl_insert, lastWith_perm hperm hd.keys]
  have hsame : after' = after := by
    rw [store_carryOut hcarry, store_carryOut hcarry', write_perm (hp.nodup_idOf hd hf) hperm, hknown]
  have hwrites : writes = plan.writes.toList := by
    rw [save, hplan] at h
    simp only [hcarry, Prod.mk.injEq, Except.ok.injEq] at h
    exact h.2.symm
  refine ⟨batch', ?_⟩
  rw [save, hplan', hwrites, ← hsame]
  simp only [hcarry']

/-- The order of a batch does not matter, when its nodes have different keys and different ids: in any order it is saved or
refused, and it is saved with the same writes, and with the same nodes and edges in the store afterwards. -/
theorem saved_in_any_order (hd : Distinct nodes) (hf : store.Fresh makeId nodes) (hperm : nodes.Perm nodes') :
    ((∃ writes, (store.save makeId rank' nodes').2 = .ok writes) ↔ ∃ writes, (store.save makeId rank nodes).2 = .ok writes) ∧
      ∀ after batch writes, store.save makeId rank nodes = ((after, batch), .ok writes) →
        ∃ batch', store.save makeId rank' nodes' = ((after, batch'), .ok writes) := by
  -- The two orders are exchanged by the inverse permutation.
  have hsaved : ∀ {rank rank' : NodeKey → Nat} {first second : List Node}, Distinct first → store.Fresh makeId first →
      first.Perm second → (∃ writes, (store.save makeId rank first).2 = .ok writes) →
        ∃ writes, (store.save makeId rank' second).2 = .ok writes := by
    rintro rank rank' first second hd hf hperm ⟨writes, hwrites⟩
    obtain ⟨batch', hsave⟩ := save_perm hd hf hperm (Prod.ext rfl hwrites)
    exact ⟨writes, by rw [hsave]⟩
  refine ⟨⟨hsaved (hd.perm hperm) (hf.perm hperm) hperm.symm, hsaved hd hf hperm⟩, ?_⟩
  intro after batch writes h
  exact save_perm hd hf hperm h

namespace Example

theorem distinct_pair : Distinct [newProject, newIssue] := by
  refine ⟨?_, ?_⟩ <;> decide

theorem fresh_empty : (Store.empty schema).Fresh Example.makeId [newProject, newIssue] := by
  refine ⟨makesFresh_empty, ?_, ?_⟩ <;> intro node hn other ho <;> rcases List.mem_pair.mp hn with rfl | rfl <;>
    rcases List.mem_pair.mp ho with rfl | rfl <;> decide

end Example

/-- A project and its issue are saved in either order, with the same store afterwards. -/
theorem issue_saved_before_project : ∃ batch,
    (Store.empty Example.schema).save Example.makeId NodeKey.val [Example.newIssue, Example.newProject] =
      ((Example.saved, batch), .ok [.create ⟨"p", "HAS_ISSUE", "i"⟩]) := by
  have hwrites : ((Store.empty Example.schema).save Example.makeId NodeKey.val [Example.newProject, Example.newIssue]).2.toOption =
      some [.create ⟨"p", "HAS_ISSUE", "i"⟩] := by decide +kernel
  exact (saved_in_any_order Example.distinct_pair Example.fresh_empty (List.Perm.swap _ _ [])).2 Example.saved _ _
    (Prod.ext rfl (toOption_eq_some_iff.mp hwrites))

end Store

end EntityGraph
