import EntityGraph.Proofs.Store.Reachable

/-!
# Replaying the writes of a save

A save returns its edge writes as a set, the creations before the deletions, and carries them out the other way round. Carried
out as they are returned they give the edges of the graph without those both created and deleted; with the deletions first they
give the edges of the graph (`saved_edges_replayed`).
-/

namespace EntityGraph

/-! ## Creations before deletions -/

namespace Graph

/-- After creations and then deletions, the edges are those that were there or were created, and were not deleted. -/
theorem mem_edges_applyAll_of_creations_first {g : Graph} {writes : List EdgeWrite}
    (h : writes.Pairwise fun first second => first.isCreate = false → second.isCreate = false) {e : Edge} :
    e ∈ (g.applyAll writes).edges ↔ (e ∈ g.edges ∨ .create e ∈ writes) ∧ .delete e ∉ writes := by
  induction writes generalizing g with
  | nil => simp [applyAll]
  | cons write writes ih =>
    obtain ⟨hfirst, hrest⟩ := List.pairwise_cons.mp h
    rw [applyAll_cons, ih hrest, mem_edges_apply_iff, List.mem_cons, List.mem_cons]
    cases write with
    | create edge => simp [or_assoc, or_left_comm, eq_comm (a := edge)]
    | delete edge =>
      -- No creation comes after a deletion.
      have hnone : EdgeWrite.create e ∉ writes := fun hc => Bool.noConfusion (hfirst _ hc rfl)
      simp only [reduceCtorEq, false_or, hnone, or_false, EdgeWrite.delete.injEq, not_or, and_assoc]
      exact and_congr_right fun _ => and_congr_left fun _ => by rw [ne_eq, eq_comm, EdgeWrite.delete.injEq]

end Graph

/-- In the order of a set of writes the creations come first. -/
theorem EdgeWrite.creations_first (writes : Std.ExtTreeSet EdgeWrite) :
    writes.toList.Pairwise fun first second => first.isCreate = false → second.isCreate = false := by
  refine Std.ExtTreeSet.ordered_toList.imp fun {first second} hlt hfirst => ?_
  cases first with
  | create _ => cases hfirst
  | delete edge =>
    cases second with
    | create other =>
      have hgt : compare (EdgeWrite.delete edge) (.create other) = .gt := rfl
      rw [hgt] at hlt
      cases hlt
    | delete _ => rfl

namespace Store

/-- The writes that a save returns, carried out with the deletions first, give the edges that the store has after the save. In
the order in which they are returned they give those of these edges that are not deleted too, and so the same edges exactly
when no edge is both created and deleted. -/
theorem saved_edges_replayed {store : Store} {makeId : NodeKey → String} {rank : NodeKey → Nat} {nodes : List Node}
    {reached : Store × List Node} {writes : List EdgeWrite} (h : store.save makeId rank nodes = (reached, .ok writes)) :
    (store.graph.applyAll (writes.filter (!·.isCreate) ++ writes.filter (·.isCreate))).edges = reached.1.graph.edges ∧
      (∀ e, e ∈ (store.graph.applyAll writes).edges ↔
        e ∈ reached.1.graph.edges ∧ ¬(EdgeWrite.create e ∈ writes ∧ EdgeWrite.delete e ∈ writes)) ∧
      ((store.graph.applyAll writes).edges = reached.1.graph.edges ↔
        ∀ e, EdgeWrite.create e ∈ writes → EdgeWrite.delete e ∉ writes) := by
  obtain ⟨plan, -, hw, rfl⟩ := planned_of_save h
  have hedges : ∀ e, e ∈ reached.1.graph.edges ↔
      EdgeWrite.create e ∈ plan.writes.toList ∨ e ∈ store.graph.edges ∧ EdgeWrite.delete e ∉ plan.writes.toList := by
    intro e
    rw [hw.graph, SavePlan.mem_edges_write_iff, Std.ExtTreeSet.mem_toList, Std.ExtTreeSet.mem_toList]
  have hreturned : ∀ e, e ∈ (store.graph.applyAll plan.writes.toList).edges ↔ e ∈ reached.1.graph.edges ∧
      ¬(EdgeWrite.create e ∈ plan.writes.toList ∧ EdgeWrite.delete e ∈ plan.writes.toList) := by
    intro e
    rw [hedges, Graph.mem_edges_applyAll_of_creations_first (EdgeWrite.creations_first plan.writes)]
    tauto
  refine ⟨?_, hreturned, ?_⟩
  · rw [hw.graph]
    exact Std.ExtTreeSet.ext_mem fun e =>
      Graph.mem_edges_applyAll_writeOrder_iff.trans SavePlan.mem_edges_write_iff.symm
  · constructor
    · intro hsame e hc hd
      have hmem : e ∈ (store.graph.applyAll plan.writes.toList).edges := hsame ▸ (hedges e).mpr (Or.inl hc)
      exact ((hreturned e).mp hmem).2 ⟨hc, hd⟩
    · intro hnone
      refine Std.ExtTreeSet.ext_mem fun e => (hreturned e).trans (and_iff_left ?_)
      rintro ⟨hc, hd⟩
      exact hnone e hc hd

namespace Example

/-- The state after a project and its issue were saved with keys that the store had issued, and other nodes were handed out. -/
def keptWith (handed : List (NodeKey × String)) : Store :=
  ⟨schema, saved.graph, .ofList ([(⟨0⟩, "p"), (⟨1⟩, "i")] ++ handed) compare, 2 + handed.length⟩

/-- The state after the issue, its project, and the project on its own were handed out. -/
def handedTwice : Store := keptWith [(⟨2⟩, "i"), (⟨3⟩, "p"), (⟨4⟩, "p")]

/-- The issue as it is handed out. -/
def handedIssue : Node :=
  { Node.new ⟨2⟩ issueKind with id := some "i", attributes := .ofList [("title", .string "crash")] compare }

/-- The project of the issue, set to the one that was handed out on its own. -/
def resetProject : RelatedSet := ((RelatedSet.empty "project" .one).load {⟨3⟩}).set (some ⟨4⟩)

def resetIssue : Node := { handedIssue with related := .ofList [("project", resetProject)] compare }

theorem reachable_kept : Reachable schema (keptWith []) := by
  have hsaved : ((Store.empty schema).issueKey.2.issueKey.2.save makeId NodeKey.val [newProject, newIssue]).1.1 = keptWith [] := by
    decide +kernel
  rw [← hsaved]
  exact .step (.step (.step .empty .issueKey) .issueKey) (.save _ _ _ makesFresh_empty)

theorem get_issue : (keptWith []).get "Issue" "i" = .ok (some handedIssue, keptWith [(⟨2⟩, "i")]) := by
  rw [keptWith, keptWith, saved_eq]
  rfl

/-- The issue after its project was loaded. -/
def loadedIssue : Node :=
  { handedIssue with related := .ofList [("project", (RelatedSet.empty "project" .one).load {⟨3⟩})] compare }

/-- The project as it is handed out with its issue. -/
def projectOfIssue : Node :=
  { Node.new ⟨3⟩ projectKind with
    id := some "p", related := .ofList [("issues", (RelatedSet.empty "issues" .many).loadOne ⟨2⟩)] compare }

theorem load_project : (keptWith [(⟨2⟩, "i")]).load handedIssue "project" =
    ((keptWith [(⟨2⟩, "i"), (⟨3⟩, "p")], loadedIssue), .ok [projectOfIssue]) := by
  rw [keptWith, keptWith, saved_eq]
  rfl

/-- The project as it is handed out on its own. -/
def handedProject : Node := { Node.new ⟨4⟩ projectKind with id := some "p" }

theorem get_project : (keptWith [(⟨2⟩, "i"), (⟨3⟩, "p")]).get "Project" "p" = .ok (some handedProject, handedTwice) := by
  rw [handedTwice, keptWith, keptWith, saved_eq]
  rfl

theorem reachable_handedTwice : Reachable schema handedTwice := by
  have hload : ((keptWith [(⟨2⟩, "i")]).load handedIssue "project").1.1 = keptWith [(⟨2⟩, "i"), (⟨3⟩, "p")] := by
    rw [load_project]
  refine .step (.step (.step reachable_kept (.get get_issue)) ?_) (.get get_project)
  rw [← hload]
  exact .load _ _

/-- The edge that both relates the issue to the project it is set to, and related it to the one it had. -/
def keptEdge : Edge := ⟨"p", "HAS_ISSUE", "i"⟩

theorem save_resetIssue : ∃ reached : Store × List Node,
    handedTwice.save makeId NodeKey.val [resetIssue, handedProject] = (reached, .ok [.create keptEdge, .delete keptEdge]) ∧
      keptEdge ∈ reached.1.graph.edges := by
  have hwrites : (handedTwice.save makeId NodeKey.val [resetIssue, handedProject]).2 =
      .ok [.create keptEdge, .delete keptEdge] := by
    decide +kernel
  have hkept : keptEdge ∈ (handedTwice.save makeId NodeKey.val [resetIssue, handedProject]).1.1.graph.edges := by
    decide +kernel
  exact ⟨_, Prod.ext rfl hwrites, hkept⟩

end Example

/-- When an issue is set to the project that it had, known by another key, and saved with it, its edge is created and deleted by one
save. -/
theorem reset_issue_replayed : ∃ reached,
    Example.handedTwice.save Example.makeId NodeKey.val [Example.resetIssue, Example.handedProject] =
        (reached, .ok [.create Example.keptEdge, .delete Example.keptEdge]) ∧
      (Example.handedTwice.graph.applyAll [.delete Example.keptEdge, .create Example.keptEdge]).edges =
        reached.1.graph.edges := by
  obtain ⟨reached, hsave, _⟩ := Example.save_resetIssue
  exact ⟨reached, hsave, (saved_edges_replayed hsave).1⟩

/-- Carried out in the order in which they are returned, the writes of this save lose the edge that the store has. -/
theorem replay_as_returned_loses_edge : Reachable Example.schema Example.handedTwice ∧
    ∃ reached writes,
      Example.handedTwice.save Example.makeId NodeKey.val [Example.resetIssue, Example.handedProject] = (reached, .ok writes) ∧
      (Example.handedTwice.graph.applyAll writes).edges ≠ reached.1.graph.edges := by
  obtain ⟨reached, hsave, hkept⟩ := Example.save_resetIssue
  refine ⟨Example.reachable_handedTwice, reached, _, hsave, fun hsame => ?_⟩
  rw [← hsame] at hkept
  simp [Graph.applyAll, Graph.apply] at hkept

end Store

end EntityGraph
