import EntityGraph.Proofs.Store.Frame

/-!
# Reading back what was saved

What `Store.get` answers depends on the stored node with the id alone. After a save, the node stored under an id of the batch is
the last one that was saved under it (`exists_saved_nodes`), so that a node of the batch is read back as what it is, unless a node
of another kind was saved under the same id (`saved_read_back`). With every other id the answer is that of before.
-/

namespace EntityGraph

namespace Store

variable {store after : Store}

/-! ## Getting nodes -/

/-- What is answered: nothing where no node is stored, an error for a node of another kind, and else a new node in memory with
the id and the stored attributes. -/
theorem map_fst_get (store : Store) (kind id : String) :
    (store.get kind id).map Prod.fst =
      match store.graph.nodes[id]? with
      | none => .ok none
      | some stored =>
        if stored.kind ≠ kind then .error (.kindMismatch id kind stored.kind)
        else match store.schema.kind stored.kind with
          | .ok k => .ok (some { Node.new ⟨store.nextKey⟩ k with id := some id, attributes := stored.attributes })
          | .error e => .error (.schema e) := by
  rw [Store.get]
  cases store.graph.nodes[id]? with
  | none => rfl
  | some stored =>
    by_cases hkind : stored.kind = kind
    · subst hkind
      simp only [ne_eq, not_true_eq_false, if_false, materialize]
      cases store.schema.kind stored.kind with
      | ok k => rfl
      | error e => rfl
    · simp only [ne_eq, hkind, not_false_eq_true, if_true]
      rfl

/-- The answer depends on the schema, the next key and the stored node with the id. -/
theorem get_congr (hschema : after.schema = store.schema) (hnext : after.nextKey = store.nextKey) {id : String}
    (hnode : after.graph.nodes[id]? = store.graph.nodes[id]?) (kind : String) :
    (after.get kind id).map Prod.fst = (store.get kind id).map Prod.fst := by
  rw [map_fst_get, map_fst_get, hschema, hnext, hnode]

/-- A stored node of a kind of the schema is found under its kind, with what is stored of it. -/
theorem exists_get (hs : store.schema.WellFormed) {id : String} {stored : StoredNode} {kind : EntityKind}
    (hstored : store.graph.nodes[id]? = some stored) (hk : store.schema.kinds[stored.kind]? = some kind) :
    ∃ node read, store.get stored.kind id = .ok (some node, read) ∧
      node.id = some id ∧ node.kind = stored.kind ∧ node.attributes = stored.attributes := by
  have hanswer := store.map_fst_get stored.kind id
  simp only [hstored, Schema.kind_eq_ok_iff.mpr hk, ne_eq, not_true_eq_false, if_false, map_eq_ok_iff, Prod.exists] at hanswer
  obtain ⟨_, read, hget, rfl⟩ := hanswer
  exact ⟨_, read, hget, rfl, hs.name hk, rfl⟩

/-! ## Nodes after a save -/

section

variable {makeId : NodeKey → String} {rank : NodeKey → Nat} {nodes nodes' : List Node} {writes : List EdgeWrite}

/-- A node of a batch before and after it was saved: it has the id that the plan gives it, and is otherwise the same but for its
fields. -/
structure SavedAs (plan : SavePlan) (node node' : Node) : Prop where
  key : node'.key = node.key
  kind : node'.kind = node.kind
  id : node'.id = some (plan.idOf node)
  attributes : node'.attributes = node.attributes

/-- A save writes a plan, issues no keys, and gives the nodes of its batch their ids. -/
theorem exists_saved_nodes (hs : store.schema.WellFormed) (h : store.save makeId rank nodes = ((after, nodes'), .ok writes)) :
    ∃ plan, store.Planned makeId nodes plan ∧ after.schema = store.schema ∧ after.nextKey = store.nextKey ∧
      after.graph = plan.write nodes store.graph ∧ List.Forall₂ (SavedAs plan) nodes nodes' := by
  obtain ⟨plan, hplan, hcarry⟩ := save_eq_ok h
  obtain ⟨hafter, _, _, hall⟩ := carryOut_eq_none hs hcarry
  refine ⟨plan, plan_eq_ok hplan, by rw [hafter], by rw [hafter], by rw [hafter], hall.imp fun node node' ⟨_, _, hedit⟩ => ?_⟩
  obtain ⟨_, rfl, _⟩ := hedit
  exact ⟨rfl, rfl, rfl, rfl⟩

/-- Under an id of the batch, the last node that was saved under it is stored. -/
theorem exists_stored_last {plan : SavePlan} (hgraph : after.graph = plan.write nodes store.graph)
    (hall : List.Forall₂ (SavedAs plan) nodes nodes') {node' : Node} (hn' : node' ∈ nodes') :
    ∃ last ∈ nodes, ∃ last' ∈ nodes', ∃ id, node'.id = some id ∧ last'.id = some id ∧ SavedAs plan last last' ∧
      after.graph.nodes[id]? = some ⟨last'.kind, last'.attributes⟩ := by
  obtain ⟨node, hn, hsaved⟩ := exists_of_forall₂ hall node' hn'
  obtain ⟨last, hl⟩ := lastWith_isSome plan.idOf hn
  obtain ⟨hln, hid⟩ := lastWith_some hl
  obtain ⟨last', hln', hlast⟩ := exists_of_forall₂ hall.flip last hln
  refine ⟨last, hln, last', hln', plan.idOf node, hsaved.id, hid ▸ hlast.id, hlast, ?_⟩
  rw [hgraph, SavePlan.nodes_write, hl, hlast.kind, hlast.attributes]
  rfl

/-- Under an id that no node of the batch was saved under, the node of before is stored. -/
theorem nodes_eq_of_ne {plan : SavePlan} (hgraph : after.graph = plan.write nodes store.graph)
    (hall : List.Forall₂ (SavedAs plan) nodes nodes') {id : String} (hid : ∀ node' ∈ nodes', node'.id ≠ some id) :
    after.graph.nodes[id]? = store.graph.nodes[id]? := by
  rw [hgraph, SavePlan.nodes_write]
  cases hl : lastWith plan.idOf nodes id with
  | none => rfl
  | some last =>
    obtain ⟨hln, rfl⟩ := lastWith_some hl
    obtain ⟨last', hln', hlast⟩ := exists_of_forall₂ hall.flip last hln
    exact absurd hlast.id (hid last' hln')

/-! ## Reading back -/

/-- A save keeps the kind and the attributes of the nodes of its batch and gives each an id. A node of the batch is then found by
its kind and id, as one of its kind with this id, where all nodes of the batch that have the id are of its kind; and with the
attributes it was saved with, where it is the only one. With any other id, the answers are those of before the save. -/
theorem saved_read_back {decls : List KindDecl} {schema : Schema} (hb : Schema.build decls = .ok schema)
    (hreach : Reachable schema store) (h : store.save makeId rank nodes = ((after, nodes'), .ok writes)) :
    List.Forall₂ (fun node node' => node'.key = node.key ∧ node'.kind = node.kind ∧ node'.attributes = node.attributes)
        nodes nodes' ∧
      (∀ node ∈ nodes', ∃ id, node.id = some id ∧
        ((∀ other ∈ nodes', other.id = some id → other.kind = node.kind) →
          ∃ found read, after.get node.kind id = .ok (some found, read) ∧ found.id = some id ∧ found.kind = node.kind ∧
            ((∀ other ∈ nodes', other.id = some id → other = node) → found.attributes = node.attributes))) ∧
      ∀ kind id, (∀ node ∈ nodes', node.id ≠ some id) →
        (after.get kind id).map Prod.fst = (store.get kind id).map Prod.fst := by
  obtain rfl := hreach.schema_eq
  have hs := Schema.wellFormed_of_build hb
  obtain ⟨plan, hp, hschema, hnext, hgraph, hall⟩ := exists_saved_nodes hs h
  refine ⟨hall.imp fun _ _ hsaved => ⟨hsaved.key, hsaved.kind, hsaved.attributes⟩, fun node hn => ?_, fun kind id hid => ?_⟩
  · obtain ⟨last, hln, last', hln', id, hid, hlid, hlast, hstored⟩ := exists_stored_last hgraph hall hn
    refine ⟨id, hid, fun hkinds => ?_⟩
    -- The kind of every node of the batch was found in the schema when ids were given out.
    obtain ⟨given, hgiven⟩ := hp.assigned last hln
    obtain ⟨kind, hk⟩ := (assignId_eq_ok_iff.mp hgiven).1
    rw [← hlast.kind, ← hschema] at hk
    obtain ⟨found, read, hget, hfid, hfkind, hfattr⟩ := exists_get (hschema ▸ hs) hstored hk
    have hkind := hkinds last' hln' hlid
    refine ⟨found, read, hkind ▸ hget, hfid, hfkind.trans hkind, fun hsole => ?_⟩
    rw [hfattr, ← hsole last' hln' hlid]
  · exact get_congr hschema hnext (nodes_eq_of_ne hgraph hall hid) kind

end

namespace Example

theorem save_first : ∃ nodes' writes,
    (Store.empty schema).save makeId NodeKey.val [newProject, newIssue] = ((saved, nodes'), .ok writes) ∧
      nodes'.map shown = [(some "p", "Project", ∅), (some "i", "Issue", .ofList [("title", .string "crash")] compare)] := by
  have hok : ((Store.empty schema).save makeId NodeKey.val [newProject, newIssue]).2 = .ok [.create ⟨"p", "HAS_ISSUE", "i"⟩] := by
    decide +kernel
  have hshown : ((Store.empty schema).save makeId NodeKey.val [newProject, newIssue]).1.2.map shown =
      [(some "p", "Project", ∅), (some "i", "Issue", .ofList [("title", .string "crash")] compare)] := by
    decide +kernel
  exact ⟨_, _, Prod.ext rfl hok, hshown⟩

/-- A new project and a new issue that were given one id. -/
def projectX : Node := (Node.new ⟨0⟩ projectKind).withId "x"

def issueX : Node := (Node.new ⟨1⟩ issueKind).withId "x"

/-- The state in which they were made: nothing is stored. -/
def unsaved : Store := (Store.empty schema).issueKey.2.issueKey.2

theorem save_sameId : ∃ after nodes' writes,
    unsaved.save (fun _ => "y") NodeKey.val [projectX, issueX] = ((after, nodes'), .ok writes) ∧
    nodes'.map shown = [(some "x", "Project", ∅), (some "x", "Issue", ∅)] ∧
    after.get "Project" "x" = .error (.kindMismatch "x" "Project" "Issue") := by
  have hok : (unsaved.save (fun _ => "y") NodeKey.val [projectX, issueX]).2 = .ok [] := by decide +kernel
  have hshown : (unsaved.save (fun _ => "y") NodeKey.val [projectX, issueX]).1.2.map shown =
      [(some "x", "Project", ∅), (some "x", "Issue", ∅)] := by
    decide +kernel
  have hget : (unsaved.save (fun _ => "y") NodeKey.val [projectX, issueX]).1.1.get "Project" "x" =
      .error (.kindMismatch "x" "Project" "Issue") := by
    decide +kernel
  exact ⟨_, _, _, Prod.ext rfl hok, hshown, hget⟩

end Example

/-- The issue that was saved with its project is found as an issue, with its title. -/
theorem issue_read_back : ∃ found read, Example.saved.get "Issue" "i" = .ok (some found, read) ∧ found.id = some "i" ∧
    found.kind = "Issue" ∧ found.attributes = .ofList [("title", .string "crash")] compare := by
  obtain ⟨nodes', writes, hsave, hshown⟩ := Example.save_first
  obtain ⟨project, rest, rfl, hproject, hrest⟩ := List.map_eq_cons_iff.mp hshown
  obtain ⟨issue, rfl, hissue⟩ := List.map_eq_singleton_iff.mp hrest
  simp only [shown, Prod.mk.injEq] at hproject hissue
  have hsole : ∀ other ∈ [project, issue], other.id = some "i" → other = issue := by
    simp [hproject.1]
  obtain ⟨_, hback, _⟩ := saved_read_back Example.build_decls .empty hsave
  obtain ⟨id, hid, hfound⟩ := hback issue (by simp)
  obtain rfl := Option.some.inj (hissue.1.symm.trans hid)
  obtain ⟨found, read, hget, hfid, hkind, hattr⟩ := hfound fun other ho hoid => congrArg Node.kind (hsole other ho hoid)
  rw [hissue.2.1] at hget hkind
  exact ⟨found, read, hget, hfid, hkind, (hattr hsole).trans hissue.2.2⟩

/-- When a project and an issue that were given one id are saved together, both are stored under it, the issue last, and the
project is not found any more. -/
theorem project_not_read_back : Reachable Example.schema Example.unsaved ∧ (Example.unsaved.MakesFresh fun _ => "y") ∧
    ∃ after nodes' writes,
      Example.unsaved.save (fun _ => "y") NodeKey.val [Example.projectX, Example.issueX] = ((after, nodes'), .ok writes) ∧
        ∃ node ∈ nodes', node.kind = "Project" ∧ node.id = some "x" ∧
          after.get node.kind "x" = .error (.kindMismatch "x" "Project" "Issue") := by
  have hfresh : Example.unsaved.MakesFresh fun _ => "y" := by
    intro key
    simp [Example.unsaved, issueKey, Store.empty, Graph.empty]
  obtain ⟨after, nodes', writes, hsave, hshown, hget⟩ := Example.save_sameId
  obtain ⟨project, rest, rfl, hproject, _⟩ := List.map_eq_cons_iff.mp hshown
  simp only [shown, Prod.mk.injEq] at hproject
  exact ⟨.step (.step .empty .issueKey) .issueKey, hfresh, after, _, writes, hsave, project, List.mem_cons_self, hproject.2.1,
    hproject.1, hproject.2.1 ▸ hget⟩

end Store

end EntityGraph
