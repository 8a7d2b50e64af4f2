import EntityGraph.Proofs.Store.Settled

/-!
# Saving nodes without changes

A node that the store handed out or saved can be saved when it has no pending changes, however much the store was changed since
its fields were loaded: all that they have loaded can be told by ids, so that a plan is made, and nothing is written by it
(`exists_plan_of_unchanged`). A save that is repeated at once leaves the store and the nodes as they are (`save_again`).
-/

namespace EntityGraph

namespace Store

variable {store after : Store} {makeId : NodeKey → String} {rank : NodeKey → Nat} {nodes nodes' : List Node} {plan : SavePlan}
  {node : Node}

/-! ## Planning -/

/-- A relationship in which nothing was changed can be planned when all that was loaded can be told by ids, and gives no
writes. -/
theorem Savable.relationshipWrites_eq (hs : store.schema.WellFormed) (h : store.Savable node) (hun : node.hasChanges = false)
    {kind : EntityKind} (hk : store.schema.kinds[node.kind]? = some kind) (hmade : node.MadeOf kind) {r : Relationship}
    (hr : r ∈ kind.relationships) {ids : Std.ExtTreeMap NodeKey String} {owner : String}
    (ho : store.lookup ids node.key = some owner) : store.relationshipWrites ids node r = .ok [] := by
  obtain ⟨s, hset, _⟩ := hmade.set r hr
  have hresolvable := h.fields r.field s hset
  have hunchanged := Node.hasChanges_eq_false_iff.mp hun r.field s hset
  obtain ⟨hadded, hremoved⟩ := RelatedSet.hasChanges_eq_false_iff.mp hunchanged
  have hone : s.cardinality = .one → s.current.size ≤ 1 := by
    intro hcard
    rw [RelatedSet.current_eq_known hunchanged]
    exact size_le_one_of_forall_eq (hresolvable.single hcard)
  have hall : ∀ key, key ∈ s.known ∨ key ∈ s.added ∨ key ∈ s.removed → ∃ id, store.lookup ids key = some id := by
    intro key hkey
    rw [hadded, hremoved] at hkey
    obtain ⟨id, hid⟩ := hresolvable.remembered key (by simpa using hkey)
    exact exists_lookup ids hid
  obtain ⟨writes, hwrites⟩ := exists_relationshipWrites hs hk hr ho hset hone hall
  have hnone : ∀ write, write ∉ writes := by
    intro write hmem
    cases write with
    | create e =>
      obtain ⟨own, hown, key, hkey, _⟩ := (create_mem_relationshipWrites_iff hwrites ho).mp hmem
      obtain rfl := Option.some.inj (hset.symm.trans hown)
      simp [hadded] at hkey
    | delete e =>
      obtain ⟨own, hown, ⟨key, hkey, _⟩ | ⟨key, hkey, _⟩⟩ := (delete_mem_relationshipWrites_iff hs hwrites ho).mp hmem <;>
        obtain rfl := Option.some.inj (hset.symm.trans hown)
      · simp [hremoved] at hkey
      · simp [hadded] at hkey
  rw [hwrites, List.eq_nil_iff_forall_not_mem.mpr hnone]

/-- Nodes without changes, each of which can be told by ids, can be saved under the ids that they have, and nothing is to be
written. -/
theorem exists_plan_of_unchanged (hs : store.schema.WellFormed) (makeId : NodeKey → String)
    (h : ∀ node ∈ nodes, store.Made node ∧ store.Savable node ∧ node.hasChanges = false) :
    ∃ plan, store.plan makeId nodes = .ok plan ∧ plan.writes = ∅ := by
  have hassigned : ∀ node ∈ nodes, ∃ id, store.assignId makeId node = .ok id := by
    intro node hn
    obtain ⟨hmade, hsavable, _⟩ := h node hn
    obtain ⟨kind, hk, _⟩ := hmade.kind
    obtain ⟨id, hid, hstored⟩ := hsavable.stored
    exact ⟨id, assignId_eq_ok_iff.mpr ⟨⟨kind, hk⟩, Or.inr ⟨hid, fun found hf => Option.some.inj (hf.symm.trans hstored)⟩⟩⟩
  have hnone : ∀ ids : Std.ExtTreeMap NodeKey String,
      (∀ key, ids[key]? = (lastWith Node.key nodes key).bind fun node => (store.assignId makeId node).toOption) →
      ∀ node ∈ nodes, ∀ kind, store.schema.kinds[node.kind]? = some kind → ∀ r ∈ kind.relationships,
        store.relationshipWrites ids node r = .ok [] := by
    intro ids hids node hn kind hk r hr
    obtain ⟨hmade, hsavable, hun⟩ := h node hn
    obtain ⟨id, hid⟩ := exists_lookup_of_mem hassigned hids hn
    exact hsavable.relationshipWrites_eq hs hun hk (hmade.madeOf hk) hr hid
  obtain ⟨plan, hp⟩ := exists_unchecked hassigned fun ids hids node hn kind hk r hr => ⟨[], hnone ids hids node hn kind hk r hr⟩
  have hempty : plan.writes = ∅ := by
    refine Std.ExtTreeSet.ext_mem fun write => ⟨fun hmem => ?_, fun hmem => by simp at hmem⟩
    obtain ⟨node, hn, kind, hk, r, hr, ws, hws, hmem⟩ := (hp.writes write).mp hmem
    obtain rfl := Except.ok.inj ((hnone plan.ids hp.ids node hn kind hk r hr).symm.trans hws)
    cases hmem
  refine ⟨plan, plan_eq_ok_iff.mpr ⟨hp.assigned, hp.ids, hp.each, hp.writes, fun e he => ?_, fun e he => ?_⟩, hempty⟩ <;>
    simp [hempty] at he

/-! ## Saving -/

/-- Nodes without changes, each of which can be told by ids, are saved without a write, and have no changes afterwards. -/
theorem exists_save_of_unchanged (hs : store.schema.WellFormed) (makeId : NodeKey → String) (rank : NodeKey → Nat)
    (h : ∀ node ∈ nodes, store.Made node ∧ store.Savable node ∧ node.hasChanges = false) :
    ∃ after nodes', store.save makeId rank nodes = ((after, nodes'), .ok []) ∧ after.graph.edges = store.graph.edges ∧
      nodes'.map Node.key = nodes.map Node.key ∧ ∀ node ∈ nodes', node.hasChanges = false := by
  obtain ⟨plan, hplan, hempty⟩ := exists_plan_of_unchanged hs makeId h
  obtain ⟨⟨after, nodes'⟩, hsave, hwritten⟩ := exists_save rank hplan (plan_eq_ok hplan).complete
  have hnone : plan.writes.toList = [] := by rw [hempty]; rfl
  rw [hnone] at hsave
  refine ⟨after, nodes', hsave, ?_, ?_⟩
  · rw [hwritten.graph]
    refine Std.ExtTreeSet.ext_mem fun e => ?_
    rw [SavePlan.mem_edges_write_iff, hempty]
    simp
  · obtain ⟨_, _, _, hall⟩ := exists_saves hs (fun node hn => (h node hn).1) hsave
    refine ⟨map_eq_of_forall₂ hall fun node node' ⟨_, _, hsaves⟩ => hsaves.key, fun node' hn' => ?_⟩
    obtain ⟨_, _, _, _, hsaves⟩ := exists_of_forall₂ hall node' hn'
    exact hsaves.unchanged

/-! ## Saving again -/

/-- A plan gives nodes with one key the same id. -/
theorem idOf_congr {a b : Node} (h : a.key = b.key) : plan.idOf a = plan.idOf b := by rw [SavePlan.idOf, SavePlan.idOf, h]

/-- When nodes are written again under the same ids, with the same kinds and attributes and without edges, the graph stays. -/
theorem write_again {again : SavePlan} (hempty : again.writes = ∅)
    (h : List.Forall₂ (fun node node' => again.idOf node' = plan.idOf node ∧ node'.kind = node.kind ∧
      node'.attributes = node.attributes) nodes nodes') (graph : Graph) :
    again.write nodes' (plan.write nodes graph) = plan.write nodes graph := by
  have hstored : ∀ (plan : SavePlan) (nodes : List Node) (graph : Graph), (plan.write nodes graph).nodes =
      nodes.foldl (fun stored node => stored.insert (plan.idOf node) ⟨node.kind, node.attributes⟩) graph.nodes := by
    intro plan nodes graph
    rw [SavePlan.write, Graph.nodes_applyAll]
  refine Graph.ext ?_ (Std.ExtTreeSet.ext_mem fun e => ?_)
  · rw [hstored, hstored]
    refine foldl_insert_again (h.imp ?_) graph.nodes
    rintro node node' ⟨hid, hkind, hattributes⟩
    exact ⟨hid, by rw [hkind, hattributes]⟩
  · rw [SavePlan.mem_edges_write_iff, hempty]
    simp

/-- A save that is repeated at once succeeds without a write, and changes nothing. -/
theorem save_again (hs : store.schema.WellFormed) (hmade : ∀ node ∈ nodes, store.Made node) {writes : List EdgeWrite}
    (hsave : store.save makeId rank nodes = ((after, nodes'), .ok writes))
    (h : ∀ node ∈ nodes', after.Made node ∧ after.Savable node) (makeId' : NodeKey → String)
    (rank' : NodeKey → Nat) :
    after.save makeId' rank' nodes' = ((after, nodes'), .ok []) := by
  obtain ⟨plan, _, hafter, hall⟩ := exists_saves hs hmade hsave
  have hschema : after.schema.WellFormed := by
    rw [hafter]
    exact hs
  have hunchanged : ∀ node ∈ nodes', after.Made node ∧ after.Savable node ∧ node.hasChanges = false := by
    intro node' hn'
    obtain ⟨_, _, _, _, hsaves⟩ := exists_of_forall₂ hall node' hn'
    exact ⟨(h node' hn').1, (h node' hn').2, hsaves.unchanged⟩
  obtain ⟨again, hplan, hempty⟩ := exists_plan_of_unchanged hschema makeId' hunchanged
  have hp := plan_eq_ok hplan
  -- Every node has the id that it was saved under, and is saved under it again.
  have hids : ∀ node' ∈ nodes', node'.id = some (plan.idOf node') := by
    intro node' hn'
    obtain ⟨node, _, _, _, hsaves⟩ := exists_of_forall₂ hall node' hn'
    rw [hsaves.id, idOf_congr hsaves.key]
  have hidOf : ∀ node' ∈ nodes', again.idOf node' = plan.idOf node' := by
    intro node' hn'
    obtain ⟨last, hlast, hid⟩ := hp.ids_eq_some_iff.mp (hp.ids_key hn')
    obtain ⟨hln, hkey⟩ := lastWith_some hlast
    rcases (assignId_eq_ok_iff.mp hid).2 with ⟨hnone, _⟩ | ⟨hgiven, _⟩
    · rw [hids last hln] at hnone
      cases hnone
    · rw [hids last hln, idOf_congr hkey] at hgiven
      exact (Option.some.inj hgiven).symm
  have hsame : List.Forall₂ (fun node node' => node'.key = node.key ∧ again.idOf node' = plan.idOf node ∧
      node'.kind = node.kind ∧ node'.attributes = node.attributes) nodes nodes' := by
    refine ((List.forall₂_and_left nodes' nodes).mpr ⟨hidOf, hall.flip⟩).flip.imp ?_
    rintro node node' ⟨hid, _, _, hsaves⟩
    exact ⟨hsaves.key, by rw [hid, idOf_congr hsaves.key], hsaves.kind, hsaves.attributes⟩
  obtain ⟨⟨later, batch⟩, hcarry⟩ := exists_carryOut_of_plan hplan rank'
  obtain ⟨hlater, keys, _, hedits⟩ := carryOut_eq_none hschema hcarry
  have hgraph : again.write nodes' after.graph = after.graph := by
    rw [hafter]
    exact write_again hempty (hsame.imp fun _ _ h => h.2) store.graph
  have hknown : nodes'.foldl (fun known node => known.insert node.key (again.idOf node)) after.known = after.known := by
    rw [hafter]
    exact foldl_insert_again (hsame.imp fun _ _ h => ⟨h.1, h.2.1⟩) store.known
  have hstore : later = after := by rw [hlater, hgraph, hknown]
  have hbatch : List.Forall₂ (· = ·) nodes' batch := by
    refine ((List.forall₂_and_left nodes' batch).mpr ⟨fun _ hn => hn, hedits⟩).imp ?_
    rintro node' node'' ⟨hn', kind, hk, hedit⟩
    obtain ⟨hmade', _, hun⟩ := hunchanged node' hn'
    have hid : node'.withId (again.idOf node') = node' := by
      rw [Node.withId, hidOf node' hn', ← hids node' hn']
    rw [hid, hempty] at hedit
    refine (hedit.eq_self fun r hr s hset => ?_).symm
    have hreach := (hmade'.madeOf hk).reachable hr hset
    exact hreach.canonical.commit_eq_self (Node.hasChanges_eq_false_iff.mp hun r.field s hset)
  rw [List.forall₂_eq_eq_eq] at hbatch
  have hnone : again.writes.toList = [] := by rw [hempty]; rfl
  rw [save, hplan]
  simp only [hcarry, hstore, ← hbatch, hnone]

/-! ## Runs of clients -/

/-- In every run of clients, nodes that the store handed out or saved, and that have no pending changes, are accepted by a save,
however much of what they have loaded is out of date: nothing is returned, the edges stay, and the nodes have no changes
afterwards. A save that succeeded, when it is repeated at once, succeeds without a write and changes nothing. -/
theorem unchanged_nodes_accepted {decls : List KindDecl} {schema : Schema} (hb : Schema.build decls = .ok schema)
    {held : List Held} (hrun : Run schema store held) :
    (∀ (makeId : NodeKey → String) (rank : NodeKey → Nat) (nodes : List Node),
      (∀ node ∈ nodes, ⟨node, true⟩ ∈ held ∧ node.hasChanges = false) →
      ∃ after nodes', store.save makeId rank nodes = ((after, nodes'), .ok []) ∧ after.graph.edges = store.graph.edges ∧
        nodes'.map Node.key = nodes.map Node.key ∧ ∀ node ∈ nodes', node.hasChanges = false) ∧
      ∀ (makeId : NodeKey → String) (rank : NodeKey → Nat) (batch : List Held) (after : Store) (nodes : List Node)
        (writes : List EdgeWrite),
        batch ⊆ held → ((batch.map Held.node).filterMap Node.id).Nodup → store.Fresh makeId (batch.map Held.node) →
        store.save makeId rank (batch.map Held.node) = ((after, nodes), .ok writes) →
        ∀ (makeId' : NodeKey → String) (rank' : NodeKey → Nat), after.save makeId' rank' nodes = ((after, nodes), .ok []) := by
  have hschema := Schema.wellFormed_of_build hb
  have hs : store.schema.WellFormed := hrun.reachable.schema_eq ▸ hschema
  have hkeeps := hrun.keeps hschema
  refine ⟨fun makeId rank nodes h => ?_, fun makeId rank batch after nodes writes hsub hids hf hsave makeId' rank' => ?_⟩
  · refine exists_save_of_unchanged hs makeId rank fun node hn => ?_
    obtain ⟨hheld, hun⟩ := h node hn
    exact ⟨hkeeps.made _ hheld, hkeeps.stored _ hheld rfl, hun⟩
  · have hlater := hkeeps.save hs hsub hids hf hsave
    refine save_again hs (fun node hn => ?_) hsave (fun node hn => ?_) makeId' rank'
    · obtain ⟨entry, hentry, rfl⟩ := List.mem_map.mp hn
      exact hkeeps.made entry (hsub hentry)
    · have hheld : (⟨node, true⟩ : Held) ∈ nodes.map (⟨·, true⟩) ++ held := List.mem_append_left _ (List.mem_map_of_mem hn)
      exact ⟨hlater.made _ hheld, hlater.stored _ hheld rfl⟩

namespace Example

/-- The state in which a project and an issue were made. -/
def drafted : Store := ((Store.empty schema).newNode projectKind).2.newNode issueKind |>.2

/-- The project, to which the issue was added. -/
def draftProject : Node := ((Node.new ⟨0⟩ projectKind).edit "issues" (LocalChange.add ⟨1⟩).apply).1

def draftIssue : Node := Node.new ⟨1⟩ issueKind

/-- The project as it was saved with its issue. -/
def savedProject : Node :=
  { draftProject with id := some "p", related := .ofList [("issues", (RelatedSet.empty "issues" .many).loadOne ⟨1⟩)] compare }

/-- The issue as it was saved with its project. -/
def savedIssue : Node :=
  { draftIssue with id := some "i", related := .ofList [("project", (RelatedSet.empty "project" .one).loadOne ⟨0⟩)] compare }

/-- The issue, taken from its project after it was saved. -/
def looseIssue : Node := (savedIssue.edit "project" (LocalChange.remove ⟨0⟩).apply).1

/-- The state after the project and its issue were saved. -/
def together : Store := (drafted.save Example.makeId NodeKey.val [draftProject, draftIssue]).1.1

/-- The state after the issue was saved without its project. -/
def apart : Store := (together.save (fun _ => "x") NodeKey.val [looseIssue]).1.1

theorem save_drafts : drafted.save Example.makeId NodeKey.val [draftProject, draftIssue] =
    ((together, [savedProject, savedIssue]), .ok [.create ⟨"p", "HAS_ISSUE", "i"⟩]) := by
  have hnodes : (drafted.save Example.makeId NodeKey.val [draftProject, draftIssue]).1.2 = [savedProject, savedIssue] := by
    decide +kernel
  have hwrites : (drafted.save Example.makeId NodeKey.val [draftProject, draftIssue]).2.toOption =
      some [.create ⟨"p", "HAS_ISSUE", "i"⟩] := by decide +kernel
  exact Prod.ext (Prod.ext rfl hnodes) (toOption_eq_some_iff.mp hwrites)

theorem save_loose : ∃ nodes, together.save (fun _ => "x") NodeKey.val [looseIssue] =
    ((apart, nodes), .ok [.delete ⟨"p", "HAS_ISSUE", "i"⟩]) := by
  have hwrites : (together.save (fun _ => "x") NodeKey.val [looseIssue]).2.toOption = some [.delete ⟨"p", "HAS_ISSUE", "i"⟩] := by
    decide +kernel
  exact ⟨_, Prod.ext rfl (toOption_eq_some_iff.mp hwrites)⟩

theorem fresh_drafts : drafted.Fresh Example.makeId [draftProject, draftIssue] := by
  refine ⟨fun key => ?_, ?_, ?_⟩
  · simp [drafted, newNode, issueKey, Store.empty, Graph.empty]
  all_goals
    intro node hn other ho
    rcases List.mem_pair.mp hn with rfl | rfl <;> rcases List.mem_pair.mp ho with rfl | rfl <;> decide

theorem fresh_loose : together.Fresh (fun _ => "x") [looseIssue] := by
  have hnone : together.graph.nodes["x"]? = none := by decide +kernel
  refine ⟨fun _ => hnone, ?_, ?_⟩ <;> simp only [List.mem_singleton, forall_eq]
  · decide
  · exact fun _ => trivial

/-- The project is still held when its issue was taken from it by way of the issue. -/
theorem run_apart : ∃ held, Run schema apart held ∧ ⟨savedProject, true⟩ ∈ held := by
  have hprojects : schema.kinds["Project"]? = some projectKind := rfl
  have hissues : schema.kinds["Issue"]? = some issueKind := rfl
  have hdrafts : Run schema drafted [⟨draftProject, false⟩, ⟨draftIssue, false⟩, ⟨Node.new ⟨0⟩ projectKind, false⟩] :=
    .edit "issues" (.add ⟨1⟩) (.create (.create .start hprojects) hissues) (List.mem_cons_of_mem _ List.mem_cons_self)
  have hbatch : [⟨draftProject, false⟩, ⟨draftIssue, false⟩] ⊆
      [⟨draftProject, false⟩, ⟨draftIssue, false⟩, (⟨Node.new ⟨0⟩ projectKind, false⟩ : Held)] := by simp
  have htogether := hdrafts.save hbatch (by decide) fresh_drafts save_drafts
  have hissue : ⟨savedIssue, true⟩ ∈ ([savedProject, savedIssue].map (⟨·, true⟩) : List Held) := by simp
  have hloose := htogether.edit "project" (.remove ⟨0⟩) (List.mem_append_left _ hissue)
  have hsub : [⟨looseIssue, true⟩] ⊆ ⟨looseIssue, true⟩ :: ([savedProject, savedIssue].map (⟨·, true⟩) ++
      [⟨draftProject, false⟩, ⟨draftIssue, false⟩, (⟨Node.new ⟨0⟩ projectKind, false⟩ : Held)]) := by simp
  obtain ⟨nodes, hsave⟩ := save_loose
  exact ⟨_, hloose.save hsub (by decide) fresh_loose hsave, by simp⟩

end Example

/-- A project is saved without a change after its issue was taken from it by way of the issue, which the project does not know. -/
theorem stale_project_accepted :
    Example.savedProject.related["issues"]? = some ((RelatedSet.empty "issues" .many).loadOne ⟨1⟩) ∧
      Example.apart.graph.edges = ∅ ∧
      ∃ after nodes', Example.apart.save (fun _ => "x") NodeKey.val [Example.savedProject] = ((after, nodes'), .ok []) ∧
        after.graph.edges = ∅ ∧ ∀ node ∈ nodes', node.hasChanges = false := by
  obtain ⟨held, hrun, hheld⟩ := Example.run_apart
  have hempty : Example.apart.graph.edges = ∅ := by decide +kernel
  obtain ⟨after, nodes', hsave, hedges, _, hunchanged⟩ := (unchanged_nodes_accepted Example.build_decls hrun).1 (fun _ => "x")
    NodeKey.val [Example.savedProject] (List.forall_mem_singleton.mpr ⟨hheld, by decide⟩)
  exact ⟨by rfl, hempty, after, nodes', hsave, hedges.trans hempty, hunchanged⟩

end Store

end EntityGraph
