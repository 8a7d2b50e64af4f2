import EntityGraph.Proofs.Store.Reading
import EntityGraph.Proofs.Store.Written

/-!
# Reachable stores

The states that a store reaches from the empty one by the requests of clients, saves of any batch among them, also those that
fail. In each of them the kinds of the stored nodes are kinds of the schema, the ends of the edges are stored, and so is every
node whose id is remembered (`Store.Sound`).
-/

namespace EntityGraph

namespace Store

/-! ## Steps -/

/-- A request of a client, with the state of the store after it. A read that fails is none: it leaves the store as it is. -/
inductive Step (store : Store) : Store → Prop
  | issueKey : Step store store.issueKey.2
  | query {kind : String} {subject : Variable} {condition : Condition} {nodes : List Node} {after : Store} :
      store.query kind subject condition = .ok (nodes, after) → Step store after
  | get {kind id : String} {node? : Option Node} {after : Store} : store.get kind id = .ok (node?, after) → Step store after
  | load (node : Node) (field : String) : Step store (store.load node field).1.1
  | save (makeId : NodeKey → String) (rank : NodeKey → Nat) (nodes : List Node) :
      store.MakesFresh makeId → Step store (store.save makeId rank nodes).1.1

/-- The states that a store of a schema reaches from the empty one. -/
inductive Reachable (schema : Schema) : Store → Prop
  | empty : Reachable schema (.empty schema)
  | step {store after : Store} : Reachable schema store → Step store after → Reachable schema after

/-- What holds of every reachable state, whatever was saved. -/
structure Sound (store : Store) : Prop where
  /-- A stored node is of a kind of the schema. -/
  kinds : ∀ {id : String} {stored : StoredNode}, store.graph.nodes[id]? = some stored →
    ∃ kind, store.schema.kinds[stored.kind]? = some kind
  /-- Both ends of an edge are stored. -/
  ends : ∀ {e : Edge}, e ∈ store.graph.edges → ∀ {id : String}, id = e.source ∨ id = e.target →
    ∃ stored, store.graph.nodes[id]? = some stored
  /-- The ids that are remembered are stored. -/
  known : ∀ {key : NodeKey} {id : String}, store.known[key]? = some id → ∃ stored, store.graph.nodes[id]? = some stored

/-- At the end of an edge that was there before the save, the kind is that of before. -/
theorem Unchecked.kindOf?_of_end {store : Store} {makeId : NodeKey → String} {nodes : List Node} {plan : SavePlan}
    (hp : store.Unchecked makeId nodes plan) (hf : store.MakesFresh makeId) (hs : store.Sound) {e : Edge}
    (he : e ∈ store.graph.edges) {id name : String} (hid : id = e.source ∨ id = e.target)
    (hk : (plan.write nodes store.graph).kindOf? id = some name) : store.graph.kindOf? id = some name := by
  obtain ⟨stored, hstored⟩ := hs.ends he hid
  rw [hp.kindOf?_write_of_stored hf hstored] at hk
  exact Graph.kindOf?_eq_some_iff.mpr ⟨stored, hstored, Option.some.inj hk⟩

theorem Planned.kindOf?_of_end {store : Store} {makeId : NodeKey → String} {nodes : List Node} {plan : SavePlan}
    (hp : store.Planned makeId nodes plan) (hf : store.MakesFresh makeId) (hs : store.Sound) {e : Edge}
    (he : e ∈ store.graph.edges) {id name : String} (hid : id = e.source ∨ id = e.target)
    (hk : (plan.write nodes store.graph).kindOf? id = some name) : store.graph.kindOf? id = some name :=
  hp.unchecked.kindOf?_of_end hf hs he hid hk

/-! ## What a save changes of the store -/

/-- Carrying out a plan writes it, and remembers the batch; the rest of the store stays, also when it is stopped. -/
structure Written (store : Store) (plan : SavePlan) (nodes : List Node) (after : Store) : Prop where
  schema : after.schema = store.schema
  graph : after.graph = plan.write nodes store.graph
  known : ∀ (key : NodeKey) (id : String), after.known[key]? = some id →
    store.known[key]? = some id ∨ ∃ node ∈ nodes, node.key = key ∧ plan.idOf node = id

theorem written_commit {store after : Store} {plan : SavePlan} {nodes : List Node} {node : Node} (hn : node ∈ nodes)
    (h : store.Written plan nodes after) : store.Written plan nodes (plan.commit (after, node)).1.1 := by
  have hfst : (plan.commit (after, node)).1.1 =
      { after with known := after.known.insert node.key (plan.idOf node) } := by
    rw [SavePlan.commit, Edit.onSecond_fst]
  rw [hfst]
  refine ⟨h.schema, h.graph, fun key id hid => ?_⟩
  rw [Std.ExtTreeMap.getElem?_insert] at hid
  split at hid
  · next hk => exact Or.inr ⟨node, hn, by simpa using hk, Option.some.inj hid⟩
  · exact h.known key id hid

theorem written_carryOut (store : Store) (rank : NodeKey → Nat) (plan : SavePlan) (nodes : List Node) :
    store.Written plan nodes (carryOut rank plan (store, nodes)).1.1 := by
  refine Edit.andThen_keeps (P := fun p : Store × List Node => store.Written plan nodes p.1) ?_ ?_
  · refine Edit.onEach_keeps (fun node hn after h => written_commit hn h) ?_
    exact ⟨rfl, rfl, fun _ _ h => Or.inl h⟩
  · rintro ⟨after, batch⟩ h
    refine Edit.inOrder_keeps (P := fun p : Store × List Node => store.Written plan nodes p.1) ?_ h
    intro e he p hp
    obtain ⟨write, _, rfl⟩ := List.mem_map.mp he
    refine Edit.onEach_keeps (P := store.Written plan nodes) (fun node _ after h => ?_) hp
    rw [Edit.onSecond_fst]
    exact h

/-- A save changes nothing of the store, or it was planned and the plan is written. -/
theorem save_cases (store : Store) (makeId : NodeKey → String) (rank : NodeKey → Nat) (nodes : List Node) :
    (store.save makeId rank nodes).1.1 = store ∨
      ∃ plan, store.Planned makeId nodes plan ∧ store.Written plan nodes (store.save makeId rank nodes).1.1 := by
  rw [save]
  cases hp : store.plan makeId nodes with
  | error e => exact Or.inl rfl
  | ok plan =>
    refine Or.inr ⟨plan, plan_eq_ok hp, ?_⟩
    have hw := written_carryOut store rank plan nodes
    dsimp only
    split <;> next hc => rw [hc] at hw; exact hw

/-- A save that succeeds has carried out a plan, and returns its writes. -/
theorem planned_of_save {store : Store} {makeId : NodeKey → String} {rank : NodeKey → Nat} {nodes : List Node}
    {reached : Store × List Node} {writes : List EdgeWrite} (h : store.save makeId rank nodes = (reached, .ok writes)) :
    ∃ plan, store.Planned makeId nodes plan ∧ store.Written plan nodes reached.1 ∧ writes = plan.writes.toList := by
  rw [save] at h
  cases hp : store.plan makeId nodes with
  | error e => simp [hp] at h
  | ok plan =>
    have hw := written_carryOut store rank plan nodes
    simp only [hp] at h
    split at h
    · cases h
    · next hc =>
      rw [hc] at hw
      obtain ⟨rfl, hwrites⟩ := Prod.mk.inj h
      exact ⟨plan, plan_eq_ok hp, hw, (Except.ok.inj hwrites).symm⟩

/-! ## The invariant -/

theorem Sound.empty (schema : Schema) : (Store.empty schema).Sound := by
  refine ⟨?_, ?_, ?_⟩ <;> simp [Store.empty, Graph.empty]

theorem ReadsOnly.sound {store after : Store} (h : store.ReadsOnly after) (hs : store.Sound) : after.Sound := by
  refine ⟨?_, ?_, ?_⟩
  · rw [h.schema, h.graph]
    exact hs.kinds
  · rw [h.graph]
    exact hs.ends
  · intro key id hid
    rw [h.graph]
    rcases h.known key id hid with hold | hstored
    · exact hs.known hold
    · exact hstored

theorem Planned.sound {store after : Store} {makeId : NodeKey → String} {nodes : List Node} {plan : SavePlan}
    (hp : store.Planned makeId nodes plan) (hw : store.Written plan nodes after) (hs : store.Sound) : after.Sound := by
  refine ⟨?_, ?_, ?_⟩
  · intro id stored hstored
    rw [hw.graph] at hstored
    rw [hw.schema]
    have hkind := Graph.kindOf?_eq_some_iff.mpr ⟨stored, hstored, rfl⟩
    rcases hp.kindOf?_write_cases hkind with hold | ⟨node, hn, hid, hnode⟩
    · obtain ⟨old, ho, hok⟩ := Graph.kindOf?_eq_some_iff.mp hold
      rw [← hok]
      exact hs.kinds ho
    · rw [← hnode]
      exact (assignId_eq_ok_iff.mp hid).1
  · intro e he id hid
    rw [hw.graph] at he ⊢
    rcases SavePlan.mem_edges_write_iff.mp he with hc | ⟨hold, _⟩
    · exact hp.create_ends hc hid
    · obtain ⟨stored, hstored⟩ := hs.ends hold hid
      exact Planned.exists_write_of_stored hstored
  · intro key id hid
    rw [hw.graph]
    rcases hw.known key id hid with hold | ⟨node, hn, _, rfl⟩
    · obtain ⟨stored, hstored⟩ := hs.known hold
      exact Planned.exists_write_of_stored hstored
    · exact Planned.exists_write_of_mem hn

/-- Every step is a read, or it writes a plan with fresh ids. -/
theorem Step.cases {store after : Store} (h : store.Step after) : store.ReadsOnly after ∨
    ∃ makeId nodes plan, store.MakesFresh makeId ∧ store.Planned makeId nodes plan ∧ store.Written plan nodes after := by
  cases h with
  | issueKey => exact Or.inl ⟨rfl, rfl, fun _ _ h => Or.inl h⟩
  | query h => exact Or.inl (query_readsOnly h)
  | get h => exact Or.inl (get_readsOnly h)
  | load node field => exact Or.inl (load_readsOnly store node field)
  | save makeId rank nodes hf =>
    rcases store.save_cases makeId rank nodes with hsame | ⟨plan, hp, hw⟩
    · rw [hsame]
      exact Or.inl (ReadsOnly.refl store)
    · exact Or.inr ⟨makeId, nodes, plan, hf, hp, hw⟩

theorem Step.sound {store after : Store} (h : store.Step after) (hs : store.Sound) : after.Sound := by
  rcases h.cases with hread | ⟨_, _, _, _, hp, hw⟩
  · exact hread.sound hs
  · exact hp.sound hw hs

theorem Reachable.sound {schema : Schema} {store : Store} (h : Reachable schema store) : store.Sound := by
  induction h with
  | empty => exact Sound.empty schema
  | step _ hstep ih => exact hstep.sound ih

theorem Reachable.schema_eq {schema : Schema} {store : Store} (h : Reachable schema store) : store.schema = schema := by
  induction h with
  | empty => rfl
  | step _ hstep ih =>
    rcases hstep.cases with hread | ⟨_, _, _, _, _, hw⟩
    · rw [hread.schema, ih]
    · rw [hw.schema, ih]

/-! ## An example: a project and its issue, saved together -/

namespace Example

def issues : Relationship := ⟨"Project", "issues", "Issue", "HAS_ISSUE", .outgoing, .many, some "project"⟩

def project : Relationship := ⟨"Issue", "project", "Project", "HAS_ISSUE", .incoming, .one, some "issues"⟩

def projectKind : EntityKind := ⟨"Project", [], [issues]⟩

def issueKind : EntityKind := ⟨"Issue", [⟨"title", .string⟩], [project]⟩

def decls : List KindDecl :=
  [⟨"Project", [], [⟨"issues", "Issue", "HAS_ISSUE", .outgoing, .many⟩]⟩,
    ⟨"Issue", [⟨"title", .string⟩], [⟨"project", "Project", "HAS_ISSUE", .incoming, .one⟩]⟩]

def schema : Schema := ⟨.ofList [("Project", projectKind), ("Issue", issueKind)] compare⟩

theorem build_decls : Schema.build decls = .ok schema := rfl

/-- A new project, to which an issue was added. -/
def newProject : Node :=
  { Node.new ⟨0⟩ projectKind with related := .ofList [("issues", (RelatedSet.empty "issues" .many).add ⟨1⟩)] compare }

def newIssue : Node := (Node.new ⟨1⟩ issueKind).setAttribute "title" (.string "crash")

def makeId (key : NodeKey) : String := if key = ⟨0⟩ then "p" else "i"

/-- The state after both were saved. -/
def saved : Store := ((Store.empty schema).save makeId NodeKey.val [newProject, newIssue]).1.1

theorem saved_eq : saved =
    ⟨schema,
      ⟨.ofList [("p", ⟨"Project", ∅⟩), ("i", ⟨"Issue", .ofList [("title", .string "crash")] compare⟩)] compare,
        .ofList [⟨"p", "HAS_ISSUE", "i"⟩] compare⟩,
      .ofList [(⟨0⟩, "p"), (⟨1⟩, "i")] compare, 0⟩ := by
  decide +kernel

theorem neighbors_saved : saved.graph.neighbors "i" project.label project.direction = ["p"] := by
  rw [saved_eq]
  rfl

theorem kindOf?_saved : saved.graph.kindOf? "p" = some "Project" := by
  rw [saved_eq]
  rfl

theorem makesFresh_empty : (Store.empty schema).MakesFresh makeId := by
  intro key
  simp [Store.empty, Graph.empty]

theorem reachable_saved : Reachable schema saved := .step .empty (.save makeId NodeKey.val [newProject, newIssue] makesFresh_empty)

end Example

end Store

end EntityGraph
