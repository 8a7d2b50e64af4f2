import EntityGraph.Proofs.Store.Failing
import EntityGraph.Proofs.Store.Frame

/-!
# Edges that the schema declares

Every edge was created for a relationship of the kind of one of its ends, and is stored between nodes that keep their kinds. What
is at its other end is what clients added to the relationship: a store looks at the ids of added nodes, not at their kinds. So an
edge is declared for the kinds at both ends if all that was added was of the related kind (`edges_declared`). What was saved on
the way to a state is its history; all reachable states have one (`reachable_iff_exists_history`).
-/

namespace EntityGraph

/-- A kind has a relationship that follows a label in a direction, to nodes of a related kind. -/
def Schema.Declares (schema : Schema) (kind label : String) (direction : Direction) (related : String) : Prop :=
  ∃ k, schema.kinds[kind]? = some k ∧
    ∃ r ∈ k.relationships, r.label = label ∧ r.direction = direction ∧ r.relatedKind = related

namespace Store

/-! ## Histories -/

/-- A save that was carried out: the state before it, the batch, and the plan. -/
structure Saved where
  before : Store
  nodes : List Node
  plan : SavePlan

/-- Nodes that were saved under one id are of one kind. -/
def Saved.OneKind (save : Saved) : Prop :=
  ∀ node ∈ save.nodes, ∀ other ∈ save.nodes, save.plan.idOf other = save.plan.idOf node → other.kind = node.kind

/-- Nodes that were added to a relationship are of its related kind. -/
def Saved.OfRelatedKinds (save : Saved) : Prop :=
  ∀ node r s, save.before.schema.FieldOf save.nodes node r s →
    ∀ key ∈ s.added, save.before.KeyOfKind save.nodes key r.relatedKind

/-- The saves that were carried out on the way to a state, the latest first. A save that fails writes nothing, as a read. -/
inductive History (schema : Schema) : List Saved → Store → Prop
  | empty : History schema [] (.empty schema)
  | read {saves : List Saved} {store after : Store} : History schema saves store → store.Step after →
      store.ReadsOnly after → History schema saves after
  | save {saves : List Saved} {store : Store} {makeId : NodeKey → String} {rank : NodeKey → Nat} {nodes : List Node}
      {plan : SavePlan} : History schema saves store → store.MakesFresh makeId → store.plan makeId nodes = .ok plan →
      History schema (⟨store, nodes, plan⟩ :: saves) (store.save makeId rank nodes).1.1

theorem History.reachable {schema : Schema} {saves : List Saved} {store : Store} (h : History schema saves store) :
    Reachable schema store := by
  induction h with
  | empty => exact .empty
  | read _ hstep _ ih => exact .step ih hstep
  | save _ hf _ ih => exact .step ih (.save _ _ _ hf)

/-- Every reachable state has a history. -/
theorem reachable_iff_exists_history {schema : Schema} {store : Store} :
    Reachable schema store ↔ ∃ saves, History schema saves store := by
  refine ⟨fun h => ?_, fun ⟨_, h⟩ => h.reachable⟩
  induction h with
  | empty => exact ⟨[], .empty⟩
  | @step store after _ hstep ih =>
    obtain ⟨saves, hsaves⟩ := ih
    cases hstep with
    | issueKey => exact ⟨saves, .read hsaves .issueKey ⟨rfl, rfl, fun _ _ h => Or.inl h⟩⟩
    | query h => exact ⟨saves, .read hsaves (.query h) (query_readsOnly h)⟩
    | get h => exact ⟨saves, .read hsaves (.get h) (get_readsOnly h)⟩
    | load node field => exact ⟨saves, .read hsaves (.load node field) (load_readsOnly store node field)⟩
    | save makeId rank nodes hf =>
      cases hplan : store.plan makeId nodes with
      | ok plan => exact ⟨_, .save hsaves hf hplan⟩
      | error e =>
        have hsame : (store.save makeId rank nodes).1.1 = store := by rw [save, hplan]
        refine ⟨saves, .read hsaves (.save makeId rank nodes hf) ?_⟩
        rw [hsame]
        exact ReadsOnly.refl store

/-! ## The ends of an edge -/

namespace Planned

variable {store : Store} {makeId : NodeKey → String} {nodes : List Node} {plan : SavePlan} {key : NodeKey} {id kind : String}

/-- The node that a key stands for is stored as one of the kind that the key stands for. -/
theorem kindOf?_write_of_lookup (hp : store.Planned makeId nodes plan) (hf : store.MakesFresh makeId)
    (hone : Saved.OneKind ⟨store, nodes, plan⟩) (hkey : store.KeyOfKind nodes key kind)
    (hl : store.lookup plan.ids key = some id) : (plan.write nodes store.graph).kindOf? id = some kind := by
  rcases Option.or_eq_some_iff.mp hl with hbatch | ⟨hnone, hknown⟩
  · obtain ⟨node, hn, hnk, rfl⟩ := hp.exists_of_ids hbatch
    rw [← hkey.1 node hn hnk]
    exact kindOf?_write_of_mem hn fun other ho hid => hone node hn other ho hid
  · refine hp.kindOf?_write_of_kindOf? hf (hkey.2 (fun node hn hnk => ?_) id hknown)
    rw [← hnk, hp.ids_key hn] at hnone
    cases hnone

end Planned

/-- A relationship is one of the kind that a node is stored as. -/
def Owns (store : Store) (id : String) (r : Relationship) : Prop :=
  ∃ name kind, store.graph.kindOf? id = some name ∧ store.schema.kinds[name]? = some kind ∧ r ∈ kind.relationships

/-- Every edge relates two nodes through a relationship of the kind of one of them, and the other one is of its related kind if
all that was added to relationships is. -/
theorem History.exists_owns {schema : Schema} {saves : List Saved} {store : Store} (h : History schema saves store)
    (hone : ∀ save ∈ saves, save.OneKind) {e : Edge} (he : e ∈ store.graph.edges) :
    ∃ r owner other, e = r.edge ⟨owner, other⟩ ∧ store.Owns owner r ∧
      ((∀ save ∈ saves, save.OfRelatedKinds) → store.graph.kindOf? other = some r.relatedKind) := by
  induction h with
  | empty => simp [Store.empty, Graph.empty] at he
  | read _ _ hread ih =>
    unfold Owns
    rw [hread.graph] at he ⊢
    rw [hread.schema]
    exact ih hone he
  | @save saves store makeId rank nodes plan h hf hplan ih =>
    have hp := plan_eq_ok hplan
    obtain ⟨hlast, hbefore⟩ := List.forall_mem_cons.mp hone
    obtain ⟨reached, hsave, hw⟩ := exists_save rank hplan hp.complete
    rw [hsave] at he ⊢
    rw [hw.graph] at he
    unfold Owns
    rw [hw.schema, hw.graph]
    rcases SavePlan.mem_edges_write_iff.mp he with hcreate | ⟨hold, _⟩
    · obtain ⟨node, hn, kind, hk, r, hr, s, hset, key, hkey, hnew, other, hl, rfl⟩ := hp.create_mem_iff.mp hcreate
      have hnode : (plan.write nodes store.graph).kindOf? (plan.idOf node) = some node.kind :=
        Planned.kindOf?_write_of_mem hn fun other ho hid => hlast node hn other ho hid
      refine ⟨r, _, other, rfl, ⟨node.kind, kind, hnode, hk, hr⟩, fun hrelated => ?_⟩
      exact hp.kindOf?_write_of_lookup hf hlast
        (hrelated _ List.mem_cons_self node r s ⟨hn, ⟨kind, hk, hr⟩, hset⟩ key hkey) hl
    · obtain ⟨r, owner, other, rfl, ⟨name, kind, hname, hk, hr⟩, hrelated⟩ := ih hbefore hold
      exact ⟨r, owner, other, rfl, ⟨name, kind, hp.kindOf?_write_of_kindOf? hf hname, hk, hr⟩, fun hall =>
        hp.kindOf?_write_of_kindOf? hf (hrelated fun save hs => hall save (List.mem_cons_of_mem _ hs))⟩

/-- Where nodes that are saved under one id are of one kind, the schema declares for every edge a relationship along its label, of
the kind of one of its ends. If all that was added to relationships is of their related kinds, it declares one for the kinds of
both ends. -/
theorem edges_declared {schema : Schema} {saves : List Saved} {store : Store} (h : History schema saves store)
    (hone : ∀ save ∈ saves, save.OneKind) {e : Edge} (he : e ∈ store.graph.edges) :
    ∃ source target, store.graph.kindOf? e.source = some source ∧ store.graph.kindOf? e.target = some target ∧
      ((∃ related, schema.Declares source e.label .outgoing related) ∨
        ∃ related, schema.Declares target e.label .incoming related) ∧
      ((∀ save ∈ saves, save.OfRelatedKinds) →
        schema.Declares source e.label .outgoing target ∨ schema.Declares target e.label .incoming source) := by
  obtain ⟨r, owner, other, rfl, ⟨name, kind, hname, hk, hr⟩, hrelated⟩ := h.exists_owns hone he
  obtain ⟨stored, hstored⟩ := h.reachable.sound.ends he r.related_end
  have hother : store.graph.kindOf? other = some stored.kind := Graph.kindOf?_eq_some_iff.mpr ⟨stored, hstored, rfl⟩
  rw [h.reachable.schema_eq] at hk
  have hdeclares : schema.Declares name r.label r.direction r.relatedKind := ⟨kind, hk, r, hr, rfl, rfl, rfl⟩
  have hkind : (∀ save ∈ saves, save.OfRelatedKinds) → r.relatedKind = stored.kind := fun hall =>
    Option.some.inj ((hrelated hall).symm.trans hother)
  cases hd : r.direction with
  | outgoing =>
    rw [hd] at hdeclares
    simp only [Relationship.edge, hd]
    exact ⟨name, stored.kind, hname, hother, Or.inl ⟨_, hdeclares⟩, fun hall => Or.inl (hkind hall ▸ hdeclares)⟩
  | incoming =>
    rw [hd] at hdeclares
    simp only [Relationship.edge, hd]
    exact ⟨stored.kind, name, hother, hname, Or.inr ⟨_, hdeclares⟩, fun hall => Or.inr (hkind hall ▸ hdeclares)⟩

/-! ## An example: a project among the issues of a project -/

namespace Example

/-- The plan for saving a project with its issue. -/
def firstPlan : SavePlan :=
  ⟨.ofList [(⟨0⟩, "p"), (⟨1⟩, "i")] compare, .ofList [.create ⟨"p", "HAS_ISSUE", "i"⟩] compare⟩

/-- The save of a project with its issue. -/
def firstSave : Saved := ⟨.empty schema, [newProject, newIssue], firstPlan⟩

theorem history_saved : History schema [firstSave] saved := by
  have hplan : (Store.empty schema).plan makeId [newProject, newIssue] = .ok firstPlan := by
    decide +kernel
  exact .save .empty makesFresh_empty hplan

theorem oneKind_firstSave : firstSave.OneKind := by
  have hp : firstPlan.idOf newProject = "p" := rfl
  have hi : firstPlan.idOf newIssue = "i" := rfl
  simp [Saved.OneKind, firstSave, hp, hi]

theorem ofRelatedKinds_firstSave : firstSave.OfRelatedKinds := by
  rintro node r s ⟨hn, ⟨kind, hk, hr⟩, hset⟩ key hkey
  rcases List.mem_pair.mp hn with rfl | rfl
  · obtain rfl := Option.some.inj ((rfl : schema.kinds[newProject.kind]? = some projectKind).symm.trans hk)
    obtain rfl := List.mem_singleton.mp hr
    obtain rfl := Option.some.inj ((rfl : newProject.related["issues"]? = some _).symm.trans hset)
    obtain rfl : ⟨1⟩ = key := by simpa [RelatedSet.add, RelatedSet.empty, RelatedSet.known] using hkey
    refine ⟨fun other ho hother => ?_, fun habsent => absurd rfl (habsent newIssue (by simp [firstSave]))⟩
    rcases List.mem_pair.mp ho with rfl | rfl
    · exact absurd hother (by decide)
    · rfl
  · obtain rfl := Option.some.inj ((rfl : schema.kinds[newIssue.kind]? = some issueKind).symm.trans hk)
    obtain rfl := List.mem_singleton.mp hr
    obtain rfl := Option.some.inj ((rfl : newIssue.related["project"]? = some _).symm.trans hset)
    simp [RelatedSet.empty] at hkey

/-- The ids of two projects. -/
def makeProjectId (key : NodeKey) : String := if key = ⟨0⟩ then "p" else "q"

/-- The state after a project was saved with another one among its issues. -/
def nested : Store := ((Store.empty schema).save makeProjectId NodeKey.val [newProject, Node.new ⟨1⟩ projectKind]).1.1

theorem nested_eq : nested =
    ⟨schema, ⟨.ofList [("p", ⟨"Project", ∅⟩), ("q", ⟨"Project", ∅⟩)] compare, .ofList [⟨"p", "HAS_ISSUE", "q"⟩] compare⟩,
      .ofList [(⟨0⟩, "p"), (⟨1⟩, "q")] compare, 0⟩ := by
  decide +kernel

theorem reachable_nested : Reachable schema nested := by
  refine .step .empty (.save makeProjectId NodeKey.val [newProject, Node.new ⟨1⟩ projectKind] fun key => ?_)
  simp [Store.empty, Graph.empty]

end Example

/-- The edge from a project to its issue is declared for their kinds. -/
theorem issue_edge_declared : ∃ source target,
    Example.saved.graph.kindOf? "p" = some source ∧ Example.saved.graph.kindOf? "i" = some target ∧
      (Example.schema.Declares source "HAS_ISSUE" .outgoing target ∨
        Example.schema.Declares target "HAS_ISSUE" .incoming source) := by
  have he : (⟨"p", "HAS_ISSUE", "i"⟩ : Edge) ∈ Example.saved.graph.edges := by
    rw [Example.saved_eq]
    simp
  obtain ⟨source, target, hsource, htarget, _, hdeclared⟩ := edges_declared Example.history_saved
    (by simpa using Example.oneKind_firstSave) he
  exact ⟨source, target, hsource, htarget, hdeclared (by simpa using Example.ofRelatedKinds_firstSave)⟩

/-- A project may be saved among the issues of a project, by an edge that the schema does not declare for their kinds. -/
theorem nested_project_undeclared : Schema.build Example.decls = .ok Example.schema ∧
    Reachable Example.schema Example.nested ∧ ∃ e ∈ Example.nested.graph.edges,
      ¬∃ source target, Example.nested.graph.kindOf? e.source = some source ∧
        Example.nested.graph.kindOf? e.target = some target ∧
        (Example.schema.Declares source e.label .outgoing target ∨
          Example.schema.Declares target e.label .incoming source) := by
  refine ⟨Example.build_decls, Example.reachable_nested, ⟨"p", "HAS_ISSUE", "q"⟩, ?_, ?_⟩
  · rw [Example.nested_eq]
    simp
  · rintro ⟨source, target, hsource, htarget, hdeclared⟩
    have hkinds : Example.nested.graph.kindOf? "p" = some "Project" ∧ Example.nested.graph.kindOf? "q" = some "Project" := by
      rw [Example.nested_eq]
      exact ⟨rfl, rfl⟩
    obtain rfl := Option.some.inj (hkinds.1.symm.trans hsource)
    obtain rfl := Option.some.inj (hkinds.2.symm.trans htarget)
    -- The one relationship of a project leads to issues.
    have hnone : ∀ direction, ¬Example.schema.Declares "Project" "HAS_ISSUE" direction "Project" := by
      rintro direction ⟨kind, hk, r, hr, _, _, hrelated⟩
      obtain rfl := Option.some.inj ((rfl : Example.schema.kinds["Project"]? = some Example.projectKind).symm.trans hk)
      rw [List.mem_singleton.mp hr] at hrelated
      exact absurd hrelated (by decide)
    exact hdeclared.elim (hnone _) (hnone _)

end Store

end EntityGraph
