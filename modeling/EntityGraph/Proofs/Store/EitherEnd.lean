import EntityGraph.Proofs.Store.Replay
import EntityGraph.Proofs.Store.Session
import EntityGraph.Proofs.Store.Succeeding

/-!
# Relating nodes from either end

Two nodes are related through a relationship or through its mirror. Saved from either end, the edge between them is there, what
a field for one node held at either end is not, and all else is as before (`Relating.mem_edges_iff`), so that both ways lead to
the same edges (`related_from_either_end`).
-/

namespace EntityGraph

/-- A node with another one related in a field. -/
def Node.relateIn (node : Node) (field : String) (s : RelatedSet) (key : NodeKey) : Node :=
  { node with related := node.related.insert field (s.relate key) }

namespace Relationship

/-- An edge is that to the node that a field for one node holds, when another node takes its place. -/
def Displaces (r : Relationship) (g : Graph) (owner other : String) (e : Edge) : Prop :=
  r.cardinality = .one ∧ ∃ previous, r.Holds g owner previous ∧ previous ≠ other ∧ e = r.edge ⟨owner, previous⟩

/-- Of the edges to nodes of the related kind, only that to the node that takes the place is not displaced. -/
theorem eq_of_not_displaces {r : Relationship} {g : Graph} {owner other id : String} (hone : r.cardinality = .one)
    (hk : g.kindOf? id = some r.relatedKind) (h : r.edge ⟨owner, id⟩ = r.edge ⟨owner, other⟩ ∨
      r.edge ⟨owner, id⟩ ∈ g.edges ∧ ¬r.Displaces g owner other (r.edge ⟨owner, id⟩)) : id = other := by
  rcases h with he | ⟨he, hkept⟩
  · exact congrArg IdPair.related (edge_injective he)
  · by_contra hne
    exact hkept ⟨hone, id, ⟨he, hk⟩, hne, rfl⟩

end Relationship

namespace Store

/-- Nothing is displaced where the field for one node holds the node already. -/
theorem ToOne.not_displaces {store : Store} (hone : store.ToOne) {owner other name : String} {kind : EntityKind}
    {r : Relationship} (hn : store.graph.kindOf? owner = some name) (hk : store.schema.kinds[name]? = some kind)
    (hr : r ∈ kind.relationships) (hheld : r.Holds store.graph owner other) (e : Edge) :
    ¬r.Displaces store.graph owner other e := by
  rintro ⟨hcard, previous, hprevious, hne, _⟩
  exact hne (hone hn hk hr hcard hprevious.1 hprevious.2 hheld.1 hheld.2)

/-- A stored node, known by a key, is to be related to a node that the store shows, in a field that was loaded. -/
structure Relating (store : Store) (id : String) (node : Node) (kind : EntityKind) (f g : Relationship) (s : RelatedSet)
    (key : NodeKey) (other : String) : Prop where
  wellFormed : store.schema.WellFormed
  sound : store.Sound
  toOne : store.ToOne
  ofKind : store.schema.kinds[node.kind]? = some kind
  mem : f ∈ kind.relationships
  mirrors : store.schema.Mirrors f g
  back : g.relatedKind = node.kind
  shows : ∃ loaded, store.Shows id node loaded
  set : node.related[f.field]? = some s
  seen : s.Seen store f
  loaded : s.isLoaded = true
  agrees : s.Agrees store f id
  known : store.known[key]? = some other
  stored : store.graph.kindOf? other = some f.relatedKind

namespace Relating

variable {store : Store} {id other : String} {node : Node} {kind : EntityKind} {f g : Relationship} {s : RelatedSet}
  {key : NodeKey} {makeId : NodeKey → String} {plan : SavePlan}

/-- The field after the node was related, and the other fields as they were. -/
theorem set_cases (h : store.Relating id node kind f g s key other) {r : Relationship} (hr : r ∈ kind.relationships)
    {t : RelatedSet} (ht : (node.relateIn f.field s key).related[r.field]? = some t) :
    r = f ∧ t = s.relate key ∨ t.Seen store r := by
  obtain ⟨loaded, hshows⟩ := h.shows
  obtain ⟨u, hu, hseen, _⟩ := hshows.set kind h.ofKind r hr
  rw [Node.relateIn, Std.ExtTreeMap.getElem?_insert] at ht
  by_cases hf : f.field = r.field
  · obtain rfl := List.inj_on_of_nodup_map (h.wellFormed.relationshipFields h.ofKind) h.mem hr hf
    exact Or.inl ⟨rfl, by simpa using ht.symm⟩
  · have hsame : node.related[r.field]? = some t := by simpa [hf] using ht
    obtain rfl := Option.some.inj (hu.symm.trans hsame)
    exact Or.inr hseen

theorem relates (h : store.Relating id node kind f g s key other) : s.Relates key (s.relate key) :=
  RelatedSet.relates_relate h.seen.unchanged key

theorem set_relateIn (node : Node) (f : Relationship) (s : RelatedSet) (key : NodeKey) :
    (node.relateIn f.field s key).related[f.field]? = some (s.relate key) := by
  simp [Node.relateIn]

/-- The changes of the node can be expressed by ids. -/
theorem plannable (h : store.Relating id node kind f g s key other) :
    store.Plannable id kind (node.relateIn f.field s key) := by
  obtain ⟨loaded, hshows⟩ := h.shows
  refine ⟨h.ofKind, hshows.hasId, hshows.stored, hshows.known, fun r hr => ?_⟩
  have hset : ∃ t, (node.relateIn f.field s key).related[r.field]? = some t := by
    obtain ⟨u, hu, _⟩ := hshows.set kind h.ofKind r hr
    rw [Node.relateIn, Std.ExtTreeMap.getElem?_insert]
    split
    · exact ⟨_, rfl⟩
    · exact ⟨u, hu⟩
  obtain ⟨t, ht⟩ := hset
  refine ⟨t, ht, ?_⟩
  rcases h.set_cases hr ht with ⟨rfl, rfl⟩ | hseen
  · refine ⟨fun hone => ?_, fun k hk => ?_⟩
    · rw [h.relates.cardinality] at hone
      refine size_le_one_of_forall_eq fun a ha b hb => ?_
      rw [h.relates.eq_of_mem_current hone ha, h.relates.eq_of_mem_current hone hb]
    · rw [h.relates.known, h.relates.added, h.relates.removed] at hk
      rcases hk with hk | ⟨rfl, _⟩ | ⟨_, hk, _⟩
      · exact h.seen.remembered k hk
      · exact ⟨other, h.known⟩
      · exact h.seen.remembered k hk
  · obtain ⟨hadded, hremoved⟩ := RelatedSet.hasChanges_eq_false_iff.mp hseen.unchanged
    refine ⟨fun hone => ?_, fun k hk => ?_⟩
    · rw [RelatedSet.current_eq_known hseen.unchanged]
      exact size_le_one_of_forall_eq (hseen.single (hseen.cardinality.symm.trans hone))
    · simp only [hadded, hremoved, Std.ExtTreeSet.not_mem_empty, or_false] at hk
      exact hseen.remembered k hk

/-! ## The writes -/

/-- The edge between the nodes is created, unless the other node is loaded. -/
theorem create_iff (h : store.Relating id node kind f g s key other)
    (hd : store.Draft makeId id kind (node.relateIn f.field s key) plan) {e : Edge} :
    .create e ∈ plan.writes ↔ key ∉ s.known ∧ e = f.edge ⟨id, other⟩ := by
  rw [hd.create]
  constructor
  · rintro ⟨r, hr, t, ht, k, hk, _, found, hfound, rfl⟩
    rcases h.set_cases hr ht with ⟨rfl, rfl⟩ | hseen
    · obtain ⟨rfl, hnew⟩ := (h.relates.added k).mp hk
      obtain rfl := Option.some.inj (h.known.symm.trans hfound)
      exact ⟨hnew, rfl⟩
    · rw [(RelatedSet.hasChanges_eq_false_iff.mp hseen.unchanged).1] at hk
      simp at hk
  · rintro ⟨hnew, rfl⟩
    exact ⟨f, h.mem, _, set_relateIn node f s key, key, (h.relates.added key).mpr ⟨rfl, hnew⟩, by rw [h.relates.known]; exact hnew,
      other, h.known, rfl⟩

/-- The edges that are deleted are those to what the field for one node held, and those to what its mirror held if the edge
between the nodes is created. -/
theorem delete_iff (h : store.Relating id node kind f g s key other)
    (hd : store.Draft makeId id kind (node.relateIn f.field s key) plan) {e : Edge} :
    .delete e ∈ plan.writes ↔
      (f.cardinality = .one ∧ ∃ k ∈ s.known, k ≠ key ∧ ∃ previous, store.known[k]? = some previous ∧
        e = f.edge ⟨id, previous⟩) ∨ key ∉ s.known ∧ g.Displaces store.graph other id e := by
  rw [hd.delete]
  constructor
  · rintro ⟨r, hr, t, ht, hasked⟩
    rcases h.set_cases hr ht with ⟨rfl, rfl⟩ | hseen
    · rcases hasked with ⟨k, hk, _, previous, hprevious, rfl⟩ |
        ⟨k, hk, _, found, hfound, mirror, hmirror, hone, previous, he, hne, hkind, rfl⟩
      · obtain ⟨hone, hold, hne⟩ := (h.relates.removed k).mp hk
        exact Or.inl ⟨h.seen.cardinality.symm.trans hone, k, hold, hne, previous, hprevious, rfl⟩
      · obtain ⟨rfl, hnew⟩ := (h.relates.added k).mp hk
        obtain rfl := Option.some.inj (h.known.symm.trans hfound)
        obtain rfl := h.mirrors.eq h.wellFormed hmirror
        exact Or.inr ⟨hnew, hone, previous, ⟨he, hkind⟩, hne, rfl⟩
    · obtain ⟨hadded, hremoved⟩ := RelatedSet.hasChanges_eq_false_iff.mp hseen.unchanged
      simp [hadded, hremoved] at hasked
  · rintro (⟨hone, k, hold, hne, previous, hprevious, rfl⟩ | ⟨hnew, hone, previous, ⟨he, hkind⟩, hne, rfl⟩)
    · refine ⟨f, h.mem, _, set_relateIn node f s key, Or.inl ⟨k, ?_, ?_, previous, hprevious, rfl⟩⟩
      · exact (h.relates.removed k).mpr ⟨h.seen.cardinality.trans hone, hold, hne⟩
      · rw [h.relates.known]
        exact hold
    · refine ⟨f, h.mem, _, set_relateIn node f s key, Or.inr ⟨key, (h.relates.added key).mpr ⟨rfl, hnew⟩, ?_, other, h.known,
        g, h.mirrors, hone, previous, he, hne, hkind, rfl⟩⟩
      rw [h.relates.known]
      exact hnew

/-- What the field holds, by the nodes that are loaded in it. -/
theorem holds_iff (h : store.Relating id node kind f g s key other) {found : String} :
    f.Holds store.graph id found ↔ ∃ k ∈ s.known, store.known[k]? = some found := by
  constructor
  · rintro ⟨he, hk⟩
    exact h.agrees.complete h.loaded found (Graph.mem_neighbors_iff.mpr he) hk
  · rintro ⟨k, hk, hknown⟩
    obtain ⟨found', hfound, hn, hkind⟩ := h.agrees.known k hk
    obtain rfl := Option.some.inj (hknown.symm.trans hfound)
    exact ⟨Graph.mem_neighbors_iff.mp hn, hkind⟩

/-- Afterwards the edge between the nodes is there, what a field for one node held at either end is not, and all else is as
before. -/
theorem mem_edges_iff (h : store.Relating id node kind f g s key other)
    (hd : store.Draft makeId id kind (node.relateIn f.field s key) plan) (nodes : List Node) {e : Edge} :
    e ∈ (plan.write nodes store.graph).edges ↔ e = f.edge ⟨id, other⟩ ∨ e ∈ store.graph.edges ∧
      ¬f.Displaces store.graph id other e ∧ ¬g.Displaces store.graph other id e := by
  rw [SavePlan.mem_edges_write_iff, h.create_iff hd, h.delete_iff hd]
  obtain ⟨loaded, hshows⟩ := h.shows
  by_cases hnew : key ∈ s.known
  · -- The nodes are related already, so that nothing is written and nothing is displaced.
    have hheld : f.Holds store.graph id other := h.holds_iff.mpr ⟨key, hnew, h.known⟩
    have hback : g.Holds store.graph other id := by
      refine ⟨?_, by rw [h.back]; exact hshows.stored⟩
      rw [h.mirrors.edge_eq h.wellFormed h.ofKind h.mem]
      exact hheld.1
    obtain ⟨related, hrelated, hg⟩ := h.mirrors.mem
    have hnone : ¬f.Displaces store.graph id other e :=
      ToOne.not_displaces h.toOne hshows.stored h.ofKind h.mem hheld e
    have hnone' : ¬g.Displaces store.graph other id e := ToOne.not_displaces h.toOne h.stored hrelated hg hback e
    have hsingle : ¬(f.cardinality = .one ∧ ∃ k ∈ s.known, k ≠ key ∧ ∃ previous, store.known[k]? = some previous ∧
        e = f.edge ⟨id, previous⟩) := by
      rintro ⟨hone, k, hk, hne, _⟩
      exact hne (h.seen.single hone k hk key hnew)
    simp only [hnew, hsingle, hnone, hnone', not_true_eq_false, false_and, or_false, not_false_eq_true, and_true, false_or]
    exact ⟨Or.inr, fun he => he.elim (fun heq => heq ▸ hheld.1) fun he => he⟩
  · by_cases he : e = f.edge ⟨id, other⟩
    · simp [hnew, he]
    · -- The field holds what is displaced, under other keys than that of the node to be related.
      have hsame : (f.cardinality = .one ∧ ∃ k ∈ s.known, k ≠ key ∧ ∃ previous, store.known[k]? = some previous ∧
          e = f.edge ⟨id, previous⟩) ↔ f.Displaces store.graph id other e := by
        refine and_congr_right fun _ => ⟨?_, ?_⟩
        · rintro ⟨k, hk, _, previous, hprevious, rfl⟩
          exact ⟨previous, h.holds_iff.mpr ⟨k, hk, hprevious⟩, fun hsame => he (by rw [hsame]), rfl⟩
        · rintro ⟨previous, hheld, _, rfl⟩
          obtain ⟨k, hk, hprevious⟩ := h.holds_iff.mp hheld
          exact ⟨k, hk, fun hkey => hnew (hkey ▸ hk), previous, hprevious, rfl⟩
      simp only [he, and_false, false_or, hsame, hnew, not_false_eq_true, true_and, not_or]

/-! ## The save -/

/-- Afterwards the fields for one node at both ends of the edge hold one node. -/
theorem checkOneAt_ends (h : store.Relating id node kind f g s key other)
    (hd : store.Draft makeId id kind (node.relateIn f.field s key) plan) :
    checkOneAt store.schema (store.graph.applyAll (writeOrder plan.writes)) store.graph.kindOf? id f.label f.direction =
        .ok () ∧
      checkOneAt store.schema (store.graph.applyAll (writeOrder plan.writes)) store.graph.kindOf? other g.label g.direction =
        .ok () := by
  have hedges : ∀ e, e ∈ (store.graph.applyAll (writeOrder plan.writes)).edges ↔ e = f.edge ⟨id, other⟩ ∨
      e ∈ store.graph.edges ∧ ¬f.Displaces store.graph id other e ∧ ¬g.Displaces store.graph other id e := by
    intro e
    rw [Graph.mem_edges_applyAll_writeOrder_iff, ← h.mem_edges_iff hd [], SavePlan.mem_edges_write_iff]
  obtain ⟨loaded, hshows⟩ := h.shows
  obtain ⟨related, hrelated, hg⟩ := h.mirrors.mem
  refine ⟨checkOneAt_of_forall_eq hshows.stored h.ofKind fun r hr hone hl hdir a b ha hak hb hbk => ?_,
    checkOneAt_of_forall_eq h.stored hrelated fun r hr hone hl hdir a b ha hak hb hbk => ?_⟩
  · obtain rfl := h.mirrors.eq_of_along h.wellFormed h.ofKind h.mem h.back hr hl hdir
    have heq : ∀ c, r.edge ⟨id, c⟩ ∈ (store.graph.applyAll (writeOrder plan.writes)).edges →
        store.graph.kindOf? c = some r.relatedKind → c = other := fun c hc hck =>
      Relationship.eq_of_not_displaces hone hck (((hedges _).mp hc).imp_right fun hc => ⟨hc.1, hc.2.1⟩)
    rw [heq a ha hak, heq b hb hbk]
  · obtain rfl : r = g := by
      obtain ⟨hgl, hgd⟩ := h.mirrors.along h.wellFormed h.ofKind h.mem
      exact h.mirrors.unique h.wellFormed h.ofKind h.mem hrelated hr (hl.trans hgl) (hdir.trans hgd)
    have heq : ∀ c, r.edge ⟨other, c⟩ ∈ (store.graph.applyAll (writeOrder plan.writes)).edges →
        store.graph.kindOf? c = some r.relatedKind → c = id := fun c hc hck => by
      rw [hedges, ← h.mirrors.edge_eq h.wellFormed h.ofKind h.mem] at hc
      exact Relationship.eq_of_not_displaces hone hck (hc.imp_right fun hc => ⟨hc.1, hc.2.2⟩)
    rw [heq a ha hak, heq b hb hbk]

/-- The node can be saved with the other one related to it. -/
theorem exists_save (h : store.Relating id node kind f g s key other) (makeId : NodeKey → String)
    (rank : NodeKey → Nat) :
    ∃ after nodes writes, store.save makeId rank [node.relateIn f.field s key] = ((after, nodes), .ok writes) ∧
      ∀ e, e ∈ after.graph.edges ↔ e = f.edge ⟨id, other⟩ ∨
        e ∈ store.graph.edges ∧ ¬f.Displaces store.graph id other e ∧ ¬g.Displaces store.graph other id e := by
  obtain ⟨plan, hd⟩ := h.plannable.exists_draft makeId h.wellFormed
  have hchecks : ∀ e, .create e ∈ plan.writes →
      checkOneAt store.schema (store.graph.applyAll (writeOrder plan.writes)) store.graph.kindOf? e.source e.label .outgoing =
          .ok () ∧
        checkOneAt store.schema (store.graph.applyAll (writeOrder plan.writes)) store.graph.kindOf? e.target e.label .incoming =
          .ok () := by
    intro e he
    obtain ⟨_, rfl⟩ := (h.create_iff hd).mp he
    obtain ⟨howner, hother⟩ := h.checkOneAt_ends hd
    obtain ⟨hlabel, hdirection⟩ := h.mirrors.along h.wellFormed h.ofKind h.mem
    rw [hlabel, hdirection] at hother
    exact checkOneAt_edge howner hother
  obtain ⟨after, nodes, writes, hsave, hgraph⟩ := hd.exists_save h.plannable h.sound hchecks rank
  exact ⟨after, nodes, writes, hsave, fun e => by rw [hgraph]; exact h.mem_edges_iff hd _⟩

end Relating

/-- What a session holds can be related, when the field was loaded. -/
theorem Shows.relating {schema : Schema} {store : Store} (hs : schema.WellFormed) (hreach : Reachable schema store)
    {id other : String} {x y : Node} {fx fy : List String} (hx : store.Shows id x fx) (hy : store.Shows other y fy)
    {kind : EntityKind} (hk : schema.kinds[x.kind]? = some kind) {f g : Relationship} (hf : f ∈ kind.relationships)
    (hm : schema.Mirrors f g) (hback : g.relatedKind = x.kind) (hkind : y.kind = f.relatedKind) (hloaded : f.field ∈ fx) :
    ∃ s, x.related[f.field]? = some s ∧ store.Relating id x kind f g s y.key other := by
  obtain rfl := hreach.schema_eq
  obtain ⟨s, hset, hseen, hagrees⟩ := hx.set kind hk f hf
  refine ⟨s, hset, hs, hreach.sound, hreach.toOne, hk, hf, hm, hback, ⟨fx, hx⟩, hset, hseen, (hagrees hloaded).1,
    (hagrees hloaded).2, hy.known, ?_⟩
  rw [← hkind]
  exact hy.stored

/-- Two nodes that a session holds can be related from either end, where both fields were loaded: both saves succeed, and they
leave the same edges, the one between the nodes among them. -/
theorem related_from_either_end {decls : List KindDecl} {schema : Schema} (hb : Schema.build decls = .ok schema)
    {base store : Store} (hreach : Reachable schema base) {held : List (Node × List String)} (hread : base.Reading store held)
    {x y : Node} {fx gy : List String} (hx : (x, fx) ∈ held) (hy : (y, gy) ∈ held) {kind : EntityKind}
    (hk : schema.kinds[x.kind]? = some kind) {f g : Relationship} (hf : f ∈ kind.relationships) (hm : schema.Mirrors f g)
    (hback : g.relatedKind = x.kind) (hkind : y.kind = f.relatedKind) (hfx : f.field ∈ fx) (hgy : g.field ∈ gy)
    (makeId makeId' : NodeKey → String) (rank rank' : NodeKey → Nat) :
    ∃ x' y', Node.edit f.field (·.relate y.key) x = (x', none) ∧ Node.edit g.field (·.relate x.key) y = (y', none) ∧
      ∃ after nodes writes after' nodes' writes', store.save makeId rank [x'] = ((after, nodes), .ok writes) ∧
        store.save makeId' rank' [y'] = ((after', nodes'), .ok writes') ∧ after.graph.edges = after'.graph.edges ∧
        ∃ id other, x.id = some id ∧ y.id = some other ∧ f.edge ⟨id, other⟩ ∈ after.graph.edges := by
  have hs := Schema.wellFormed_of_build hb
  have hnow := hread.reachable hreach
  obtain ⟨id, hid⟩ := hread.shows hs hreach _ hx
  obtain ⟨other, hother⟩ := hread.shows hs hreach _ hy
  obtain ⟨related, hrelated, hg⟩ := hm.mem
  have hback' := hm.symm hs hk hf hback
  obtain ⟨s, hset, hx'⟩ := hid.relating hs hnow hother hk hf hm hback hkind hfx
  obtain ⟨t, ht, hy'⟩ := hother.relating hs hnow hid (by rw [hkind]; exact hrelated) hg hback' hkind.symm hback.symm hgy
  obtain ⟨after, nodes, writes, hsave, hedges⟩ := hx'.exists_save makeId rank
  obtain ⟨after', nodes', writes', hsave', hedges'⟩ := hy'.exists_save makeId' rank'
  refine ⟨x.relateIn f.field s y.key, y.relateIn g.field t x.key, Node.edit_eq_none_iff.mpr ⟨s, hset, rfl⟩,
    Node.edit_eq_none_iff.mpr ⟨t, ht, rfl⟩, after, nodes, writes, after', nodes', writes', hsave, hsave', ?_,
    id, other, hid.hasId, hother.hasId, (hedges _).mpr (Or.inl rfl)⟩
  refine Std.ExtTreeSet.ext_mem fun e => ?_
  rw [hedges, hedges', hm.edge_eq hs hk hf, and_comm (a := ¬f.Displaces store.graph id other e)]

namespace Example

/-- The project that was handed out on its own, after its issues were loaded. -/
def loadedProject : Node :=
  { handedProject with related := .ofList [("issues", (RelatedSet.empty "issues" .many).load {⟨5⟩})] compare }

/-- The issue as it is handed out with that project. -/
def issueOfProject : Node :=
  { Node.new ⟨5⟩ issueKind with
    id := some "i", attributes := .ofList [("title", .string "crash")] compare
    related := .ofList [("project", (RelatedSet.empty "project" .one).loadOne ⟨4⟩)] compare }

/-- The state after the issue and the project were handed out twice. -/
def bothLoaded : Store := keptWith [(⟨2⟩, "i"), (⟨3⟩, "p"), (⟨4⟩, "p"), (⟨5⟩, "i")]

theorem load_issues : handedTwice.load handedProject "issues" = ((bothLoaded, loadedProject), .ok [issueOfProject]) := by
  rw [handedTwice, bothLoaded, keptWith, keptWith, saved_eq]
  rfl

/-- An issue and its project are handed out, each with the other one loaded under another key. -/
theorem reading_bothLoaded : ∃ held, (keptWith []).Reading bothLoaded held ∧
    (loadedIssue, ["project"]) ∈ held ∧ (loadedProject, ["issues"]) ∈ held := by
  have hissue : (keptWith []).Reading _ [(handedIssue, [])] := .get .start get_issue
  have hproject : (keptWith []).Reading _ [(loadedIssue, ["project"]), (projectOfIssue, []), (handedIssue, [])] :=
    .load hissue (List.mem_singleton.mpr rfl) load_project (List.forall_mem_nil _)
  have hagain : (keptWith []).Reading _ ((handedProject, []) :: _) := .get hproject get_project
  have hissues : (keptWith []).Reading _ ((loadedProject, ["issues"]) :: (issueOfProject, []) :: _) :=
    .load hagain List.mem_cons_self load_issues (List.forall_mem_nil _)
  exact ⟨_, hissues, by simp, by simp⟩

end Example

/-- An issue and its project, related anew under other keys than those they were loaded under, stay related. -/
theorem issue_related_from_either_end : ∃ x' y',
    Node.edit "project" (·.relate ⟨4⟩) Example.loadedIssue = (x', none) ∧
      Node.edit "issues" (·.relate ⟨2⟩) Example.loadedProject = (y', none) ∧
      ∃ after nodes writes after' nodes' writes',
        Example.bothLoaded.save Example.makeId NodeKey.val [x'] = ((after, nodes), .ok writes) ∧
        Example.bothLoaded.save Example.makeId NodeKey.val [y'] = ((after', nodes'), .ok writes') ∧
        after.graph.edges = after'.graph.edges ∧
        ∃ id other, some "i" = some id ∧ some "p" = some other ∧ Example.project.edge ⟨id, other⟩ ∈ after.graph.edges := by
  obtain ⟨held, hread, hissue, hproject⟩ := Example.reading_bothLoaded
  exact related_from_either_end Example.build_decls Example.reachable_kept hread hissue hproject
    (rfl : Example.schema.kinds["Issue"]? = some Example.issueKind) (List.mem_singleton.mpr rfl)
    ⟨rfl, Example.projectKind, rfl, List.mem_singleton.mpr rfl⟩ rfl rfl (List.mem_singleton.mpr rfl) (List.mem_singleton.mpr rfl)
    Example.makeId Example.makeId NodeKey.val NodeKey.val

end Store

end EntityGraph
