import EntityGraph.Proofs.Store.Frame
import EntityGraph.Proofs.Store.Unchanged
import EntityGraph.Proofs.Store.Serving

/-!
# Adding a node takes it from where it was

Where the mirror of a relationship holds one node, a node that is added to the relationship is taken from every node that it was
related to before. So a batch that only adds nodes to such a relationship, each of them to one owner, is saved whatever the store
holds: the deletions that make room leave nothing for the checks to find. Afterwards each of the nodes is held by the one that it
was added to, and by no other (`added_nodes_move`). The owners may be nodes that move themselves, as in a tree.
-/

namespace EntityGraph

/-- A node has a pending addition to a relationship of its kind. -/
def Node.AddsTo (node : Node) (r : Relationship) (key : NodeKey) : Prop :=
  node.kind = r.kind ∧ ∃ s, node.related[r.field]? = some s ∧ key ∈ s.added

namespace Store

/-- The id of a node when a batch is saved: for a node of the batch its own, or the one that is made up for it, else the one that
is remembered. -/
def idIn (store : Store) (makeId : NodeKey → String) (nodes : List Node) (key : NodeKey) : Option String :=
  ((lastWith Node.key nodes key).map fun node => node.id.getD (makeId key)).or store.known[key]?

/-- All that a batch has pending are additions to one relationship. What is added is of the related kind, and of the batch or
remembered, and no node is added to two others. -/
structure OnlyAdds (store : Store) (makeId : NodeKey → String) (r : Relationship) (nodes : List Node) : Prop where
  changes : ∀ node ∈ nodes, ∀ (field : String) (s : RelatedSet), node.related[field]? = some s →
    s.removed = ∅ ∧ (s.added = ∅ ∨ node.kind = r.kind ∧ field = r.field)
  kinds : ∀ node ∈ nodes, ∀ key, node.AddsTo r key → store.KeyOfKind nodes key r.relatedKind
  present : ∀ node ∈ nodes, ∀ key, node.AddsTo r key →
    (∃ other ∈ nodes, other.key = key) ∨ ∃ id, store.known[key]? = some id
  owners : ∀ node ∈ nodes, ∀ other ∈ nodes, ∀ a b, node.AddsTo r a → other.AddsTo r b →
    store.idIn makeId nodes a = store.idIn makeId nodes b →
    store.idIn makeId nodes node.key = store.idIn makeId nodes other.key

variable {store : Store} {makeId : NodeKey → String} {nodes : List Node} {plan : SavePlan}

/-- A plan looks keys up by the ids that nodes have when they are saved. -/
theorem Unchecked.lookup_eq_idIn (hp : store.Unchecked makeId nodes plan) (key : NodeKey) :
    store.lookup plan.ids key = store.idIn makeId nodes key := by
  rw [lookup, idIn, hp.ids]
  cases hl : lastWith Node.key nodes key with
  | none => rfl
  | some node =>
    obtain ⟨hn, rfl⟩ := lastWith_some hl
    obtain ⟨id, hid⟩ := hp.assigned node hn
    have hown : node.id.getD (makeId node.key) = id := by
      rcases (assignId_eq_ok_iff.mp hid).2 with ⟨hnone, rfl⟩ | ⟨hgiven, _⟩
      · rw [hnone, Option.getD_none]
      · rw [hgiven, Option.getD_some]
    rw [Option.bind_some, hid, Option.map_some, hown]
    rfl

/-- A batch that a client holds has only additions to a relationship to several nodes, whose mirror holds one. -/
structure Moving (store : Store) (makeId : NodeKey → String) (nodes : List Node) (held : List Held) (kind : EntityKind)
    (f g : Relationship) : Prop where
  wellFormed : store.schema.WellFormed
  sound : store.Sound
  tracks : store.Tracks held
  held : ∀ node ∈ nodes, ∃ entry ∈ held, entry.node = node
  fresh : store.Fresh makeId nodes
  ofKind : store.schema.kinds[f.kind]? = some kind
  mem : f ∈ kind.relationships
  many : f.cardinality = .many
  mirrors : store.schema.Mirrors f g
  one : g.cardinality = .one
  back : g.relatedKind = f.kind
  adds : store.OnlyAdds makeId f nodes

namespace Moving

variable {held : List Held} {kind : EntityKind} {f g : Relationship} {node : Node} {s : RelatedSet} {key : NodeKey}
  {other : String}

theorem made (h : store.Moving makeId nodes held kind f g) (hn : node ∈ nodes) : store.Made node := by
  obtain ⟨entry, hentry, rfl⟩ := h.held node hn
  exact h.tracks.keeps.made entry hentry

theorem stored (h : store.Moving makeId nodes held kind f g) (hn : node ∈ nodes) {id : String} (hid : node.id = some id) :
    store.graph.kindOf? id = some node.kind := by
  obtain ⟨entry, hentry, rfl⟩ := h.held node hn
  exact h.tracks.stored hentry hid

theorem resolvable (h : store.Moving makeId nodes held kind f g) (hn : node ∈ nodes) {field : String}
    (hset : node.related[field]? = some s) : s.Resolvable store := by
  obtain ⟨entry, hentry, rfl⟩ := h.held node hn
  exact h.tracks.resolvable hentry hset

/-- Nodes of a batch with one key are copies of one node, so that they are of one kind. -/
theorem kind_eq (h : store.Moving makeId nodes held kind f g) (hn : node ∈ nodes) {copy : Node} (hc : copy ∈ nodes)
    (hkey : copy.key = node.key) : copy.kind = node.kind := by
  obtain ⟨entry, hentry, rfl⟩ := h.held node hn
  obtain ⟨own, hown, rfl⟩ := h.held copy hc
  exact h.tracks.keeps.kinds own hown entry hentry hkey

/-- Only the one relationship has additions. -/
theorem eq_of_added (h : store.Moving makeId nodes held kind f g) (hn : node ∈ nodes) {ofNode : EntityKind}
    (hk : store.schema.kinds[node.kind]? = some ofNode) {r : Relationship} (hr : r ∈ ofNode.relationships)
    (hset : node.related[r.field]? = some s) (hkey : key ∈ s.added) : r = f ∧ node.AddsTo f key := by
  obtain ⟨_, hnone | ⟨hkind, hfield⟩⟩ := h.adds.changes node hn r.field s hset
  · simp [hnone] at hkey
  · rw [hkind, h.ofKind] at hk
    obtain rfl := Option.some.inj hk
    obtain rfl := List.inj_on_of_nodup_map (h.wellFormed.relationshipFields h.ofKind) hr h.mem hfield
    exact ⟨rfl, hkind, s, hset, hkey⟩

/-- What is added to a field is not loaded in it. -/
theorem not_mem_known (h : store.Moving makeId nodes held kind f g) (hn : node ∈ nodes) (hkind : node.kind = f.kind)
    (hset : node.related[f.field]? = some s) (hkey : key ∈ s.added) : key ∉ s.known := by
  have hmade := (h.made hn).madeOf (by rw [hkind]; exact h.ofKind)
  exact (hmade.reachable h.mem hset).canonical.added_new key hkey

/-! ## Planning -/

theorem assigned (h : store.Moving makeId nodes held kind f g) :
    ∀ node ∈ nodes, ∃ id, store.assignId makeId node = .ok id := by
  intro node hn
  obtain ⟨ofNode, hk, _⟩ := (h.made hn).kind
  cases hid : node.id with
  | none => exact ⟨_, assignId_eq_ok_iff.mpr ⟨⟨ofNode, hk⟩, Or.inl ⟨hid, rfl⟩⟩⟩
  | some id =>
    refine ⟨id, assignId_eq_ok_iff.mpr ⟨⟨ofNode, hk⟩, Or.inr ⟨hid, fun found hf => ?_⟩⟩⟩
    exact Option.some.inj (hf.symm.trans (h.stored hn hid))

/-- The batch can be planned: all that its fields have loaded is remembered, and all that was added to them is of the batch or
remembered. -/
theorem exists_unchecked (h : store.Moving makeId nodes held kind f g) : ∃ plan, store.Unchecked makeId nodes plan := by
  refine Store.exists_unchecked h.assigned fun ids hids node hn ofNode hk r hr => ?_
  have hmade := (h.made hn).madeOf hk
  obtain ⟨s, hset, _⟩ := hmade.set r hr
  obtain ⟨owner, howner⟩ := exists_lookup_of_mem h.assigned hids hn
  refine exists_relationshipWrites h.wellFormed hk hr howner hset (fun hone => ?_) fun key hkey => ?_
  · -- A field for one node has no additions, as they are to a relationship to several.
    have hadded : s.added = ∅ := by
      refine Std.ExtTreeSet.ext_mem fun key => ⟨fun hkey => ?_, fun hkey => by simp at hkey⟩
      obtain ⟨rfl, _⟩ := h.eq_of_added hn hk hr hset hkey
      rw [(hmade.reachable hr hset).shape.2, h.many] at hone
      cases hone
    have hun : s.hasChanges = false := RelatedSet.hasChanges_eq_false_iff.mpr ⟨hadded, (h.adds.changes node hn _ s hset).1⟩
    rw [RelatedSet.current_eq_known hun]
    exact size_le_one_of_forall_eq ((h.resolvable hn hset).single hone)
  · rcases hkey with hknown | hadded | hremoved
    · obtain ⟨id, hid⟩ := (h.resolvable hn hset).remembered key hknown
      exact exists_lookup ids hid
    · obtain ⟨_, hadds⟩ := h.eq_of_added hn hk hr hset hadded
      rcases h.adds.present node hn key hadds with ⟨other, ho, rfl⟩ | ⟨id, hid⟩
      · exact exists_lookup_of_mem h.assigned hids ho
      · exact exists_lookup ids hid
    · rw [(h.adds.changes node hn _ s hset).1] at hremoved
      simp at hremoved

/-! ## The writes -/

/-- The edges to be created are those to the nodes that were added. -/
theorem create_iff (h : store.Moving makeId nodes held kind f g) (hp : store.Unchecked makeId nodes plan) {e : Edge} :
    .create e ∈ plan.writes ↔ ∃ node ∈ nodes, ∃ key, node.AddsTo f key ∧
      ∃ other, store.lookup plan.ids key = some other ∧ e = f.edge ⟨plan.idOf node, other⟩ := by
  rw [hp.create_mem_iff]
  constructor
  · rintro ⟨node, hn, ofNode, hk, r, hr, s, hset, key, hkey, _, other, hother, rfl⟩
    obtain ⟨rfl, hadds⟩ := h.eq_of_added hn hk hr hset hkey
    exact ⟨node, hn, key, hadds, other, hother, rfl⟩
  · rintro ⟨node, hn, key, ⟨hkind, s, hset, hkey⟩, other, hother, rfl⟩
    exact ⟨node, hn, kind, by rw [hkind]; exact h.ofKind, f, h.mem, s, hset, key, hkey, h.not_mem_known hn hkind hset hkey, other,
      hother, rfl⟩

/-- A node that is added is taken from every other one that held it. -/
theorem delete_mem (h : store.Moving makeId nodes held kind f g) (hp : store.Unchecked makeId nodes plan) (hn : node ∈ nodes)
    (hadds : node.AddsTo f key) (hother : store.lookup plan.ids key = some other) {previous : String}
    (he : f.edge ⟨previous, other⟩ ∈ store.graph.edges) (hk : store.graph.kindOf? previous = some f.kind)
    (hne : previous ≠ plan.idOf node) : .delete (f.edge ⟨previous, other⟩) ∈ plan.writes := by
  obtain ⟨hkind, s, hset, hkey⟩ := hadds
  rw [← h.mirrors.edge_eq h.wellFormed h.ofKind h.mem] at he ⊢
  refine (hp.delete_mem_iff h.wellFormed).mpr ⟨node, hn, kind, by rw [hkind]; exact h.ofKind, f, h.mem, s, hset, Or.inr ?_⟩
  exact ⟨key, hkey, h.not_mem_known hn hkind hset hkey, other, hother, g, h.mirrors, h.one, previous, he, hne,
    by rw [h.back]; exact hk, rfl⟩

/-! ## The graph afterwards -/

/-- A node of the batch is stored as one of its kind. -/
theorem kindOf?_idOf (h : store.Moving makeId nodes held kind f g) (hp : store.Unchecked makeId nodes plan) (hn : node ∈ nodes) :
    (plan.write nodes store.graph).kindOf? (plan.idOf node) = some node.kind :=
  hp.kindOf?_write_of_copies h.fresh hn fun _ hc hkey => ⟨h.kind_eq hn hc hkey, fun _ hid => h.stored hc hid⟩

/-- A node that is added is stored as one of the related kind. -/
theorem kindOf?_added (h : store.Moving makeId nodes held kind f g) (hp : store.Unchecked makeId nodes plan) (hn : node ∈ nodes)
    (hadds : node.AddsTo f key) (hother : store.lookup plan.ids key = some other) :
    (plan.write nodes store.graph).kindOf? other = some f.relatedKind := by
  obtain ⟨hbatch, hremembered⟩ := h.adds.kinds node hn key hadds
  rcases Option.or_eq_some_iff.mp hother with hid | ⟨hnone, hknown⟩
  · obtain ⟨added, ha, rfl, rfl⟩ := hp.exists_of_ids hid
    rw [← hbatch added ha rfl]
    exact h.kindOf?_idOf hp ha
  · refine hp.kindOf?_write_of_kindOf? h.fresh.stored (hremembered (fun own ho hkey => ?_) other hknown)
    rw [← hkey, hp.ids_key ho] at hnone
    cases hnone

/-- Afterwards a node that was added is held by its owner, and by no other node of the kind: an edge from another one was not
created, as the node was added to one owner only, and it was deleted if it was there before. -/
theorem mem_edges_iff (h : store.Moving makeId nodes held kind f g) (hp : store.Unchecked makeId nodes plan) (hn : node ∈ nodes)
    (hadds : node.AddsTo f key) (hother : store.lookup plan.ids key = some other) {id : String}
    (hk : (plan.write nodes store.graph).kindOf? id = some f.kind) :
    f.edge ⟨id, other⟩ ∈ (plan.write nodes store.graph).edges ↔ id = plan.idOf node := by
  rw [SavePlan.mem_edges_write_iff]
  constructor
  · rintro (hcreate | ⟨hold, hkept⟩)
    · obtain ⟨owner, ho, added, hadded, found, hfound, hedge⟩ := (h.create_iff hp).mp hcreate
      obtain ⟨rfl, rfl⟩ := IdPair.mk.inj (Relationship.edge_injective hedge)
      have hsame : store.idIn makeId nodes owner.key = store.idIn makeId nodes node.key := by
        refine h.adds.owners owner ho node hn added key hadded hadds ?_
        rw [← hp.lookup_eq_idIn, ← hp.lookup_eq_idIn, hfound, hother]
      rw [← hp.lookup_eq_idIn, ← hp.lookup_eq_idIn, hp.lookup_idOf ho, hp.lookup_idOf hn] at hsame
      exact Option.some.inj hsame
    · by_contra hne
      exact hkept (h.delete_mem hp hn hadds hother hold (hp.kindOf?_of_end h.fresh.stored h.sound hold f.owner_end hk) hne)
  · rintro rfl
    exact Or.inl ((h.create_iff hp).mpr ⟨node, hn, key, hadds, other, hother, rfl⟩)

/-! ## The save -/

/-- A node that was added is held by one node, and no other field for one node follows the edges that are created. -/
theorem planned (h : store.Moving makeId nodes held kind f g) (hp : store.Unchecked makeId nodes plan) :
    store.Planned makeId nodes plan := by
  refine hp.planned h.sound fun e he => ?_
  obtain ⟨node, hn, key, hadds, other, hother, rfl⟩ := (h.create_iff hp).mp he
  obtain ⟨related, hrelated, hg⟩ := h.mirrors.mem
  have hedges : ∀ e, e ∈ (store.graph.applyAll (writeOrder plan.writes)).edges ↔ e ∈ (plan.write nodes store.graph).edges :=
    fun e => Graph.mem_edges_applyAll_writeOrder_iff.trans SavePlan.mem_edges_write_iff.symm
  rw [store.futureKind?_eq plan nodes]
  refine checkOneAt_edge
    (checkOneAt_of_forall_eq (h.kindOf?_idOf hp hn) (by rw [hadds.1]; exact h.ofKind) fun r hr hone hl hd => ?_)
    (checkOneAt_of_forall_eq (h.kindOf?_added hp hn hadds hother) hrelated fun r hr _ hl hd a b ha hak hb hbk => ?_)
  · obtain rfl := h.mirrors.eq_of_along h.wellFormed h.ofKind h.mem h.back hr hl hd
    rw [h.many] at hone
    cases hone
  · obtain rfl := h.mirrors.unique h.wellFormed h.ofKind h.mem hrelated hr hl hd
    rw [h.back] at hak hbk
    rw [hedges, h.mirrors.edge_eq h.wellFormed h.ofKind h.mem] at ha hb
    rw [(h.mem_edges_iff hp hn hadds hother hak).mp ha, (h.mem_edges_iff hp hn hadds hother hbk).mp hb]

end Moving

/-- Whatever a store holds, a batch of nodes that a client was handed out or made is saved when all that it has pending are
additions to a relationship to several nodes whose mirror holds one, and no node is added to two owners. Afterwards a node that
was added is related to its owner from both ends, and to no other node, wherever it was before. -/
theorem added_nodes_move {decls : List KindDecl} {schema : Schema} (hb : Schema.build decls = .ok schema) {held : List Held}
    (hserving : Serving schema store held) {kind : EntityKind} {f g : Relationship} (hk : schema.kinds[f.kind]? = some kind)
    (hf : f ∈ kind.relationships) (hmany : f.cardinality = .many) (hmirrors : schema.Mirrors f g) (hone : g.cardinality = .one)
    (hback : g.relatedKind = f.kind) (hheld : ∀ node ∈ nodes, ∃ entry ∈ held, entry.node = node)
    (hfresh : store.Fresh makeId nodes) (hadds : store.OnlyAdds makeId f nodes) (rank : NodeKey → Nat) :
    ∃ after nodes' writes, store.save makeId rank nodes = ((after, nodes'), .ok writes) ∧
      (∀ key : NodeKey, after.known[key]? = store.idIn makeId nodes key) ∧
      ∀ node ∈ nodes, ∀ key, node.AddsTo f key → ∃ owner other,
        after.known[node.key]? = some owner ∧ after.known[key]? = some other ∧ f.Holds after.graph owner other ∧
          (∀ id, g.Holds after.graph other id ↔ id = owner) ∧
          ∀ id, after.graph.kindOf? id = some f.kind → f.Holds after.graph id other → id = owner := by
  have hschema := Schema.wellFormed_of_build hb
  have hreach := hserving.reachable
  obtain rfl := hreach.schema_eq
  have h : store.Moving makeId nodes held kind f g :=
    ⟨hschema, hreach.sound, hserving.tracks hschema, hheld, hfresh, hk, hf, hmany, hmirrors, hone, hback, hadds⟩
  obtain ⟨drafted, hdrafted⟩ := h.exists_unchecked
  have hplanned := h.planned hdrafted
  obtain ⟨⟨after, nodes'⟩, hsave, _⟩ := exists_save rank (plan_eq_ok_iff.mpr hplanned) hplanned.complete
  obtain ⟨plan, hp, _, hgraph, hknown⟩ := exists_saved hschema hsave
  have hu := hp.unchecked
  refine ⟨after, nodes', _, hsave, fun key => (hknown key).trans (hu.lookup_eq_idIn key), fun node hn key hkey => ?_⟩
  obtain ⟨other, hother⟩ : ∃ other, store.lookup plan.ids key = some other := by
    obtain ⟨hkind, s, hset, hkey⟩ := hkey
    exact hp.lookup_isSome hn (by rw [hkind]; exact hk) hf hset (Or.inr (Or.inl hkey))
  have howner : (plan.write nodes store.graph).kindOf? (plan.idOf node) = some f.kind := by
    rw [← hkey.1]
    exact h.kindOf?_idOf hu hn
  have hedge : f.edge ⟨plan.idOf node, other⟩ ∈ (plan.write nodes store.graph).edges :=
    (h.mem_edges_iff hu hn hkey hother howner).mpr rfl
  refine ⟨plan.idOf node, other, (hknown _).trans (hu.lookup_idOf hn), (hknown _).trans hother, ?_⟩
  rw [hgraph]
  refine ⟨⟨hedge, h.kindOf?_added hu hn hkey hother⟩, fun id => ⟨?_, ?_⟩, fun id hid hholds => ?_⟩
  · rintro ⟨he, hid⟩
    rw [hback] at hid
    rw [hmirrors.edge_eq hschema hk hf] at he
    exact (h.mem_edges_iff hu hn hkey hother hid).mp he
  · rintro rfl
    rw [Relationship.Holds, hmirrors.edge_eq hschema hk hf, hback]
    exact ⟨hedge, howner⟩
  · exact (h.mem_edges_iff hu hn hkey hother hid).mp hholds.1

namespace Example

/-- The state in which another project was made, after a project and its issue were saved. -/
def extended : Store := (together.newNode projectKind).2

/-- The other project, to which the issue of the first one was added. -/
def secondProject : Node := ((together.newNode projectKind).1.edit "issues" (LocalChange.add ⟨1⟩).apply).1

theorem serving_extended : ∃ held, Serving schema extended held ∧ ⟨secondProject, false⟩ ∈ held := by
  have hprojects : schema.kinds["Project"]? = some projectKind := rfl
  have hissues : schema.kinds["Issue"]? = some issueKind := rfl
  have hdrafted : Serving schema drafted _ := .create (.create .start hprojects) hissues
  have htogether : Serving schema together _ :=
    .other hdrafted (.save Example.makeId NodeKey.val [draftProject, draftIssue] fresh_drafts.stored)
  exact ⟨_, .edit "issues" (.add ⟨1⟩) (.create htogether hprojects) List.mem_cons_self, List.mem_cons_self⟩

theorem fresh_second : extended.Fresh (fun _ => "q") [secondProject] := by
  have hnone : extended.graph.nodes["q"]? = none := by decide +kernel
  have hid : secondProject.id ≠ some "q" := by decide +kernel
  refine ⟨fun _ => hnone, ?_, ?_⟩ <;> simp [hid]

theorem onlyAdds_second : extended.OnlyAdds (fun _ => "q") issues [secondProject] := by
  have hrelated : secondProject.related = .ofList [("issues", (RelatedSet.empty "issues" .many).add ⟨1⟩)] compare := by
    decide +kernel
  have hset : ∀ (field : String) (s : RelatedSet), secondProject.related[field]? = some s →
      field = "issues" ∧ s = (RelatedSet.empty "issues" .many).add ⟨1⟩ := by
    intro field s hset
    rw [hrelated] at hset
    by_cases hfield : field = "issues"
    · subst hfield
      exact ⟨rfl, (Option.some.inj (rfl.symm.trans hset)).symm⟩
    · simp [Std.ExtTreeMap.ofList_eq_foldl, Ne.symm hfield] at hset
  have hadded : ∀ key, secondProject.AddsTo issues key → key = ⟨1⟩ := by
    rintro key ⟨_, s, hs, hkey⟩
    obtain ⟨_, rfl⟩ := hset _ s hs
    have hsame : ⟨1⟩ = key := by simpa [RelatedSet.add, RelatedSet.empty, RelatedSet.known] using hkey
    exact hsame.symm
  have hknown : extended.known[(⟨1⟩ : NodeKey)]? = some "i" := by decide +kernel
  have hkind : secondProject.kind = "Project" := by decide +kernel
  have hkey : secondProject.key = ⟨2⟩ := by decide +kernel
  have hissue : extended.graph.kindOf? "i" = some "Issue" := by decide +kernel
  constructor <;> simp only [List.mem_singleton, forall_eq]
  · intro field s hs
    obtain ⟨rfl, rfl⟩ := hset field s hs
    exact ⟨rfl, Or.inr ⟨hkind, rfl⟩⟩
  · intro key hadds
    obtain rfl := hadded key hadds
    refine ⟨fun node hn hkey' => ?_, fun _ id hid => ?_⟩
    · rw [List.mem_singleton.mp hn, hkey] at hkey'
      cases hkey'
    · rw [← Option.some.inj (hknown.symm.trans hid)]
      exact hissue
  · intro key hadds
    obtain rfl := hadded key hadds
    exact Or.inr ⟨"i", hknown⟩
  · intros
    trivial

end Example

/-- An issue that is added to another project is taken from its own one, which the other one does not know. -/
theorem issue_moved : Example.issues.Holds Example.extended.graph "p" "i" ∧
    ∃ after nodes writes, Example.extended.save (fun _ => "q") NodeKey.val [Example.secondProject] = ((after, nodes), .ok writes) ∧
      Example.issues.Holds after.graph "q" "i" ∧ ∀ id, Example.project.Holds after.graph "i" id ↔ id = "q" := by
  obtain ⟨held, hserving, hheld⟩ := Example.serving_extended
  have hadds : Example.secondProject.AddsTo Example.issues ⟨1⟩ :=
    ⟨by decide +kernel, (RelatedSet.empty "issues" .many).add ⟨1⟩, by decide +kernel, by decide +kernel⟩
  obtain ⟨after, nodes, writes, hsave, hknown, hmoved⟩ := added_nodes_move Example.build_decls hserving
    (rfl : Example.schema.kinds[Example.issues.kind]? = some Example.projectKind) (List.mem_singleton.mpr rfl) rfl
    ⟨rfl, Example.issueKind, rfl, List.mem_singleton.mpr rfl⟩ (rfl : Example.project.cardinality = .one) rfl
    (List.forall_mem_singleton.mpr ⟨_, hheld, rfl⟩) Example.fresh_second Example.onlyAdds_second
    NodeKey.val
  obtain ⟨owner, other, howner, hother, hholds, honly, _⟩ := hmoved _ (List.mem_singleton.mpr rfl) ⟨1⟩ hadds
  have hq : Example.extended.idIn (fun _ => "q") [Example.secondProject] Example.secondProject.key = some "q" := by
    decide +kernel
  have hi : Example.extended.idIn (fun _ => "q") [Example.secondProject] ⟨1⟩ = some "i" := by decide +kernel
  obtain rfl := Option.some.inj (hq.symm.trans ((hknown _).symm.trans howner))
  obtain rfl := Option.some.inj (hi.symm.trans ((hknown _).symm.trans hother))
  exact ⟨⟨by decide +kernel, by decide +kernel⟩, after, nodes, writes, hsave, hholds, honly⟩

end Store

end EntityGraph
