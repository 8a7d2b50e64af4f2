import EntityGraph.Proofs.Store.Agreement
import EntityGraph.Proofs.Store.Mirror

/-!
# Edges that a save takes away

A save takes away an edge only if a node of the batch unrelates the nodes at its ends, or if one of them was the value of a
field for one node and another node is related in its place (`lost_edges_asked_for`). All that the batch relates is related
afterwards.
-/

namespace EntityGraph

namespace RelatedSet

/-- Saving will relate a node. -/
def Adds (s : RelatedSet) (key : NodeKey) : Prop := key ∈ s.added ∧ key ∉ s.known

/-- Saving will unrelate a node. -/
def Removes (s : RelatedSet) (key : NodeKey) : Prop := key ∈ s.removed ∧ key ∈ s.known

end RelatedSet

/-- A node of a batch has related nodes in the field of a relationship of its kind. -/
structure Schema.FieldOf (schema : Schema) (nodes : List Node) (node : Node) (r : Relationship) (s : RelatedSet) : Prop where
  mem : node ∈ nodes
  kind : ∃ kind, schema.kinds[node.kind]? = some kind ∧ r ∈ kind.relationships
  set : node.related[r.field]? = some s

namespace Store

/-- The nodes that a key stands for are of a kind: those of a batch that have it, or else the stored one it is remembered for. -/
def KeyOfKind (store : Store) (nodes : List Node) (key : NodeKey) (kind : String) : Prop :=
  (∀ node ∈ nodes, node.key = key → node.kind = kind) ∧
    ((∀ node ∈ nodes, node.key ≠ key) → ∀ id, store.known[key]? = some id → store.graph.kindOf? id = some kind)

/-- A batch has a pending addition between nodes with the given ids, which the store remembers once they are saved. -/
def Relates (after : Store) (nodes : List Node) (r : Relationship) (owner other : String) : Prop :=
  ∃ node s key, after.schema.FieldOf nodes node r s ∧ s.Adds key ∧
    after.known[node.key]? = some owner ∧ after.known[key]? = some other

/-- A batch has a pending removal between nodes with the given ids. -/
def Unrelates (after : Store) (nodes : List Node) (r : Relationship) (owner other : String) : Prop :=
  ∃ node s key, after.schema.FieldOf nodes node r s ∧ s.Removes key ∧
    after.known[node.key]? = some owner ∧ after.known[key]? = some other

/-- A save puts a node in the place of the one that a field for one node held. -/
structure Replaces (before after : Store) (nodes : List Node) (field : Relationship) (owner previous other : String) : Prop where
  one : field.cardinality = .one
  /-- The field belongs to the node that owns it. -/
  own : ∃ name kind, before.graph.kindOf? owner = some name ∧ before.schema.kinds[name]? = some kind ∧
    field ∈ kind.relationships
  held : field.Holds before.graph owner previous
  ne : previous ≠ other
  /-- The batch relates the other node to the owner, by a relationship that the field mirrors. -/
  related : ∃ r, before.schema.Mirrors r field ∧ after.Relates nodes r other owner
  edge : field.edge ⟨owner, other⟩ ∈ after.graph.edges
  /-- If the other node is of the related kind, the field holds it and nothing else. -/
  holds : after.graph.kindOf? other = some field.relatedKind → ∀ id, field.Holds after.graph owner id ↔ id = other

/-- What is known after a save that succeeded. -/
theorem exists_saved {store after : Store} {makeId : NodeKey → String} {rank : NodeKey → Nat} {nodes nodes' : List Node}
    {writes : List EdgeWrite} (hs : store.schema.WellFormed) (h : store.save makeId rank nodes = ((after, nodes'), .ok writes)) :
    ∃ plan, store.Planned makeId nodes plan ∧ after.schema = store.schema ∧ after.graph = plan.write nodes store.graph ∧
      ∀ key : NodeKey, after.known[key]? = store.lookup plan.ids key := by
  obtain ⟨plan, hplan, hcarry⟩ := save_eq_ok h
  have hp := plan_eq_ok hplan
  obtain ⟨hafter, _⟩ := carryOut_eq_none hs hcarry
  exact ⟨plan, hp, by rw [hafter], by rw [hafter], hp.known_eq_lookup (congrArg Store.known hafter)⟩

namespace Planned

variable {store : Store} {makeId : NodeKey → String} {nodes : List Node} {plan : SavePlan} {node : Node} {r : Relationship}
  {s : RelatedSet} {key : NodeKey} {other : String}

/-- A stored node with the id that a key is looked up by has the kind that the key stands for. -/
theorem kindOf?_of_lookup (hp : store.Planned makeId nodes plan) (hf : store.MakesFresh makeId) {kind : String}
    (hkey : store.KeyOfKind nodes key kind) (hl : store.lookup plan.ids key = some other) {stored : StoredNode}
    (hs : store.graph.nodes[other]? = some stored) : store.graph.kindOf? other = some kind := by
  have hk : store.graph.kindOf? other = some stored.kind := Graph.kindOf?_eq_some_iff.mpr ⟨stored, hs, rfl⟩
  rw [lookup] at hl
  cases hids : plan.ids[key]? with
  | some given =>
    rw [hids] at hl
    obtain rfl := Option.some.inj hl
    obtain ⟨last, hlast, hid⟩ := hp.ids_eq_some_iff.mp hids
    obtain ⟨hn, hlk⟩ := lastWith_some hlast
    obtain ⟨_, ⟨_, rfl⟩ | ⟨_, hkind⟩⟩ := assignId_eq_ok_iff.mp hid
    · -- No node is stored under an id that is made up.
      rw [hf] at hs
      cases hs
    · rw [hk, hkind _ hk, hkey.1 last hn hlk]
  | none =>
    rw [hids] at hl
    refine hkey.2 (fun node hn hnk => ?_) other hl
    rw [← hnk, hp.ids_key hn] at hids
    cases hids

/-- The edge of a pending addition is created. -/
theorem create_of_adds (hp : store.Planned makeId nodes plan) (hfield : store.schema.FieldOf nodes node r s)
    (hkey : s.Adds key) (hl : store.lookup plan.ids key = some other) :
    EdgeWrite.create (r.edge ⟨plan.idOf node, other⟩) ∈ plan.writes := by
  obtain ⟨hn, ⟨kind, hk, hr⟩, hset⟩ := hfield
  exact hp.create_mem_iff.mpr ⟨node, hn, kind, hk, r, hr, s, hset, key, hkey.1, hkey.2, other, hl, rfl⟩

/-- Where a pending addition leads to a node whose mirror field holds one other node, that node is replaced. -/
theorem replaces (hp : store.Planned makeId nodes plan) (hf : store.MakesFresh makeId) (hs : store.schema.WellFormed)
    (hsound : store.Sound) {after : Store} (hschema : after.schema = store.schema)
    (hgraph : after.graph = plan.write nodes store.graph)
    (hknown : ∀ key : NodeKey, after.known[key]? = store.lookup plan.ids key)
    (hfield : store.schema.FieldOf nodes node r s) (hkey : s.Adds key) (hkind : store.KeyOfKind nodes key r.relatedKind)
    (hl : store.lookup plan.ids key = some other) {mirror : Relationship} (hmirror : store.schema.Mirrors r mirror)
    (hone : mirror.cardinality = .one) {previous : String} (hheld : mirror.Holds store.graph other previous)
    (hne : previous ≠ plan.idOf node) :
    Replaces store after nodes mirror other previous (plan.idOf node) := by
  obtain ⟨kind, hk, hr⟩ := hfield.kind
  obtain ⟨related, hrelated, hmem⟩ := hmirror.mem
  obtain ⟨stored, hstored⟩ := hsound.ends hheld.1 mirror.owner_end
  have hother := hp.kindOf?_of_lookup hf hkind hl hstored
  have hafter : after.graph.kindOf? other = some r.relatedKind := by
    rw [hgraph]
    exact hp.kindOf?_write_of_kindOf? hf hother
  -- The relationship and its mirror relate the two nodes by one edge, which is created.
  have hcreate : EdgeWrite.create (mirror.edge ⟨other, plan.idOf node⟩) ∈ plan.writes := by
    rw [hmirror.edge_eq hs hk hr]
    exact hp.create_of_adds hfield hkey hl
  have hedge : mirror.edge ⟨other, plan.idOf node⟩ ∈ after.graph.edges := by
    rw [hgraph]
    exact SavePlan.mem_edges_write_iff.mpr (Or.inl hcreate)
  refine ⟨hone, ⟨_, related, hother, hrelated, hmem⟩, hheld, hne, ⟨r, hmirror, ?_⟩, hedge, fun hnode id => ⟨fun hid => ?_, ?_⟩⟩
  · exact ⟨node, s, key, ⟨hfield.mem, hschema ▸ hfield.kind, hfield.set⟩, hkey, (hknown _).trans (hp.lookup_idOf hfield.mem),
      (hknown key).trans hl⟩
  · rw [Relationship.Holds, hgraph] at hid
    rw [hgraph] at hafter hedge hnode
    exact hp.create_toOne hcreate hafter hrelated hmem hone hid.1 hid.2 hedge hnode
  · rintro rfl
    exact ⟨hedge, hnode⟩

end Planned

/-- A save takes away no edge that it was not asked to: an edge that is lost was between nodes that the batch unrelates, or to
the value of a field for one node in whose place the batch relates another one. All that the batch relates is related
afterwards, by the edge that the relationship gives. -/
theorem lost_edges_asked_for {decls : List KindDecl} {schema : Schema} (hb : Schema.build decls = .ok schema) {store : Store}
    (hreach : Reachable schema store) {makeId : NodeKey → String} {rank : NodeKey → Nat} {nodes : List Node}
    (hf : store.MakesFresh makeId)
    (hadded : ∀ node r s, schema.FieldOf nodes node r s → ∀ key ∈ s.added, store.KeyOfKind nodes key r.relatedKind)
    {after : Store} {nodes' : List Node} {writes : List EdgeWrite}
    (h : store.save makeId rank nodes = ((after, nodes'), .ok writes)) :
    (∀ e ∈ store.graph.edges, e ∉ after.graph.edges →
        (∃ r owner other, after.Unrelates nodes r owner other ∧ e = r.edge ⟨owner, other⟩) ∨
          ∃ field owner previous other, Replaces store after nodes field owner previous other ∧
            e = field.edge ⟨owner, previous⟩) ∧
      ∀ node r s, schema.FieldOf nodes node r s → ∀ key, s.Adds key →
        ∃ owner other, after.known[node.key]? = some owner ∧ after.known[key]? = some other ∧
          r.edge ⟨owner, other⟩ ∈ after.graph.edges := by
  obtain rfl := hreach.schema_eq
  have hs := Schema.wellFormed_of_build hb
  obtain ⟨plan, hp, hschema, hgraph, hknown⟩ := exists_saved hs h
  have hnode : ∀ {node}, node ∈ nodes → after.known[node.key]? = some (plan.idOf node) :=
    fun hn => (hknown _).trans (hp.lookup_idOf hn)
  refine ⟨fun e he hlost => ?_, fun node r s hfield key hkey => ?_⟩
  · rw [hgraph, SavePlan.mem_edges_write_iff, not_or, not_and_not_right] at hlost
    obtain ⟨node, hn, kind, hk, r, hr, s, hset, hasked⟩ := (hp.delete_mem_iff hs).mp (hlost.2 he)
    have hfield : store.schema.FieldOf nodes node r s := ⟨hn, ⟨kind, hk, hr⟩, hset⟩
    rcases hasked with ⟨key, hkey, hkn, other, hl, rfl⟩ |
      ⟨key, hkey, hkn, owner, hl, mirror, hmirror, hone, previous, hheld, hne, hprevious, rfl⟩
    · exact Or.inl ⟨r, _, other, ⟨node, s, key, hschema ▸ hfield, ⟨hkey, hkn⟩, hnode hn, (hknown key).trans hl⟩, rfl⟩
    · exact Or.inr ⟨mirror, owner, previous, plan.idOf node, hp.replaces hf hs hreach.sound hschema hgraph hknown hfield
        ⟨hkey, hkn⟩ (hadded node r s hfield key hkey) hl hmirror hone ⟨hheld, hprevious⟩ hne, rfl⟩
  · obtain ⟨kind, hk, hr⟩ := hfield.kind
    obtain ⟨other, hl⟩ := hp.lookup_isSome hfield.mem hk hr hfield.set (Or.inr (Or.inl hkey.1))
    refine ⟨plan.idOf node, other, hnode hfield.mem, (hknown key).trans hl, ?_⟩
    rw [hgraph]
    exact SavePlan.mem_edges_write_iff.mpr (Or.inl (hp.create_of_adds hfield hkey hl))

namespace Example

def items : Relationship := ⟨"Archive", "items", "Issue", "HAS_ISSUE", .outgoing, .many, some "project"⟩

def archiveKind : EntityKind := ⟨"Archive", [], [items]⟩

/-- Projects and archives have issues along one label; an issue has one project. -/
def archiveDecls : List KindDecl := decls ++ [⟨"Archive", [], [⟨"items", "Issue", "HAS_ISSUE", .outgoing, .many⟩]⟩]

def archiveSchema : Schema :=
  ⟨.ofList [("Project", projectKind), ("Issue", issueKind), ("Archive", archiveKind)] compare⟩

theorem build_archiveDecls : Schema.build archiveDecls = .ok archiveSchema := rfl

/-- The ids of a project, its issue and an archive. -/
def makeArchiveId (key : NodeKey) : String := if key = ⟨2⟩ then "a" else makeId key

/-- The graph after the three were saved, with the given edges. -/
def archiveGraph (edges : List Edge) : Graph :=
  ⟨.ofList [("p", ⟨"Project", ∅⟩), ("i", ⟨"Issue", .ofList [("title", .string "crash")] compare⟩), ("a", ⟨"Archive", ∅⟩)]
    compare, .ofList edges compare⟩

theorem mem_archiveGraph_iff {edges : List Edge} {e : Edge} : e ∈ (archiveGraph edges).edges ↔ e ∈ edges := by
  simp [archiveGraph]

/-- The state after the three were saved. -/
def archived : Store :=
  ⟨archiveSchema, archiveGraph [⟨"p", "HAS_ISSUE", "i"⟩], .ofList [(⟨0⟩, "p"), (⟨1⟩, "i"), (⟨2⟩, "a")] compare, 3⟩

/-- The archive, to which the issue was added. -/
def fullArchive : Node :=
  { Node.new ⟨2⟩ archiveKind with
    id := some "a", related := .ofList [("items", (RelatedSet.empty "items" .many).add ⟨1⟩)] compare }

theorem reachable_archived : Reachable archiveSchema archived := by
  have hsaved : ((Store.empty archiveSchema).issueKey.2.issueKey.2.issueKey.2.save makeArchiveId NodeKey.val
      [newProject, newIssue, Node.new ⟨2⟩ archiveKind]).1.1 = archived := by
    decide +kernel
  rw [← hsaved]
  refine .step (.step (.step (.step .empty .issueKey) .issueKey) .issueKey) (.save _ _ _ fun key => ?_)
  simp [issueKey, Store.empty, Graph.empty]

theorem makesFresh_archived : archived.MakesFresh fun _ => "x" := by
  have hnone : archived.graph.nodes["x"]? = none := rfl
  exact fun _ => hnone

/-- The archive has one field, to which the issue was added. -/
theorem fieldOf_fullArchive {node : Node} {r : Relationship} {s : RelatedSet}
    (h : archiveSchema.FieldOf [fullArchive] node r s) : r = items ∧ s.added = {⟨1⟩} ∧ s.removed = ∅ := by
  obtain ⟨hn, ⟨kind, hk, hr⟩, hset⟩ := h
  obtain rfl := List.mem_singleton.mp hn
  obtain rfl := Option.some.inj ((rfl : archiveSchema.kinds[fullArchive.kind]? = some archiveKind).symm.trans hk)
  obtain rfl := List.mem_singleton.mp hr
  obtain rfl := Option.some.inj ((rfl : fullArchive.related["items"]? = some _).symm.trans hset)
  exact ⟨rfl, rfl, rfl⟩

theorem added_fullArchive : ∀ node r s, archiveSchema.FieldOf [fullArchive] node r s →
    ∀ key ∈ s.added, archived.KeyOfKind [fullArchive] key r.relatedKind := by
  intro node r s h key hkey
  obtain ⟨rfl, hadded, _⟩ := fieldOf_fullArchive h
  rw [hadded] at hkey
  obtain rfl : ⟨1⟩ = key := by simpa using hkey
  refine ⟨fun other ho hk => ?_, fun _ id hid => ?_⟩
  · rw [List.mem_singleton.mp ho] at hk
    exact absurd hk (by decide)
  · obtain rfl := Option.some.inj ((rfl : archived.known[(⟨1⟩ : NodeKey)]? = some "i").symm.trans hid)
    rfl

/-- The project of an issue is the only field for one node. -/
theorem eq_project_of_one {name : String} {kind : EntityKind} {field : Relationship}
    (hk : archiveSchema.kinds[name]? = some kind) (hfield : field ∈ kind.relationships) (hone : field.cardinality = .one) :
    field = project := by
  have hlist : archiveSchema.kinds.toList = [("Archive", archiveKind), ("Issue", issueKind), ("Project", projectKind)] := rfl
  have hmem := Std.ExtTreeMap.mem_toList_iff_getElem?_eq_some.mpr hk
  simp only [hlist, List.mem_cons, Prod.mk.injEq, List.not_mem_nil, or_false] at hmem
  rcases hmem with ⟨_, rfl⟩ | ⟨_, rfl⟩ | ⟨_, rfl⟩
  · rw [List.mem_singleton.mp hfield] at hone
    cases hone
  · exact List.mem_singleton.mp hfield
  · rw [List.mem_singleton.mp hfield] at hone
    cases hone

theorem save_fullArchive : ∃ after nodes' writes,
    archived.save (fun _ => "x") NodeKey.val [fullArchive] = ((after, nodes'), .ok writes) ∧ after.schema = archiveSchema ∧
      after.graph = archiveGraph [⟨"a", "HAS_ISSUE", "i"⟩] := by
  have hok : (archived.save (fun _ => "x") NodeKey.val [fullArchive]).2 =
      .ok [.create ⟨"a", "HAS_ISSUE", "i"⟩, .delete ⟨"p", "HAS_ISSUE", "i"⟩] := by
    decide +kernel
  have hstore : (archived.save (fun _ => "x") NodeKey.val [fullArchive]).1.1.schema = archiveSchema ∧
      (archived.save (fun _ => "x") NodeKey.val [fullArchive]).1.1.graph = archiveGraph [⟨"a", "HAS_ISSUE", "i"⟩] := by
    decide +kernel
  exact ⟨_, _, _, Prod.ext rfl hok, hstore⟩

end Example

/-- When the issue of a project is added to an archive, it is taken from its project: the field of its project is the mirror of
the field that it is added to, and is left without a project. -/
theorem archived_issue_leaves_project : Reachable Example.archiveSchema Example.archived ∧
    (Example.archived.MakesFresh fun _ => "x") ∧
    (∀ node r s, Example.archiveSchema.FieldOf [Example.fullArchive] node r s → ∀ key ∈ s.added,
      Example.archived.KeyOfKind [Example.fullArchive] key r.relatedKind) ∧
    ∃ after nodes' writes,
      Example.archived.save (fun _ => "x") NodeKey.val [Example.fullArchive] = ((after, nodes'), .ok writes) ∧
        ∃ e ∈ Example.archived.graph.edges, e ∉ after.graph.edges ∧
          (∀ r owner other, ¬after.Unrelates [Example.fullArchive] r owner other) ∧
          ∀ (field : Relationship) (owner previous name : String) (kind : EntityKind),
            Example.archived.graph.kindOf? owner = some name → Example.archiveSchema.kinds[name]? = some kind →
            field ∈ kind.relationships → field.cardinality = .one → e = field.edge ⟨owner, previous⟩ →
            ∀ id, ¬field.Holds after.graph owner id := by
  obtain ⟨after, nodes', writes, hsave, hschema, hgraph⟩ := Example.save_fullArchive
  refine ⟨Example.reachable_archived, Example.makesFresh_archived, Example.added_fullArchive, after, nodes', writes, hsave,
    ⟨"p", "HAS_ISSUE", "i"⟩, Example.mem_archiveGraph_iff.mpr (by simp), ?_, ?_, ?_⟩
  · rw [hgraph, Example.mem_archiveGraph_iff]
    decide
  · rintro r owner other ⟨node, s, key, hfield, hremoves, _⟩
    rw [hschema] at hfield
    rw [RelatedSet.Removes, (Example.fieldOf_fullArchive hfield).2.2] at hremoves
    simp at hremoves
  · intro field owner previous name kind _ hk hfield hone he id hholds
    obtain rfl := Example.eq_project_of_one hk hfield hone
    obtain ⟨rfl, rfl⟩ : previous = "p" ∧ owner = "i" := by
      simpa [Example.project, Relationship.edge, eq_comm] using he
    obtain ⟨hedge, hkind⟩ := hholds
    rw [hgraph] at hedge hkind
    rw [Example.mem_archiveGraph_iff, List.mem_singleton] at hedge
    obtain rfl : id = "a" := by
      simpa [Example.project, Relationship.edge] using hedge
    have hfound : (Example.archiveGraph [⟨"a", "HAS_ISSUE", "i"⟩]).kindOf? "a" = some "Archive" := rfl
    rw [hfound] at hkind
    exact absurd hkind (by decide)

/-- The project is replaced by the archive, as the other end of the issue's edges. -/
theorem archive_replaces_project : ∃ after nodes' writes,
    Example.archived.save (fun _ => "x") NodeKey.val [Example.fullArchive] = ((after, nodes'), .ok writes) ∧
      ∃ field owner previous other,
        Replaces Example.archived after [Example.fullArchive] field owner previous other ∧
          (⟨"p", "HAS_ISSUE", "i"⟩ : Edge) = field.edge ⟨owner, previous⟩ := by
  obtain ⟨after, nodes', writes, hsave, hschema, hgraph⟩ := Example.save_fullArchive
  have hlost := (lost_edges_asked_for Example.build_archiveDecls Example.reachable_archived Example.makesFresh_archived
    Example.added_fullArchive hsave).1 ⟨"p", "HAS_ISSUE", "i"⟩ (Example.mem_archiveGraph_iff.mpr (by simp))
    (by rw [hgraph, Example.mem_archiveGraph_iff]; decide)
  refine ⟨after, nodes', writes, hsave, hlost.resolve_left ?_⟩
  rintro ⟨r, owner, other, ⟨node, s, key, hfield, hremoves, _⟩, _⟩
  rw [hschema] at hfield
  rw [RelatedSet.Removes, (Example.fieldOf_fullArchive hfield).2.2] at hremoves
  simp at hremoves

end Store

end EntityGraph
