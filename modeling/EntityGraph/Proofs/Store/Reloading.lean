import EntityGraph.Proofs.Node.Current
import EntityGraph.Proofs.Store.Replay
import EntityGraph.Proofs.Store.Session

/-!
# Loading a relationship again

A relationship can be loaded for a node that has changes pending. The nodes loaded are made in memory anew, under keys that were
not issued before, while pending changes refer to nodes by the keys they were known by. So additions stay as they are, and
removals are dropped, since no key that is loaded is one that was removed (`Store.load_keeps_additions`).
-/

namespace EntityGraph

/-- Keys that are loaded and were in no pending change leave the additions as they are, and none of the removals. -/
theorem RelatedSet.load_new {s : RelatedSet} {keys : KeySet} (h : ∀ key ∈ keys, key ∉ s.added ∧ key ∉ s.removed) :
    (s.load keys).added = s.added ∧ (s.load keys).removed = ∅ := by
  constructor <;> refine Std.ExtTreeSet.ext_mem fun key => ?_ <;> rw [load, mem_filter_iff]
  · rw [Bool.not_eq_true', contains_eq_false_iff]
    exact and_iff_left_of_imp fun hadded hkey => (h key hkey).1 hadded
  · rw [Std.ExtTreeSet.contains_iff_mem]
    exact iff_of_false (fun hkey => (h key hkey.2).2 hkey.1) Std.ExtTreeSet.not_mem_empty

namespace Store

/-- One of the nodes with the given keys is remembered under an id. -/
def Names (store : Store) (keys : KeySet) (id : String) : Prop := ∃ key ∈ keys, store.known[key]? = some id

/-- A relationship leads from a node to another one of its related kind. -/
def LeadsTo (store : Store) (r : Relationship) (id other : String) : Prop :=
  other ∈ store.graph.neighbors id r.label r.direction ∧ store.graph.kindOf? other = some r.relatedKind

variable {store after : Store} {r : Relationship} {id other : String} {node : Node}

/-- What is remembered for a key stays when nodes with other keys are remembered. -/
theorem known_remember_of_ne {nodes : List Node} {key : NodeKey} (h : ∀ node ∈ nodes, node.key ≠ key) :
    (store.remember nodes).known[key]? = store.known[key]? := by
  unfold remember
  dsimp only
  generalize store.known = known
  induction nodes generalizing known with
  | nil => rfl
  | cons node nodes ih =>
    rw [List.foldl_cons, ih fun other ho => h other (List.mem_cons_of_mem _ ho)]
    cases node.id with
    | none => rfl
    | some id => simp [Std.ExtTreeMap.getElem?_insert, h node List.mem_cons_self]

theorem Names.congr {keys : KeySet} (h : ∀ key ∈ keys, after.known[key]? = store.known[key]?) :
    after.Names keys other ↔ store.Names keys other := by
  refine exists_congr fun key => and_congr_right fun hkey => ?_
  rw [h key hkey]

theorem names_union_iff {s : RelatedSet} {kept added : KeySet} (h : ∀ key, key ∈ s.current ↔ key ∈ kept ∨ key ∈ added) :
    store.Names s.current other ↔ store.Names kept other ∨ store.Names added other := by
  simp only [Names, h, or_and_right, exists_or]

/-- The field holds, under the ids that are remembered, what the store holds for the relationship. -/
theorem names_known_iff {s : RelatedSet} (h : s.Agrees store r id) (hl : s.isLoaded = true) :
    store.Names s.known other ↔ store.LeadsTo r id other := by
  constructor
  · rintro ⟨key, hkey, hid⟩
    obtain ⟨found, hfound, hn, hk⟩ := h.known key hkey
    obtain rfl := Option.some.inj (hid.symm.trans hfound)
    exact ⟨hn, hk⟩
  · rintro ⟨hn, hk⟩
    exact h.complete hl other hn hk

/-- A relationship is loaded for a stored node whose pending changes are of keys that were issued. The additions are those of
before and no removal is left, so that the field holds what the store holds together with what was added. This is what is expected
of the pending changes just when nothing is taken away by a removal: every neighbour that was removed was added again. -/
theorem load_keeps_additions {decls : List KindDecl} (hb : Schema.build decls = .ok store.schema) (hid : node.id = some id)
    {stored : StoredNode} (hstored : store.graph.nodes[id]? = some stored) {kind : EntityKind}
    (hk : store.schema.kinds[node.kind]? = some kind) (hr : r ∈ kind.relationships) {s : RelatedSet}
    (hset : node.related[r.field]? = some s) (hkey : node.key.val < store.nextKey)
    (hissued : ∀ key, key ∈ s.added ∨ key ∈ s.removed → key.val < store.nextKey)
    (hself : node.key ∈ s.added → store.known[node.key]? = some id) :
    ∃ after node' related t, store.load node r.field = ((after, node'), .ok related) ∧
      node'.related[r.field]? = some t ∧ t.added = s.added ∧ t.removed = ∅ ∧
      (∀ other, after.Names t.current other ↔ store.LeadsTo r id other ∨ store.Names s.added other) ∧
      ((∀ other, after.Names t.current other ↔
          store.LeadsTo r id other ∧ ¬store.Names s.removed other ∨ store.Names s.added other) ↔
        ∀ other, store.LeadsTo r id other → store.Names s.removed other → store.Names s.added other) := by
  have hs := Schema.wellFormed_of_build hb
  obtain ⟨related', hok, -⟩ := exists_load hs hid hstored hk hr hset
  obtain ⟨after, node', hload⟩ : ∃ after node', store.load node r.field = ((after, node'), .ok related') :=
    ⟨_, _, Prod.ext rfl hok⟩
  obtain ⟨r', related, read, s', hfound, hm, hafter, hset', hnode', -⟩ := load_eq_ok hid hload
  obtain rfl : r = r' := Except.ok.inj ((relationship_of_mem hs hk hr).symm.trans hfound)
  obtain rfl : s = s' := Option.some.inj (hset.symm.trans hset')
  obtain ⟨hnodup, hnew⟩ := materialize_new hm
  obtain ⟨rfl, hids, -⟩ := materialize_eq_ok hm
  let keys : KeySet := .ofList (related.map Node.key) compare
  have hapart : ∀ key ∈ keys, key ∉ s.added ∧ key ∉ s.removed := by
    intro key hmem
    obtain ⟨made, hmade, rfl⟩ := mem_keys_iff.mp hmem
    have hfresh : ¬made.key.val < store.nextKey := Nat.not_lt.mpr (hnew made hmade).1
    exact ⟨fun ha => hfresh (hissued _ (Or.inl ha)), fun hr => hfresh (hissued _ (Or.inr hr))⟩
  obtain ⟨hadded, hremoved⟩ := RelatedSet.load_new hapart
  have hother : ∀ made ∈ related, made.key ≠ node.key ∧ made.key ∉ s.added := by
    intro made hmade
    have hfresh := (hnew made hmade).1
    refine ⟨fun he => ?_, fun ha => absurd (hissued _ (Or.inl ha)) (Nat.not_lt.mpr hfresh)⟩
    rw [he] at hfresh
    omega
  -- The new keys are remembered with the ids of their rows, and those of the additions as before.
  have hmade : ∀ made ∈ related, after.known[made.key]? = made.id := by
    intro made hmade
    obtain ⟨row, -, hrow⟩ := List.mem_map.mp (hids ▸ List.mem_map_of_mem (f := Node.id) hmade)
    rw [hafter, ← hrow]
    refine known_remember (fun n hn hkeys => ?_) (Or.inl ⟨made, List.mem_cons_of_mem _ hmade, rfl⟩)
    rcases List.mem_cons.mp hn with rfl | hn
    · exact absurd hkeys.symm (hother made hmade).1
    · rw [hrow, List.inj_on_of_nodup_map hnodup hn hmade hkeys]
  have hkept : ∀ key ∈ s.added, after.known[key]? = store.known[key]? := by
    intro key hadd
    rw [hafter]
    by_cases hown : node.key = key
    · subst hown
      rw [hself hadd]
      refine known_remember (fun n hn hkeys => ?_) (Or.inl ⟨node, List.mem_cons_self, rfl⟩)
      rcases List.mem_cons.mp hn with rfl | hn
      · exact hid
      · exact absurd hkeys (hother n hn).1
    · refine known_remember_of_ne fun n hn hkeys => ?_
      rcases List.mem_cons.mp hn with rfl | hn
      · exact hown hkeys
      · exact (hother n hn).2 (hkeys ▸ hadd)
  have hloaded : ∀ other, after.Names keys other ↔ store.LeadsTo r id other := by
    intro other
    have hgraph : after.graph = store.graph := by rw [hafter]; rfl
    have hleads : after.LeadsTo r id other ↔ store.LeadsTo r id other := by rw [LeadsTo, LeadsTo, hgraph]
    exact (names_known_iff (agrees_load hids hgraph hmade s) rfl).trans hleads
  have hnames : ∀ other, after.Names (s.load keys).current other ↔ store.LeadsTo r id other ∨ store.Names s.added other := by
    intro other
    have hcurrent : ∀ key, key ∈ (s.load keys).current ↔ key ∈ keys ∨ key ∈ s.added := by
      intro key
      rw [RelatedSet.mem_current_iff, hadded, hremoved]
      simp [RelatedSet.known, RelatedSet.load]
    rw [names_union_iff hcurrent, hloaded, Names.congr hkept]
  refine ⟨after, node', related', s.load keys, hload, ?_, hadded, hremoved, hnames, ?_⟩
  · rw [hnode']
    exact Std.ExtTreeMap.getElem?_insert_self
  · simp only [hnames]
    constructor
    · intro hall other hl hn
      rcases (hall other).mp (Or.inl hl) with ⟨-, hkept⟩ | hadd
      · exact absurd hn hkept
      · exact hadd
    · intro hall other
      by_cases hn : store.Names s.removed other
      · simpa [hn] using hall other
      · simp [hn]

namespace Example

/-- The project as it is handed out on its own. -/
def soleProject : Node := { Node.new ⟨2⟩ projectKind with id := some "p" }

theorem get_soleProject : (keptWith []).get "Project" "p" = .ok (some soleProject, keptWith [(⟨2⟩, "p")]) := by
  rw [keptWith, keptWith, saved_eq]
  rfl

/-- The project after its issues were loaded. -/
def fullProject : Node :=
  { soleProject with related := .ofList [("issues", (RelatedSet.empty "issues" .many).load {⟨3⟩})] compare }

/-- The issue as it is handed out with its project. -/
def fetchedIssue : Node :=
  { Node.new ⟨3⟩ issueKind with
    id := some "i", attributes := .ofList [("title", .string "crash")] compare
    related := .ofList [("project", (RelatedSet.empty "project" .one).loadOne ⟨2⟩)] compare }

/-- The state after the project was handed out and its issues were loaded. -/
def loadedOnce : Store := keptWith [(⟨2⟩, "p"), (⟨3⟩, "i")]

theorem load_soleProject : (keptWith [(⟨2⟩, "p")]).load soleProject "issues" =
    ((loadedOnce, fullProject), .ok [fetchedIssue]) := by
  rw [loadedOnce, keptWith, keptWith, saved_eq]
  rfl

theorem reachable_loadedOnce : Reachable schema loadedOnce := by
  have hload : ((keptWith [(⟨2⟩, "p")]).load soleProject "issues").1.1 = loadedOnce := by
    rw [load_soleProject]
  rw [← hload]
  exact .step (.step reachable_kept (.get get_soleProject)) (.load _ _)

/-- The project from which its issue was removed. -/
def emptiedProject : Node := (fullProject.edit "issues" (·.remove ⟨3⟩)).1

/-- The issues of the project after they were loaded again. -/
def refilled : RelatedSet := (RelatedSet.empty "issues" .many).load {⟨4⟩}

def refilledProject : Node := { soleProject with related := .ofList [("issues", refilled)] compare }

/-- The state after that. -/
def loadedTwice : Store := keptWith [(⟨2⟩, "p"), (⟨3⟩, "i"), (⟨4⟩, "i")]

theorem load_emptiedProject : loadedOnce.load emptiedProject "issues" =
    ((loadedTwice, refilledProject), .ok [{ fetchedIssue with key := ⟨4⟩ }]) := by
  have hreached : (loadedOnce.load emptiedProject "issues").1 = (loadedTwice, refilledProject) := by decide +kernel
  have hrelated : (loadedOnce.load emptiedProject "issues").2.toOption = some [{ fetchedIssue with key := ⟨4⟩ }] := by
    decide +kernel
  exact Prod.ext hreached (toOption_eq_some_iff.mp hrelated)

/-- The project to which its issue was added under the key it was saved with. -/
def extendedProject : Node := (soleProject.edit "issues" (·.add ⟨1⟩)).1

end Example

/-- An addition stays pending when the issues of the project are loaded. -/
theorem addition_kept : ∃ after node' related t,
    Example.loadedOnce.load Example.extendedProject "issues" = ((after, node'), .ok related) ∧
      node'.related["issues"]? = some t ∧ t.added = .ofList [⟨1⟩] compare ∧ after.Names t.current "i" := by
  let s : RelatedSet := (RelatedSet.empty "issues" .many).add ⟨1⟩
  have hissued : ∀ key, key ∈ s.added ∨ key ∈ s.removed → key.val < Example.loadedOnce.nextKey := by
    intro key hkey
    have hadded : key ∈ s.added → key = ⟨1⟩ := by
      have hone : s.added = {⟨1⟩} := by decide +kernel
      rw [hone, mem_singleton_iff]
      exact id
    have hremoved : s.removed = ∅ := by decide +kernel
    rw [hadded (hkey.resolve_right (by simp [hremoved]))]
    decide
  have hb : Schema.build Example.decls = .ok Example.loadedOnce.schema := Example.build_decls
  have hid : Example.extendedProject.id = some "p" := rfl
  have hstored : Example.loadedOnce.graph.nodes["p"]? = some ⟨"Project", ∅⟩ := by decide +kernel
  have hk : Example.loadedOnce.schema.kinds[Example.extendedProject.kind]? = some Example.projectKind := rfl
  have hr : Example.issues ∈ Example.projectKind.relationships := List.mem_cons_self
  have hset : Example.extendedProject.related[Example.issues.field]? = some s := rfl
  obtain ⟨after, node', related, t, hload, hset', hadded, -, hnames, -⟩ :=
    load_keeps_additions hb hid hstored hk hr hset (by decide) hissued (by decide +kernel)
  refine ⟨after, node', related, t, hload, hset', hadded.trans (by decide +kernel), (hnames "i").mpr (Or.inr ⟨⟨1⟩, ?_, ?_⟩)⟩ <;>
    decide +kernel

/-- An issue is removed from a project, and is among its issues again once these are loaded, with no change left to be saved. -/
theorem removal_forgotten : Reachable Example.schema Example.loadedOnce ∧
    (∃ s, Example.emptiedProject.related["issues"]? = some s ∧ Example.loadedOnce.Names s.removed "i" ∧ s.added = ∅) ∧
      ∃ after node' related t, Example.loadedOnce.load Example.emptiedProject "issues" = ((after, node'), .ok related) ∧
        node'.related["issues"]? = some t ∧ after.Names t.current "i" ∧ node'.hasChanges = false := by
  refine ⟨Example.reachable_loadedOnce, ⟨_, rfl, ⟨⟨3⟩, ?_, ?_⟩, ?_⟩,
    _, _, _, Example.refilled, Example.load_emptiedProject, rfl, ⟨⟨4⟩, ?_, ?_⟩, ?_⟩ <;> decide +kernel

end Store

end EntityGraph
