import EntityGraph.Proofs.Filter.Accepted
import EntityGraph.Proofs.Store.Filtering

/-!
# Quantified filters and loaded relationships

A quantifier in a filter ranges over all neighbours through the label and the direction of a relationship, while loading the
relationship returns those that are of its related kind. The two see the same nodes where no neighbour is of another kind, as it
is when a label is used between two kinds only; a neighbour of another kind counts for the quantifier alone
(`quantifier_counts_other_kind`).
-/

namespace EntityGraph

/-! ## Quantifiers -/

/-- Whether all, some or none of the nodes of a domain have a property. -/
def Quantifier.Ranges (q : Quantifier) (domain property : String → Prop) : Prop :=
  match q with
  | .all => ∀ id, domain id → property id
  | .some => ∃ id, domain id ∧ property id
  | .none => ¬∃ id, domain id ∧ property id

theorem Quantifier.ranges_congr (q : Quantifier) {domain domain' property property' : String → Prop}
    (hd : ∀ id, domain id ↔ domain' id) (hp : ∀ id, domain id → (property id ↔ property' id)) :
    q.Ranges domain property ↔ q.Ranges domain' property' := by
  have hboth : (∃ id, domain id ∧ property id) ↔ ∃ id, domain' id ∧ property' id :=
    exists_congr fun id => (and_congr_right (hp id)).trans (and_congr_left' (hd id))
  cases q with
  | all => exact forall_congr' fun id => (imp_congr_right (hp id)).trans (imp_congr_left (hd id))
  | some => exact hboth
  | none => exact not_congr hboth

/-- A quantified entry holds when its filter holds at all, some or none of the neighbours through its relationship. -/
theorem FilterEntry.holds_quantified_iff (g : Graph) (id : String) (q : Quantifier) (r : Relationship) (filter : Filter) :
    Filter.holds [.quantified q r filter] g id = true ↔
      q.Ranges (· ∈ g.neighbors id r.label r.direction) (filter.holds g · = true) := by
  rw [Filter.holds, entriesHold, entriesHold, Bool.and_true]
  cases q with
  | all => simp [holds, Quantifier.Ranges, Filter.holds]
  | some => simp [holds, Quantifier.Ranges, Filter.holds]
  | none => simp [holds, Quantifier.Ranges, Filter.holds]

namespace Store

/-! ## Nodes returned -/

section

variable {store : Store} {nodes : List Node} {id : String}

/-- The ids of nodes that are shown as rows. -/
theorem mem_ids_iff {rows : List (String × StoredNode)}
    (h : nodes.map shown = rows.map fun row => (some row.1, row.2.kind, row.2.attributes)) :
    some id ∈ nodes.map Node.id ↔ ∃ stored, (id, stored) ∈ rows := by
  have hids : nodes.map Node.id = (nodes.map shown).map Prod.fst := by
    rw [List.map_map]
    rfl
  rw [hids, h]
  simp

/-- The ids that a query with a filter returns. -/
theorem mem_filtered_ids_iff {kind : String} {filter : Filter}
    (h : nodes.map shown = (store.filteredRows kind filter).map fun row => (some row.1, row.2.kind, row.2.attributes)) :
    some id ∈ nodes.map Node.id ↔ store.graph.kindOf? id = some kind ∧ filter.holds store.graph id = true := by
  rw [mem_ids_iff h, Graph.kindOf?_eq_some_iff]
  simp [mem_filteredRows_iff, ← and_assoc]

/-- The ids that the loading of a relationship returns. -/
theorem mem_related_ids_iff {r : Relationship} {owner : String}
    (h : nodes.map shown = (store.relatedRows r owner).map fun row => (some row.1, row.2.kind, row.2.attributes)) :
    some id ∈ nodes.map Node.id ↔
      id ∈ store.graph.neighbors owner r.label r.direction ∧ store.graph.kindOf? id = some r.relatedKind := by
  rw [mem_ids_iff h, Graph.kindOf?_eq_some_iff]
  simp [mem_relatedRows_iff]

end

/-- A neighbour of a node through a relationship that is not of the related kind. -/
def Stranger (store : Store) (r : Relationship) (id other : String) : Prop :=
  other ∈ store.graph.neighbors id r.label r.direction ∧ store.graph.kindOf? other ≠ some r.relatedKind

/-- A query with a quantified filter, one with the filter inside, and the loading of the relationship all succeed. The first
returns a node exactly when the quantifier holds over the nodes loaded, each judged by whether the second returns it, and over
the neighbours of other kinds, each judged by the filter; without such neighbours, over the nodes loaded alone. -/
theorem quantified_ranges_over_loaded {decls : List KindDecl} {store : Store} (hb : Schema.build decls = .ok store.schema)
    {filters : FilterSchema} (hf : FilterSchema.build store.schema = .ok filters) {node : Node} {id : String}
    (hid : node.id = some id) (hstored : store.graph.kindOf? id = some node.kind) {kind : EntityKind}
    (hk : store.schema.kinds[node.kind]? = some kind) {r : Relationship} (hr : r ∈ kind.relationships) {s : RelatedSet}
    (hset : node.related[r.field]? = some s) (q : Quantifier) {j : Json} {filter : Filter}
    (hj : filters.parse r.relatedKind j = .ok filter) (subject inner : Variable) :
    ∃ whole found matching loaded after after',
      filters.parse node.kind (.object [(r.field, .object [(q.name, j)])]) = .ok whole ∧
        store.query node.kind subject (whole.condition subject) = .ok (found, after) ∧
        store.query r.relatedKind inner (filter.condition inner) = .ok (matching, after') ∧
        (store.load node r.field).2 = .ok loaded ∧
        (some id ∈ found.map Node.id ↔
          q.Ranges (fun other => some other ∈ loaded.map Node.id ∨ store.Stranger r id other)
            (fun other => some other ∈ matching.map Node.id ∨
              store.Stranger r id other ∧ filter.holds store.graph other = true)) ∧
        ((∀ other, ¬store.Stranger r id other) →
          (some id ∈ found.map Node.id ↔
            q.Ranges (fun other => some other ∈ loaded.map Node.id) (fun other => some other ∈ matching.map Node.id))) := by
  have hs := Schema.wellFormed_of_build hb
  obtain ⟨stored, hnode, _⟩ := Graph.kindOf?_eq_some_iff.mp hstored
  obtain ⟨other, hother, _⟩ := hs.related hk r hr
  obtain ⟨found, after, hquery, hfound⟩ := store.query_condition hs hk [.quantified q r filter]
  obtain ⟨matching, after', hquery', hmatching⟩ := store.query_condition hs hother filter
  obtain ⟨loaded, hload, hloaded⟩ := exists_load hs hid hnode hk hr hset
  have hranges : some id ∈ found.map Node.id ↔
      q.Ranges (fun other => some other ∈ loaded.map Node.id ∨ store.Stranger r id other)
        (fun other => some other ∈ matching.map Node.id ∨
          store.Stranger r id other ∧ filter.holds store.graph other = true) := by
    rw [mem_filtered_ids_iff hfound, FilterEntry.holds_quantified_iff, and_iff_right hstored]
    refine q.ranges_congr (fun other => ?_) (fun other hn => ?_)
    · rw [mem_related_ids_iff hloaded, Stranger, ← and_or_left]
      simp [em]
    · rw [mem_filtered_ids_iff hmatching, Stranger]
      by_cases hkind : store.graph.kindOf? other = some r.relatedKind <;> simp [hkind, hn]
  refine ⟨_, found, matching, loaded, after, after', FilterSchema.parse_quantified hs hf hk hr q hj, hquery subject,
    hquery' inner, hload, hranges, fun hnone => hranges.trans ?_⟩
  refine q.ranges_congr (fun other => ?_) (fun other _ => ?_)
  · simp [hnone other]
  · simp [hnone other]

/-! ## An example: a box whose tools and toys share a label -/

namespace Example

def tools : Relationship := ⟨"Box", "tools", "Tool", "HOLDS", .outgoing, .many, none⟩

def toys : Relationship := ⟨"Box", "toys", "Toy", "HOLDS", .outgoing, .many, none⟩

def boxKind : EntityKind := ⟨"Box", [], [tools, toys]⟩

def boxDecls : List KindDecl :=
  [⟨"Box", [], [⟨"tools", "Tool", "HOLDS", .outgoing, .many⟩, ⟨"toys", "Toy", "HOLDS", .outgoing, .many⟩]⟩,
    ⟨"Tool", [], []⟩, ⟨"Toy", [], []⟩]

def boxSchema : Schema :=
  ⟨.ofList [("Box", boxKind), ("Tool", ⟨"Tool", [], []⟩), ("Toy", ⟨"Toy", [], []⟩)] compare⟩

theorem build_boxDecls : Schema.build boxDecls = .ok boxSchema := rfl

theorem boxSchema_box : boxSchema.kinds["Box"]? = some boxKind := rfl

def boxFilters : FilterSchema :=
  ⟨.ofList [("Box", ⟨"Box", .ofList [("tools", .related tools), ("toys", .related toys)] compare⟩),
    ("Tool", ⟨"Tool", ∅⟩), ("Toy", ⟨"Toy", ∅⟩)] compare⟩

theorem build_boxFilters : FilterSchema.build boxSchema = .ok boxFilters := rfl

/-- A new box, to which a toy was added. -/
def newBox : Node :=
  { Node.new ⟨0⟩ boxKind with
    related := .ofList [("tools", .empty "tools" .many), ("toys", (RelatedSet.empty "toys" .many).add ⟨1⟩)] compare }

/-- The state after the box was saved with its toy. -/
def packed : Store :=
  ((Store.empty boxSchema).save (fun key => if key = ⟨0⟩ then "b" else "t") NodeKey.val [newBox, Node.new ⟨1⟩ ⟨"Toy", [], []⟩]).1.1

theorem packed_eq : packed =
    ⟨boxSchema,
      ⟨.ofList [("b", ⟨"Box", ∅⟩), ("t", ⟨"Toy", ∅⟩)] compare, .ofList [⟨"b", "HOLDS", "t"⟩] compare⟩,
      .ofList [(⟨0⟩, "b"), (⟨1⟩, "t")] compare, 0⟩ := by
  decide +kernel

theorem reachable_packed : Reachable boxSchema packed := by
  refine .step .empty (.save _ _ _ fun key => ?_)
  simp [Store.empty, Graph.empty]

/-- The box in memory, as it is handed out. -/
def storedBox : Node := { Node.new ⟨2⟩ boxKind with id := some "b" }

end Example

/-- The toys of the box are not mixed with other nodes, and a quantifier ranges over the toys that are loaded. -/
theorem quantifier_ranges_over_toys : ∃ whole found matching loaded after after',
    Example.boxFilters.parse "Box" (.object [("toys", .object [("all", .object [])])]) = .ok whole ∧
      Example.packed.query "Box" ⟨"n"⟩ (whole.condition ⟨"n"⟩) = .ok (found, after) ∧
      Example.packed.query "Toy" ⟨"n"⟩ (Filter.condition [] ⟨"n"⟩) = .ok (matching, after') ∧
      (Example.packed.load Example.storedBox "toys").2 = .ok loaded ∧
      (some "b" ∈ found.map Node.id ↔
        Quantifier.Ranges .all (fun other => some other ∈ loaded.map Node.id)
          (fun other => some other ∈ matching.map Node.id)) := by
  have hschema : Example.packed.schema = Example.boxSchema := Example.reachable_packed.schema_eq
  have hset : Example.storedBox.related[Example.toys.field]? = some (.empty "toys" .many) := rfl
  have hneighbors : Example.packed.graph.neighbors "b" Example.toys.label Example.toys.direction = ["t"] := by
    rw [Example.packed_eq]
    rfl
  have htoy : Example.packed.graph.kindOf? "t" = some Example.toys.relatedKind := by
    rw [Example.packed_eq]
    rfl
  obtain ⟨whole, found, matching, loaded, after, after', hparse, hquery, hinner, hload, _, hranges⟩ :=
    quantified_ranges_over_loaded (hschema ▸ Example.build_boxDecls) (hschema ▸ Example.build_boxFilters)
      (rfl : Example.storedBox.id = some "b") (by rw [Example.packed_eq]; rfl) (by rw [hschema]; exact Example.boxSchema_box)
      (List.mem_cons_of_mem _ List.mem_cons_self : Example.toys ∈ Example.boxKind.relationships) hset .all
      (rfl : Example.boxFilters.parse "Toy" (.object []) = .ok []) ⟨"n"⟩ ⟨"n"⟩
  refine ⟨whole, found, matching, loaded, after, after', hparse, hquery, hinner, hload, hranges ?_⟩
  rintro other ⟨hn, hkind⟩
  rw [hneighbors, List.mem_singleton] at hn
  rw [hn, htoy] at hkind
  exact hkind rfl

/-- A box with a toy and without tools has some tool for a filter, and none when its tools are loaded. -/
theorem quantifier_counts_other_kind : ∃ whole found matching loaded after after',
    Reachable Example.boxSchema Example.packed ∧
      Example.boxFilters.parse "Tool" (.object []) = .ok [] ∧
      Example.boxFilters.parse "Box" (.object [("tools", .object [("some", .object [])])]) = .ok whole ∧
      Example.packed.query "Box" ⟨"n"⟩ (whole.condition ⟨"n"⟩) = .ok (found, after) ∧
      Example.packed.query "Tool" ⟨"n"⟩ (Filter.condition [] ⟨"n"⟩) = .ok (matching, after') ∧
      (Example.packed.load Example.storedBox "tools").2 = .ok loaded ∧
      ¬(some "b" ∈ found.map Node.id ↔
        Quantifier.Ranges .some (fun other => some other ∈ loaded.map Node.id)
          (fun other => some other ∈ matching.map Node.id)) := by
  have hparse : Example.boxFilters.parse "Tool" (.object []) = .ok [] := rfl
  have hwhole := FilterSchema.parse_quantified (Schema.wellFormed_of_build Example.build_boxDecls) Example.build_boxFilters
    Example.boxSchema_box (List.mem_cons_self : Example.tools ∈ Example.boxKind.relationships) .some hparse
  have hquery : (Example.packed.query "Box" ⟨"n"⟩ (Filter.condition [.quantified .some Example.tools []] ⟨"n"⟩)).toOption.map
      (fun result => result.1.map Node.id) = some [some "b"] := by
    rw [Example.packed_eq]
    rfl
  have hinner : (Example.packed.query "Tool" ⟨"n"⟩ (Filter.condition [] ⟨"n"⟩)).toOption.map
      (fun result => result.1.map Node.id) = some [] := by
    rw [Example.packed_eq]
    rfl
  have hload : (Example.packed.load Example.storedBox "tools").2.toOption.map (·.map Node.id) = some [] := by
    rw [Example.packed_eq]
    rfl
  obtain ⟨⟨found, after⟩, hq, hfound⟩ := Option.map_eq_some_iff.mp hquery
  obtain ⟨⟨matching, after'⟩, hm, _⟩ := Option.map_eq_some_iff.mp hinner
  obtain ⟨loaded, hl, hloaded⟩ := Option.map_eq_some_iff.mp hload
  refine ⟨_, found, matching, loaded, after, after', Example.reachable_packed, hparse, hwhole, toOption_eq_some_iff.mp hq,
    toOption_eq_some_iff.mp hm, toOption_eq_some_iff.mp hl, ?_⟩
  rw [hfound, hloaded]
  simp [Quantifier.Ranges]

end Store

end EntityGraph
