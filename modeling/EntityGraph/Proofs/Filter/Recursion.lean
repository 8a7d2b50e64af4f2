import EntityGraph.Proofs.Filter.Definitions

/-!
# Making definitions by recursion

The definition of a kind may also be made by recursion: it is begun, the definitions of the kinds that the kind is related to are
made, and it is finished. A kind whose definition is begun or made already is passed over, so that kinds may be related in cycles;
once finished, a definition is not begun any more. `FilterSchema.Makes` is this recursion. From any standing it comes to an end
(`exists_makes`), and from nothing it ends with what `FilterSchema.build` gives, which visits the kinds in the order in which the
recursion begins them (`Makes.build_eq`).
-/

namespace EntityGraph

namespace FilterSchema

/-! ## The recursion -/

/-- How far the definitions of kinds are: the kinds whose definitions are begun, and the definitions that are made. -/
structure Making where
  begun : Std.ExtTreeSet String
  made : Std.ExtTreeMap String FilterDefinition

namespace Making

/-- Nothing is begun or made. -/
def start : Making := ⟨∅, ∅⟩

/-- The definition of a kind is begun or made. -/
def Covers (m : Making) (name : String) : Prop := name ∈ m.made ∨ name ∈ m.begun

instance (m : Making) (name : String) : Decidable (m.Covers name) := inferInstanceAs (Decidable (_ ∨ _))

def begin (m : Making) (name : String) : Making := { m with begun := m.begun.insert name }

def finish (m : Making) (name : String) (definition : FilterDefinition) : Making :=
  ⟨m.begun.erase name, m.made.insert name definition⟩

/-- The kinds that are not covered. -/
def left (schema : Schema) (m : Making) : List EntityKind := schema.kindList.filter fun kind => ¬ m.Covers kind.name

end Making

/-- Making the definitions of the named kinds, one after the other, ends with a result. No rule makes one for a name that is not a
kind's. -/
inductive Makes (schema : Schema) : Making → List String → Except FilterError Making → Prop
  | done {m : Making} : Makes schema m [] (.ok m)
  | pass {m : Making} {name : String} {names : List String} {result : Except FilterError Making} :
    m.Covers name → Makes schema m names result → Makes schema m (name :: names) result
  /-- A type of an attribute of the kind has no operators. -/
  | refuse {m : Making} {name : String} {names : List String} {kind : EntityKind} {e : FilterError} :
    ¬ m.Covers name → schema.kinds[name]? = some kind → FilterDefinition.ofKind kind = .error e →
      Makes schema m (name :: names) (.error e)
  /-- A definition that the kind's needs cannot be made. -/
  | abandon {m : Making} {name : String} {names : List String} {kind : EntityKind} {definition : FilterDefinition}
    {e : FilterError} :
    ¬ m.Covers name → schema.kinds[name]? = some kind → FilterDefinition.ofKind kind = .ok definition →
      Makes schema (m.begin name) (kind.relationships.map Relationship.relatedKind) (.error e) →
      Makes schema m (name :: names) (.error e)
  | make {m inner : Making} {name : String} {names : List String} {kind : EntityKind} {definition : FilterDefinition}
    {result : Except FilterError Making} :
    ¬ m.Covers name → schema.kinds[name]? = some kind → FilterDefinition.ofKind kind = .ok definition →
      Makes schema (m.begin name) (kind.relationships.map Relationship.relatedKind) (.ok inner) →
      Makes schema (inner.finish name definition) names result → Makes schema m (name :: names) result

namespace Making

variable {schema : Schema} {m : Making} {name other : String} {definition : FilterDefinition}

theorem covers_begin : (m.begin name).Covers other ↔ other = name ∨ m.Covers other := by
  rw [Covers, Covers, begin, mem_insert_iff]
  exact or_left_comm

theorem covers_finish : (m.finish name definition).Covers other ↔ other = name ∨ m.Covers other := by
  rw [Covers, Covers, finish, Std.ExtTreeMap.mem_insert, Std.LawfulEqCmp.compare_eq_iff_eq, mem_erase_iff, eq_comm (a := name)]
  by_cases h : other = name <;> simp [h]

/-- What is covered stays so from the beginning of a definition to its end, if it does in between. -/
theorem Covers.finish {inner : Making} (hkept : ∀ other, (m.begin name).Covers other → inner.Covers other) (h : m.Covers other) :
    (inner.finish name definition).Covers other :=
  covers_finish.mpr (.inr (hkept other (covers_begin.mpr (.inr h))))

/-- At the end of a definition the same ones are begun as before, if they are those that were begun at its beginning. -/
theorem begun_finish {inner : Making} (hbegun : inner.begun = (m.begin name).begun) (hn : ¬ m.Covers name) :
    (inner.finish name definition).begun = m.begun := by
  refine Std.ExtTreeSet.ext_mem fun other => ?_
  rw [finish, hbegun, begin, mem_erase_iff, mem_insert_iff]
  constructor
  · rintro ⟨rfl | ho, hne⟩
    · exact absurd rfl hne
    · exact ho
  · exact fun ho => ⟨.inr ho, fun he => hn (.inr (he ▸ ho))⟩

/-- A definition that is begun may be finished without any other to make. -/
theorem left_finish (h : m.Covers name) : (m.finish name definition).left schema = m.left schema := by
  refine List.filter_congr fun kind _ => ?_
  rw [decide_eq_decide, covers_finish, not_iff_not]
  exact ⟨fun hk => hk.elim (fun hk => hk ▸ h) id, .inr⟩

theorem left_begin : (m.begin name).left schema = (m.left schema).filter fun kind => kind.name != name := by
  rw [left, left, List.filter_filter]
  refine List.filter_congr fun kind _ => ?_
  rw [Bool.eq_iff_iff]
  simp [covers_begin]

theorem mem_left_iff (hs : schema.WellFormed) {kind : EntityKind} :
    kind ∈ m.left schema ↔ schema.kinds[kind.name]? = some kind ∧ ¬ m.Covers kind.name := by
  rw [left, List.mem_filter, mem_kindList_iff hs, decide_eq_true_iff]

/-- A kind that is not covered is the one of its name among those left. -/
theorem find?_left (hs : schema.WellFormed) {kind : EntityKind} (hk : schema.kinds[name]? = some kind) (hn : ¬ m.Covers name) :
    (m.left schema).find? (fun other => other.name == name) = some kind := by
  obtain rfl := hs.name hk
  cases hf : (m.left schema).find? fun other => other.name == kind.name with
  | none => simpa using List.find?_eq_none.mp hf kind ((mem_left_iff hs).mpr ⟨hk, hn⟩)
  | some found =>
    have hname : found.name = kind.name := by simpa using List.find?_some hf
    have hfound := ((mem_left_iff hs).mp (List.mem_of_find?_eq_some hf)).1
    rw [hname] at hfound
    exact hfound.symm.trans hk

/-- A kind whose definition is begun is left no more. -/
theorem length_left_begin_lt (hs : schema.WellFormed) {kind : EntityKind} (hk : schema.kinds[name]? = some kind)
    (hn : ¬ m.Covers name) : ((m.begin name).left schema).length < (m.left schema).length := by
  obtain rfl := hs.name hk
  rw [left_begin]
  exact length_filter_lt ((mem_left_iff hs).mpr ⟨hk, hn⟩)

theorem length_left_le {m' : Making} (h : ∀ name, m.Covers name → m'.Covers name) :
    (m'.left schema).length ≤ (m.left schema).length := by
  refine (List.monotone_filter_right _ fun kind hk => ?_).length_le
  rw [decide_eq_true_iff] at hk ⊢
  exact mt (h kind.name) hk

theorem left_start : start.left schema = schema.kindList := by
  refine List.filter_eq_self.mpr fun kind _ => ?_
  simp [start, Covers]

end Making

/-! ## The order of the visit -/

theorem visit_nil (steps : Nat) (awaited : List String) : visit steps [] awaited = [] :=
  List.eq_nil_iff_forall_not_mem.mpr fun kind hk => nomatch visit_subset kind hk

/-- Steps beyond the number of kinds make no difference. -/
theorem visit_eq {steps more : Nat} {unvisited : List EntityKind} (awaited : List String) (hs : unvisited.length ≤ steps)
    (hm : unvisited.length ≤ more) : visit steps unvisited awaited = visit more unvisited awaited := by
  induction steps generalizing more unvisited awaited with
  | zero =>
    obtain rfl := List.length_eq_zero_iff.mp (Nat.le_zero.mp hs)
    rw [visit_nil, visit_nil]
  | succ steps ih =>
    cases more with
    | zero =>
      obtain rfl := List.length_eq_zero_iff.mp (Nat.le_zero.mp hm)
      rw [visit_nil, visit_nil]
    | succ more =>
      rw [visit, visit]
      cases hn : nextKind? unvisited awaited with
      | none => rfl
      | some next =>
        have hlt := length_filter_lt (nextKind?_eq_some hn).1
        exact congrArg (next.1 :: ·) (ih _ (by omega) (by omega))

/-- The kinds in the order in which they are visited. -/
def order (unvisited : List EntityKind) (awaited : List String) : List EntityKind := visit unvisited.length unvisited awaited

theorem order_eq (unvisited : List EntityKind) (awaited : List String) :
    order unvisited awaited = match nextKind? unvisited awaited with
      | none => []
      | some (kind, rest) =>
        kind :: order (unvisited.filter fun other => other.name != kind.name)
          (kind.relationships.map Relationship.relatedKind ++ rest) := by
  rw [order, visit_eq awaited (Nat.le_refl _) (Nat.le_succ _), visit]
  cases hn : nextKind? unvisited awaited with
  | none => rfl
  | some next =>
    have hlt := length_filter_lt (nextKind?_eq_some hn).1
    exact congrArg (next.1 :: ·) (visit_eq _ (Nat.le_of_lt hlt) (Nat.le_refl _))

namespace Making

variable {schema : Schema} {m : Making} {name : String}

/-- A name that is covered is passed over. -/
theorem order_pass (h : m.Covers name) (rest : List String) :
    order (m.left schema) (name :: rest) = order (m.left schema) rest := by
  have hfind : (m.left schema).find? (fun kind => kind.name == name) = none := by
    refine List.find?_eq_none.mpr fun kind hk hname => ?_
    rw [beq_iff_eq] at hname
    exact absurd (hname ▸ h) (by simpa using (List.mem_filter.mp hk).2)
  rw [order_eq, order_eq, nextKind?, hfind]

/-- A kind that is not covered is visited at once, and then those that it is related to. -/
theorem order_begin (hs : schema.WellFormed) {kind : EntityKind} (hk : schema.kinds[name]? = some kind) (hn : ¬ m.Covers name)
    (rest : List String) :
    order (m.left schema) (name :: rest) =
      kind :: order ((m.begin name).left schema) (kind.relationships.map Relationship.relatedKind ++ rest) := by
  rw [order_eq, nextKind?, find?_left hs hk hn, left_begin, ← hs.name hk]

end Making

/-! ## Runs of the recursion -/

/-- What making the definitions of the named kinds comes to. If it comes through, what was covered and the kinds named are covered
and the same definitions are begun as before; and the visit that goes through the kinds named first fails if what is left of it
then does. If it ends with an error, so does that visit. -/
def Outcome (schema : Schema) (m : Making) (names : List String) : Except FilterError Making → Prop
  | .ok m' =>
    m'.begun = m.begun ∧ (∀ name, m.Covers name → m'.Covers name) ∧ (∀ name ∈ names, m'.Covers name) ∧
      ∀ rest e, (order (m'.left schema) rest).mapM FilterDefinition.ofKind = .error e →
        (order (m.left schema) (names ++ rest)).mapM FilterDefinition.ofKind = .error e
  | .error e => ∀ rest, (order (m.left schema) (names ++ rest)).mapM FilterDefinition.ofKind = .error e

/-- Every definition that is made is that of a kind. -/
def Making.Sound (schema : Schema) (m : Making) : Prop :=
  ∀ (name : String) (definition : FilterDefinition), m.made[name]? = some definition →
    ∃ kind, schema.kinds[name]? = some kind ∧ FilterDefinition.ofKind kind = .ok definition

theorem Making.sound_start {schema : Schema} : start.Sound schema := fun _ _ hd => by simp [start] at hd

namespace Makes

variable {schema : Schema} {m : Making} {names : List String} {result : Except FilterError Making}

theorem mapM_ofKind_cons {kind : EntityKind} {kinds : List EntityKind} {definition : FilterDefinition} {e : FilterError}
    (hd : FilterDefinition.ofKind kind = .ok definition) (h : kinds.mapM FilterDefinition.ofKind = .error e) :
    (kind :: kinds).mapM FilterDefinition.ofKind = .error e := by
  rw [List.mapM_cons, hd, h]
  rfl

theorem outcome (hs : schema.WellFormed) (h : Makes schema m names result) : Outcome schema m names result := by
  induction h with
  | done => exact ⟨rfl, fun _ => id, List.forall_mem_nil _, fun _ _ => id⟩
  | @pass m name names result hc _ ih =>
    cases result with
    | error e =>
      intro rest
      rw [List.cons_append, Making.order_pass hc]
      exact ih rest
    | ok m' =>
      obtain ⟨hbegun, hkept, hcovered, hfails⟩ := ih
      refine ⟨hbegun, hkept, List.forall_mem_cons.mpr ⟨hkept name hc, hcovered⟩, fun rest e he => ?_⟩
      rw [List.cons_append, Making.order_pass hc]
      exact hfails rest e he
  | refuse hn hk he =>
    intro rest
    rw [List.cons_append, Making.order_begin hs hk hn, List.mapM_cons, he]
    rfl
  | @abandon _ _ names _ _ e hn hk hd _ ih =>
    intro rest
    rw [List.cons_append, Making.order_begin hs hk hn]
    exact mapM_ofKind_cons hd (ih _)
  | @make m inner name names kind definition result hn hk hd _ _ hinner hrest =>
    obtain ⟨hbegun, hkept, _, hfails⟩ := hinner
    have hname : inner.Covers name := hkept name (Making.covers_begin.mpr (.inl rfl))
    have hbegin : ∀ rest e, (order ((inner.finish name definition).left schema) rest).mapM FilterDefinition.ofKind = .error e →
        (order (m.left schema) (name :: rest)).mapM FilterDefinition.ofKind = .error e := by
      intro rest e he
      rw [Making.left_finish hname] at he
      rw [Making.order_begin hs hk hn]
      exact mapM_ofKind_cons hd (hfails rest e he)
    cases result with
    | error e => exact fun rest => hbegin _ e (hrest rest)
    | ok m' =>
      obtain ⟨hbegun', hkept', hcovered, hfails'⟩ := hrest
      have hfinished := hkept' name (Making.covers_finish.mpr (.inl rfl))
      refine ⟨hbegun'.trans (Making.begun_finish hbegun hn), fun other ho => hkept' other (ho.finish hkept),
        List.forall_mem_cons.mpr ⟨hfinished, hcovered⟩, fun rest e he => hbegin _ e (hfails' rest e he)⟩

theorem sound (h : Makes schema m names result) (hm : m.Sound schema) : ∀ m', result = .ok m' → m'.Sound schema := by
  induction h with
  | done => exact fun m' he => Except.ok.inj he ▸ hm
  | pass _ _ ih => exact ih hm
  | refuse | abandon => exact nofun
  | make _ hk hd _ _ hinner hrest =>
    refine hrest fun other found ho => ?_
    rw [Making.finish, Std.ExtTreeMap.getElem?_insert] at ho
    split at ho
    · next heq =>
      obtain rfl := Std.LawfulEqCmp.eq_of_compare heq
      exact ⟨_, hk, Option.some.inj ho ▸ hd⟩
    · exact hinner hm _ rfl other found ho

end Makes

/-- The recursion ends: while a definition is begun one kind less is left for those that it needs, and what is covered stays so. -/
theorem exists_makes {schema : Schema} (hs : schema.WellFormed) (m : Making) (names : List String)
    (hn : ∀ name ∈ names, ∃ kind, schema.kinds[name]? = some kind) : ∃ result, Makes schema m names result := by
  match names with
  | [] => exact ⟨_, .done⟩
  | name :: names =>
    obtain ⟨⟨kind, hk⟩, hnames⟩ := List.forall_mem_cons.mp hn
    by_cases hc : m.Covers name
    · obtain ⟨result, h⟩ := exists_makes hs m names hnames
      exact ⟨result, .pass hc h⟩
    · cases hd : FilterDefinition.ofKind kind with
      | error e => exact ⟨_, .refuse hc hk hd⟩
      | ok definition =>
        have hrelated : ∀ other ∈ kind.relationships.map Relationship.relatedKind, ∃ kind, schema.kinds[other]? = some kind :=
          List.forall_mem_map.mpr fun r hr => (hs.related hk r hr).imp fun _ => And.left
        obtain ⟨inner, hinner⟩ := exists_makes hs (m.begin name) _ hrelated
        cases inner with
        | error e => exact ⟨_, .abandon hc hk hd hinner⟩
        | ok inner =>
          obtain ⟨result, h⟩ := exists_makes hs (inner.finish name definition) names hnames
          exact ⟨result, .make hc hk hd hinner h⟩
termination_by ((m.left schema).length, names.length)
decreasing_by
  · exact Prod.Lex.right _ (Nat.lt_succ_self _)
  · exact Prod.Lex.left _ _ (Making.length_left_begin_lt hs hk hc)
  · have hkept := (hinner.outcome hs).2.1
    exact Prod.Lex.right' _ (Making.length_left_le fun other ho => ho.finish hkept) (Nat.lt_succ_self _)

/-! ## What it ends with -/

theorem definition_eq_ok_iff {filters : FilterSchema} {name : String} {definition : FilterDefinition} :
    filters.definition name = .ok definition ↔ filters.definitions[name]? = some definition := by
  rw [FilterSchema.definition]
  cases filters.definitions[name]? <;> simp

/-- A built filter schema has the definitions of the kinds and no others. -/
theorem definitions_eq_some_iff {schema : Schema} (hs : schema.WellFormed) {filters : FilterSchema}
    (hb : FilterSchema.build schema = .ok filters) {name : String} {definition : FilterDefinition} :
    filters.definitions[name]? = some definition ↔
      ∃ kind, schema.kinds[name]? = some kind ∧ FilterDefinition.ofKind kind = .ok definition := by
  rw [← definition_eq_ok_iff]
  have hfound : ∀ {kind}, schema.kinds[name]? = some kind → (filters.definition name = .ok definition ↔
      FilterDefinition.ofKind kind = .ok definition) := by
    intro kind hk
    obtain ⟨found, hd, hof⟩ := definition_eq_ok hs hb hk
    rw [hd, hof]
  constructor
  · intro hd
    obtain ⟨kind, hk⟩ := kind_of_definition hs hb hd
    exact ⟨kind, hk, (hfound hk).mp hd⟩
  · rintro ⟨kind, hk, hof⟩
    exact (hfound hk).mpr hof

/-- A schema whose kinds all have definitions is built. -/
theorem exists_build {schema : Schema} (hs : schema.WellFormed)
    (h : ∀ (name : String) (kind : EntityKind), schema.kinds[name]? = some kind →
      ∃ definition, FilterDefinition.ofKind kind = .ok definition) :
    ∃ filters, FilterSchema.build schema = .ok filters := by
  obtain ⟨definitions, hm⟩ : ∃ definitions, (depthFirst schema).mapM FilterDefinition.ofKind = .ok definitions :=
    exists_mapM fun kind hk => h kind.name kind ((mem_kindList_iff hs).mp (visit_subset kind hk))
  exact ⟨_, bind_eq_ok_iff.mpr ⟨definitions, hm, rfl⟩⟩

/-- After the recursion over all kinds, from nothing, no definition is begun, so that of every kind is made. -/
theorem Makes.exists_made {schema : Schema} (hs : schema.WellFormed) {m : Making}
    (h : Makes schema .start (schema.kindList.map EntityKind.name) (.ok m)) {name : String} {kind : EntityKind}
    (hk : schema.kinds[name]? = some kind) :
    ∃ definition : FilterDefinition, m.made[name]? = some definition ∧ FilterDefinition.ofKind kind = .ok definition := by
  obtain ⟨hbegun, _, hcovered, _⟩ := h.outcome hs
  have hname := List.mem_map_of_mem (f := EntityKind.name) ((mem_kindList_iff hs).mpr (hs.name hk ▸ hk))
  rw [hs.name hk] at hname
  have hmem : name ∈ m.made := (hcovered name hname).resolve_right (by simp [hbegun, Making.start])
  obtain ⟨definition, hd⟩ := Option.isSome_iff_exists.mp (Std.ExtTreeMap.mem_iff_isSome_getElem?.mp hmem)
  obtain ⟨found, hf, hof⟩ := h.sound Making.sound_start m rfl name definition hd
  exact ⟨definition, hd, Option.some.inj (hk.symm.trans hf) ▸ hof⟩

/-- It ends with what `FilterSchema.build` gives. -/
theorem Makes.build_eq {schema : Schema} (hs : schema.WellFormed) {result : Except FilterError Making}
    (h : Makes schema .start (schema.kindList.map EntityKind.name) result) :
    FilterSchema.build schema = result.map fun m => ⟨m.made⟩ := by
  cases result with
  | error e =>
    have hfails := h.outcome hs []
    rw [List.append_nil, Making.left_start] at hfails
    rw [FilterSchema.build, depthFirst, ← order, hfails]
    rfl
  | ok m =>
    obtain ⟨filters, hb⟩ := exists_build hs fun name kind hk => (h.exists_made hs hk).imp fun _ => And.right
    rw [hb]
    refine congrArg Except.ok (congrArg FilterSchema.mk (Std.ExtTreeMap.ext_getElem? fun name => Option.ext fun definition => ?_))
    rw [definitions_eq_some_iff hs hb]
    constructor
    · rintro ⟨kind, hk, hof⟩
      obtain ⟨made, hd, hof'⟩ := h.exists_made hs hk
      rw [hd, Except.ok.inj (hof.symm.trans hof')]
    · exact h.sound Making.sound_start m rfl name definition

end FilterSchema

end EntityGraph
