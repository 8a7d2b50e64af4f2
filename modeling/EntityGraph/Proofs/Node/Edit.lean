import EntityGraph.Node.Basic
import EntityGraph.Proofs.Collections
import Mathlib.Data.List.Nodup

/-!
# Edits

When a composed edit is not stopped, each of its parts was not, and the state reached comes from theirs. What every part of an
edit keeps is kept also when the edit is stopped. An edit of the fields of a node has its effect on these fields only.
-/

namespace EntityGraph

namespace Edit

variable {σ α : Type}

/-! ## Edits that are not stopped -/

theorem andThen_eq_none_iff {first second : Edit σ} {s s' : σ} :
    first.andThen second s = (s', none) ↔ ∃ t, first s = (t, none) ∧ second t = (s', none) := by
  rw [andThen]
  rcases hf : first s with ⟨t, _ | e⟩
  · simp only [Prod.mk.injEq, and_true, exists_eq_left']
  · simp

theorem inOrder_cons_eq_none_iff {e : Edit σ} {es : List (Edit σ)} {s s' : σ} :
    inOrder (e :: es) s = (s', none) ↔ ∃ t, e s = (t, none) ∧ inOrder es t = (s', none) :=
  andThen_eq_none_iff

theorem onSecond_eq_iff {e : Edit α} {s s' : σ} {a a' : α} {stop : Option SchemaError} :
    onSecond e (s, a) = ((s', a'), stop) ↔ s' = s ∧ e a = (a', stop) := by
  rw [onSecond]
  rcases e a with ⟨b, found⟩
  simp only [Prod.mk.injEq, and_assoc]
  exact and_congr_left fun _ => eq_comm

theorem withValue_eq_none_iff {value : Except SchemaError α} {f : α → Edit σ} {s s' : σ} :
    withValue value f s = (s', none) ↔ ∃ a, value = .ok a ∧ f a s = (s', none) := by
  cases value with
  | ok a => simp [withValue]
  | error e => simp [withValue, fail]

theorem onEach_cons_eq_none_iff {e : Edit (σ × α)} {s s' : σ} {a : α} {as as' : List α} :
    onEach e (s, a :: as) = ((s', as'), none) ↔
      ∃ t b bs, e (s, a) = ((t, b), none) ∧ onEach e (t, as) = ((s', bs), none) ∧ as' = b :: bs := by
  rw [onEach, along]
  rcases he : e (s, a) with ⟨⟨t, b⟩, _ | stop⟩
  · simp only [Prod.mk.injEq, and_true]
    rcases hr : along e as t with ⟨⟨u, bs⟩, stop⟩
    constructor
    · rintro ⟨⟨rfl, rfl⟩, rfl⟩
      exact ⟨t, b, bs, ⟨rfl, rfl⟩, hr, rfl⟩
    · rintro ⟨_, _, bs', ⟨rfl, rfl⟩, h, rfl⟩
      rw [onEach, hr] at h
      simp only [Prod.mk.injEq] at h ⊢
      obtain ⟨⟨rfl, rfl⟩, rfl⟩ := h
      exact ⟨⟨rfl, rfl⟩, rfl⟩
  · simp

theorem onEach_cons_eq_some_iff {e : Edit (σ × α)} {s s' : σ} {a : α} {as as' : List α} {stop : SchemaError} :
    onEach e (s, a :: as) = ((s', as'), some stop) ↔
      (∃ b, e (s, a) = ((s', b), some stop) ∧ as' = b :: as) ∨
      ∃ t b bs, e (s, a) = ((t, b), none) ∧ onEach e (t, as) = ((s', bs), some stop) ∧ as' = b :: bs := by
  rw [onEach, along]
  rcases he : e (s, a) with ⟨⟨t, b⟩, _ | found⟩
  · simp only [Prod.mk.injEq, reduceCtorEq, and_false, false_and, exists_false, false_or, and_true]
    rcases hr : along e as t with ⟨⟨u, bs⟩, found⟩
    constructor
    · rintro ⟨⟨rfl, rfl⟩, rfl⟩
      exact ⟨t, b, bs, ⟨rfl, rfl⟩, hr, rfl⟩
    · rintro ⟨_, _, bs', ⟨rfl, rfl⟩, h, rfl⟩
      rw [onEach, hr] at h
      simp only [Prod.mk.injEq] at h ⊢
      obtain ⟨⟨rfl, rfl⟩, rfl⟩ := h
      exact ⟨⟨rfl, rfl⟩, rfl⟩
  · simp only [Prod.mk.injEq, Option.some.injEq, reduceCtorEq, and_false, false_and, exists_false, or_false]
    constructor
    · rintro ⟨⟨rfl, rfl⟩, rfl⟩
      exact ⟨b, ⟨⟨rfl, rfl⟩, rfl⟩, rfl⟩
    · rintro ⟨_, ⟨⟨rfl, rfl⟩, rfl⟩, rfl⟩
      exact ⟨⟨rfl, rfl⟩, rfl⟩

/-- An edit of the members of a list that ignores the state they share is an edit of each by itself. -/
theorem onEach_onSecond_eq_none_iff {e : Edit α} {s s' : σ} {as as' : List α} :
    onEach (onSecond e) (s, as) = ((s', as'), none) ↔ s' = s ∧ List.Forall₂ (fun a b => e a = (b, none)) as as' := by
  induction as generalizing as' with
  | nil =>
    rw [List.forall₂_nil_left_iff]
    simp only [onEach, along, Prod.mk.injEq, and_true]
    exact and_congr eq_comm eq_comm
  | cons a as ih =>
    rw [onEach_cons_eq_none_iff, List.forall₂_cons_left_iff]
    constructor
    · rintro ⟨t, b, bs, ha, hr, rfl⟩
      obtain ⟨rfl, hfirst⟩ := onSecond_eq_iff.mp ha
      obtain ⟨rfl, hrest⟩ := ih.mp hr
      exact ⟨rfl, b, bs, hfirst, hrest, rfl⟩
    · rintro ⟨rfl, b, bs, ha, hr, rfl⟩
      exact ⟨s', b, bs, onSecond_eq_iff.mpr ⟨rfl, ha⟩, ih.mpr ⟨rfl, hr⟩, rfl⟩

/-- Such an edit is stopped at the first member that it stops at: the members before are edited, those after stay as they are. -/
theorem onEach_onSecond_eq_some_iff {e : Edit α} {s s' : σ} {as as' : List α} {stop : SchemaError} :
    onEach (onSecond e) (s, as) = ((s', as'), some stop) ↔ s' = s ∧ ∃ before a after edited a',
      as = before ++ a :: after ∧ List.Forall₂ (fun a b => e a = (b, none)) before edited ∧ e a = (a', some stop) ∧
        as' = edited ++ a' :: after := by
  induction as generalizing as' with
  | nil => simp [onEach, along]
  | cons a as ih =>
    rw [onEach_cons_eq_some_iff]
    constructor
    · rintro (⟨b, hb, rfl⟩ | ⟨t, b, bs, hb, hrest, rfl⟩)
      · obtain ⟨rfl, hedit⟩ := onSecond_eq_iff.mp hb
        exact ⟨rfl, [], a, as, [], b, rfl, .nil, hedit, rfl⟩
      · obtain ⟨rfl, hedit⟩ := onSecond_eq_iff.mp hb
        obtain ⟨rfl, before, c, after, edited, c', rfl, hbefore, hc, rfl⟩ := ih.mp hrest
        exact ⟨rfl, a :: before, c, after, b :: edited, c', rfl, .cons hedit hbefore, hc, rfl⟩
    · rintro ⟨rfl, before, c, after, edited, c', has, hbefore, hc, rfl⟩
      cases hbefore with
      | nil =>
        obtain ⟨rfl, rfl⟩ := List.cons.inj has
        exact Or.inl ⟨c', onSecond_eq_iff.mpr ⟨rfl, hc⟩, rfl⟩
      | cons hb hbefore =>
        obtain ⟨rfl, rfl⟩ := List.cons.inj has
        exact Or.inr ⟨_, _, _, onSecond_eq_iff.mpr ⟨rfl, hb⟩, ih.mpr ⟨rfl, _, c, after, _, c', rfl, hbefore, hc, rfl⟩, rfl⟩

/-- Edits of all members of a list, one after the other, are a sequence of edits of each member. -/
theorem inOrder_onEach_eq_none {β : Type} {f : β → Edit α} {l : List β} {s s' : σ} {as as' : List α}
    (h : inOrder (l.map fun b => onEach (onSecond (f b))) (s, as) = ((s', as'), none)) :
    s' = s ∧ List.Forall₂ (fun a a' => inOrder (l.map f) a = (a', none)) as as' := by
  induction l generalizing as with
  | nil =>
    simp only [List.map_nil, inOrder, done, Prod.mk.injEq, and_true] at h
    obtain ⟨rfl, rfl⟩ := h
    exact ⟨rfl, List.forall₂_same.mpr fun _ _ => rfl⟩
  | cons b l ih =>
    rw [List.map_cons, inOrder_cons_eq_none_iff] at h
    obtain ⟨⟨t, between⟩, he, hr⟩ := h
    obtain ⟨rfl, hall⟩ := onEach_onSecond_eq_none_iff.mp he
    obtain ⟨rfl, hrest⟩ := ih hr
    refine ⟨rfl, forall₂_trans (fun a c a' hac hca => ?_) hall hrest⟩
    exact inOrder_cons_eq_none_iff.mpr ⟨c, hac, hca⟩

/-! ## What is kept, also when an edit is stopped -/

theorem andThen_keeps {P : σ → Prop} {first second : Edit σ} {s : σ} (hf : P (first s).1)
    (hs : ∀ t, P t → P (second t).1) : P (first.andThen second s).1 := by
  rw [andThen]
  rcases he : first s with ⟨t, _ | stop⟩ <;> rw [he] at hf
  · exact hs t hf
  · exact hf

theorem inOrder_keeps {P : σ → Prop} {es : List (Edit σ)} (he : ∀ e ∈ es, ∀ s, P s → P (e s).1) {s : σ} (h : P s) :
    P (inOrder es s).1 := by
  induction es generalizing s with
  | nil => exact h
  | cons e es ih =>
    exact andThen_keeps (he e List.mem_cons_self s h) (fun s hs => ih (fun e hm => he e (List.mem_cons_of_mem _ hm)) hs)

theorem onSecond_fst (e : Edit α) (p : σ × α) : (onSecond e p).1.1 = p.1 := rfl

/-- What the edit of every member of a list keeps of the state they share. -/
theorem onEach_keeps {P : σ → Prop} {e : Edit (σ × α)} {as : List α} (he : ∀ a ∈ as, ∀ s, P s → P (e (s, a)).1.1) {s : σ}
    (h : P s) : P (onEach e (s, as)).1.1 := by
  induction as generalizing s with
  | nil => exact h
  | cons a as ih =>
    have hfirst := he a List.mem_cons_self s h
    rw [onEach, along]
    rcases hs : e (s, a) with ⟨⟨t, b⟩, _ | stop⟩ <;> rw [hs] at hfirst
    · exact ih (fun a hm => he a (List.mem_cons_of_mem _ hm)) hfirst
    · exact hfirst

/-! ## Edits that run through -/

/-- From every state of which something holds, the edit is not stopped, and it holds of the state reached. -/
def RunsOn (P : σ → Prop) (e : Edit σ) : Prop := ∀ s, P s → ∃ t, e s = (t, none) ∧ P t

variable {P : σ → Prop}

theorem runsOn_done : RunsOn P done := fun s h => ⟨s, rfl, h⟩

theorem RunsOn.andThen {first second : Edit σ} (hf : RunsOn P first) (hs : RunsOn P second) :
    RunsOn P (first.andThen second) := by
  intro s h
  obtain ⟨t, ht, hPt⟩ := hf s h
  obtain ⟨u, hu, hPu⟩ := hs t hPt
  exact ⟨u, andThen_eq_none_iff.mpr ⟨t, ht, hu⟩, hPu⟩

theorem RunsOn.inOrder {es : List (Edit σ)} (h : ∀ e ∈ es, RunsOn P e) : RunsOn P (inOrder es) := by
  induction es with
  | nil => exact runsOn_done
  | cons e es ih => exact (h e List.mem_cons_self).andThen (ih fun e he => h e (List.mem_cons_of_mem _ he))

theorem RunsOn.onSecond (P : σ → Prop) {Q : α → Prop} {e : Edit α} (h : RunsOn Q e) :
    RunsOn (fun p : σ × α => P p.1 ∧ Q p.2) (onSecond e) := by
  rintro ⟨s, a⟩ ⟨hP, hQ⟩
  obtain ⟨b, hb, hQb⟩ := h a hQ
  exact ⟨(s, b), onSecond_eq_iff.mpr ⟨rfl, hb⟩, hP, hQb⟩

/-- An edit that runs through on each member of a list, whatever the state they share, runs through on the list. -/
theorem RunsOn.onEach (P : σ → Prop) {Q : α → Prop} {e : Edit (σ × α)} (h : RunsOn (fun p => P p.1 ∧ Q p.2) e) :
    RunsOn (fun p => P p.1 ∧ ∀ a ∈ p.2, Q a) (onEach e) := by
  rintro ⟨s, as⟩ ⟨hP, hQ⟩
  induction as generalizing s with
  | nil => exact ⟨(s, []), rfl, hP, hQ⟩
  | cons a as ih =>
    obtain ⟨⟨t, b⟩, hfirst, hPt, hQb⟩ := h (s, a) ⟨hP, hQ a List.mem_cons_self⟩
    obtain ⟨⟨u, bs⟩, hrest, hPu, hQbs⟩ := ih t hPt fun a ha => hQ a (List.mem_cons_of_mem _ ha)
    exact ⟨(u, b :: bs), onEach_cons_eq_none_iff.mpr ⟨t, b, bs, hfirst, hrest, rfl⟩, hPu, List.forall_mem_cons.mpr ⟨hQb, hQbs⟩⟩

end Edit

/-! ## Fields of a node -/

namespace Node

theorem edit_eq_none_iff {field : String} {f : RelatedSet → RelatedSet} {node node' : Node} :
    edit field f node = (node', none) ↔
      ∃ s, node.related[field]? = some s ∧ node' = { node with related := node.related.insert field (f s) } := by
  rw [edit, relatedSet]
  cases hs : node.related[field]? with
  | none => simp
  | some s =>
    simp only [Prod.mk.injEq, and_true, Option.some.injEq, exists_eq_left']
    exact eq_comm

/-- An edit of a field that a node does not have leaves the node as it is. -/
theorem edit_eq_some_iff {field : String} {f : RelatedSet → RelatedSet} {node node' : Node} {stop : SchemaError} :
    edit field f node = (node', some stop) ↔
      node.related[field]? = none ∧ node' = node ∧ stop = .unknownRelationship node.kind field := by
  rw [edit, relatedSet]
  cases hs : node.related[field]? with
  | none =>
    simp only [Prod.mk.injEq, Option.some.injEq, true_and]
    exact and_congr eq_comm eq_comm
  | some s => simp

/-- An edit of the fields of different relationships changes just these fields. -/
theorem inOrder_edit_eq_none {f : RelatedSet → RelatedSet} {rs : List Relationship} {node node' : Node}
    (hn : (rs.map Relationship.field).Nodup)
    (h : Edit.inOrder (rs.map fun r => edit r.field f) node = (node', none)) :
    ∃ related, node' = { node with related := related } ∧ ∀ field : String, related[field]? =
      if field ∈ rs.map Relationship.field then node.related[field]?.map f else node.related[field]? := by
  induction rs generalizing node with
  | nil =>
    simp only [List.map_nil, Edit.inOrder, Edit.done, Prod.mk.injEq, and_true] at h
    exact ⟨node.related, by rw [← h], by simp⟩
  | cons r rs ih =>
    rw [List.map_cons, List.nodup_cons] at hn
    obtain ⟨t, ht, hr⟩ := Edit.inOrder_cons_eq_none_iff.mp h
    obtain ⟨s, hs, rfl⟩ := edit_eq_none_iff.mp ht
    obtain ⟨related, rfl, hget⟩ := ih hn.2 hr
    refine ⟨related, rfl, fun field => ?_⟩
    rw [hget, Std.ExtTreeMap.getElem?_insert, List.map_cons]
    by_cases hf : r.field = field
    · subst hf
      simp [hn.1, hs]
    · simp [hf, Ne.symm hf]

/-- The node is changed in the fields of a kind, in each by a function, and in nothing else. -/
def EditedBy (kind : EntityKind) (f : Relationship → RelatedSet → RelatedSet) (node node' : Node) : Prop :=
  ∃ related, node' = { node with related := related } ∧
    (∀ r ∈ kind.relationships, related[r.field]? = node.related[r.field]?.map (f r)) ∧
    ∀ field : String, field ∉ kind.relationships.map Relationship.field → related[field]? = node.related[field]?

theorem EditedBy.refl (kind : EntityKind) (node : Node) : EditedBy kind (fun _ s => s) node node :=
  ⟨node.related, rfl, fun _ _ => by simp, fun _ _ => rfl⟩

theorem EditedBy.trans {kind : EntityKind} {f g : Relationship → RelatedSet → RelatedSet} {a b c : Node}
    (hab : EditedBy kind f a b) (hbc : EditedBy kind g b c) : EditedBy kind (fun r s => g r (f r s)) a c := by
  obtain ⟨first, rfl, hf, hfo⟩ := hab
  obtain ⟨second, rfl, hg, hgo⟩ := hbc
  refine ⟨second, rfl, fun r hr => ?_, fun field hn => ?_⟩
  · rw [hg r hr, hf r hr, Option.map_map]
    rfl
  · rw [hgo field hn, hfo field hn]

/-- An edit that leaves every field as it is leaves the node as it is. -/
theorem EditedBy.eq_self {kind : EntityKind} {f : Relationship → RelatedSet → RelatedSet} {node node' : Node}
    (h : EditedBy kind f node node')
    (hf : ∀ r ∈ kind.relationships, ∀ s, node.related[r.field]? = some s → f r s = s) : node' = node := by
  obtain ⟨related, rfl, hfield, hother⟩ := h
  have hsame : related = node.related := by
    refine Std.ExtTreeMap.ext_getElem? fun field => ?_
    by_cases hin : field ∈ kind.relationships.map Relationship.field
    · obtain ⟨r, hr, rfl⟩ := List.mem_map.mp hin
      rw [hfield r hr]
      cases hset : node.related[r.field]? with
      | none => rfl
      | some s => rw [Option.map_some, hf r hr s hset]
    · exact hother field hin
  rw [hsame]

/-- An edit of those fields of a kind that are chosen changes just these. -/
theorem editedBy_of_filter {kind : EntityKind} (hn : (kind.relationships.map Relationship.field).Nodup)
    {p : Relationship → Bool} {f : RelatedSet → RelatedSet} {node node' : Node}
    (h : Edit.inOrder ((kind.relationships.filter p).map fun r => edit r.field f) node = (node', none)) :
    EditedBy kind (fun r s => if p r = true then f s else s) node node' := by
  have hsub : ((kind.relationships.filter p).map Relationship.field).Sublist (kind.relationships.map Relationship.field) :=
    List.filter_sublist.map _
  obtain ⟨related, rfl, hget⟩ := inOrder_edit_eq_none (hn.sublist hsub) h
  refine ⟨related, rfl, fun r hr => ?_, fun field hnot => ?_⟩
  · -- A field is that of one relationship, which decides whether the field is chosen.
    have hchosen : r.field ∈ (kind.relationships.filter p).map Relationship.field ↔ p r = true := by
      constructor
      · intro hmem
        obtain ⟨r', hr', hfield⟩ := List.mem_map.mp hmem
        obtain ⟨hr', hp⟩ := List.mem_filter.mp hr'
        rw [List.inj_on_of_nodup_map hn hr hr' hfield.symm]
        exact hp
      · exact fun hp => List.mem_map_of_mem (List.mem_filter.mpr ⟨hr, hp⟩)
    rw [hget]
    by_cases hp : p r = true
    · simp [hchosen.mpr hp, hp]
    · rw [if_neg fun hmem => hp (hchosen.mp hmem)]
      simp [hp]
  · rw [hget, if_neg fun hmem => hnot (hsub.subset hmem)]

theorem editedBy_commit {kind : EntityKind} (hn : (kind.relationships.map Relationship.field).Nodup) {node node' : Node}
    (h : commit kind node = (node', none)) : EditedBy kind (fun _ s => s.commit) node node' := by
  have hall : kind.relationships.filter (fun _ => true) = kind.relationships := by simp
  rw [commit, ← hall] at h
  simpa using editedBy_of_filter hn h

/-- A node has no changes when none of its fields has. -/
theorem hasChanges_eq_false_iff {node : Node} :
    node.hasChanges = false ↔ ∀ (field : String) (s : RelatedSet), node.related[field]? = some s → s.hasChanges = false := by
  simp only [hasChanges, List.any_eq_false, Bool.not_eq_true, Prod.forall, Std.ExtTreeMap.mem_toList_iff_getElem?_eq_some]

/-- The node has the fields of a kind. -/
def HasFields (kind : EntityKind) (node : Node) : Prop := ∀ r ∈ kind.relationships, ∃ s, node.related[r.field]? = some s

theorem HasFields.insert {kind : EntityKind} {node : Node} (h : node.HasFields kind) (field : String) (s : RelatedSet) :
    HasFields kind { node with related := node.related.insert field s } := by
  intro r hr
  rw [Std.ExtTreeMap.getElem?_insert]
  split
  · exact ⟨s, rfl⟩
  · exact h r hr

/-- A node with the fields of its kind can be edited in each of them. -/
theorem runsOn_edit {kind : EntityKind} {r : Relationship} (hr : r ∈ kind.relationships) (f : RelatedSet → RelatedSet)
    (name : String) : Edit.RunsOn (fun node => node.kind = name ∧ node.HasFields kind) (edit r.field f) := by
  rintro node ⟨hname, hfields⟩
  obtain ⟨s, hs⟩ := hfields r hr
  exact ⟨_, edit_eq_none_iff.mpr ⟨s, hs, rfl⟩, hname, hfields.insert r.field (f s)⟩

theorem runsOn_commit (kind : EntityKind) (name : String) :
    Edit.RunsOn (fun node => node.kind = name ∧ node.HasFields kind) (commit kind) := by
  refine .inOrder fun e he => ?_
  obtain ⟨r, hr, rfl⟩ := List.mem_map.mp he
  exact runsOn_edit hr _ name

end Node

/-- Noting the result of a query is an edit of the field that was queried and one of the mirror field of each related node. -/
theorem Relationship.register_eq_none_iff {r : Relationship} {node node' : Node} {related related' : List Node} :
    r.register (node, related) = ((node', related'), none) ↔
      Node.edit r.field (·.load (.ofList (related.map Node.key) compare)) node = (node', none) ∧
        match r.mirror with
        | none => related' = related
        | some field => List.Forall₂ (fun a b => Node.edit field (·.loadOne node.key) a = (b, none)) related related' := by
  rw [register]
  rcases he : Node.edit r.field (·.load (.ofList (related.map Node.key) compare)) node with ⟨t, _ | stop⟩
  · have hkey : t.key = node.key := by
      obtain ⟨s, _, rfl⟩ := Node.edit_eq_none_iff.mp he
      rfl
    simp only [Prod.mk.injEq, and_true]
    cases r.mirror with
    | none => simp only [Prod.mk.injEq, and_true, eq_comm]
    | some field => rw [Edit.onEach_onSecond_eq_none_iff, hkey, eq_comm]
  · simp

/-- Another node was noted by its key in a field of a node, if a field is given; nothing else of the node was changed. -/
def Node.Notes (field? : Option String) (key : NodeKey) (a b : Node) : Prop :=
  ∃ sets, b = { a with related := sets } ∧ ∀ field : String,
    sets[field]? = if field? = some field then a.related[field]?.map (·.loadOne key) else a.related[field]?

/-- Noting the result of a query changes nothing of the related nodes but that the node is noted in their mirror field. -/
theorem Relationship.register_related {r : Relationship} {node node' : Node} {related related' : List Node}
    (h : r.register (node, related) = ((node', related'), none)) :
    List.Forall₂ (Node.Notes r.mirror node.key) related related' := by
  obtain ⟨_, hrelated⟩ := register_eq_none_iff.mp h
  split at hrelated
  · next hm =>
    rw [hrelated, hm]
    exact List.forall₂_same.mpr fun a _ => ⟨a.related, rfl, fun _ => by simp⟩
  · next mirror hm =>
    rw [hm]
    refine hrelated.imp fun a b hedit => ?_
    obtain ⟨s, hs, rfl⟩ := Node.edit_eq_none_iff.mp hedit
    refine ⟨a.related.insert mirror (s.loadOne node.key), rfl, fun field => ?_⟩
    rw [Std.ExtTreeMap.getElem?_insert]
    by_cases hf : mirror = field
    · subst hf
      simp [hs]
    · simp [hf]

end EntityGraph
