import EntityGraph.Proofs.Graph.Closed

/-!
# The variables of a compiled filter

Compilation takes the variables of the quantified entries of a filter from one supply, in the order in which it comes to the
entries. So the condition binds just the first variables of the supply, as many as there are quantified entries, each once and in
order (`FilterEntry.bound_compile`), and none of them is bound anew (`Filter.bound_variables_fresh`).
-/

namespace EntityGraph

/-! ## Variables in supply -/

namespace NameSupply

/-- The next variables of a supply, as many as stated. -/
def upcoming (names : NameSupply) (count : Nat) : List Variable := (List.range' names.next count).map (numbered names.root)

/-- The supply without its next variables. -/
def skip (names : NameSupply) (count : Nat) : NameSupply := { names with next := names.next + count }

theorem upcoming_add (names : NameSupply) (m n : Nat) :
    names.upcoming (m + n) = names.upcoming m ++ (names.skip m).upcoming n := by
  rw [upcoming, ← List.range'_append_1, List.map_append]
  rfl

theorem skip_skip (names : NameSupply) (m n : Nat) : (names.skip m).skip n = names.skip (m + n) := by
  rw [skip, skip, skip, Nat.add_assoc]

theorem upcoming_succ (names : NameSupply) (n : Nat) : names.upcoming (n + 1) = names.fresh.1 :: names.fresh.2.upcoming n := by
  rw [upcoming, List.range'_succ, List.map_cons]
  rfl

theorem nodup_upcoming (names : NameSupply) (count : Nat) : (names.upcoming count).Nodup :=
  List.Nodup.map (fun _ _ => numbered_injective) List.nodup_range'

theorem root_not_mem_upcoming (names : NameSupply) (count : Nat) : names.root ∉ names.upcoming count := by
  intro h
  obtain ⟨n, _, hn⟩ := List.mem_map.mp h
  exact numbered_ne_root names.root n hn

end NameSupply

namespace Variable

/-- A name may go on with subsequent characters. -/
theorem isName_append {cs ds : List Char} (h : isName cs = true) (hd : ∀ c ∈ ds, isSubsequent c = true) :
    isName (cs ++ ds) = true := by
  match cs with
  | [] => cases h
  | c :: cs =>
    simp only [isName, List.cons_append, Bool.and_eq_true, List.all_append] at h ⊢
    exact ⟨h.1, h.2, List.all_eq_true.mpr hd⟩

theorem isSubsequent_of_isDigit {c : Char} (h : c.isDigit = true) : isSubsequent c = true := by
  simp [isSubsequent, Char.isAlphanum, h]

/-- The names of variables derived from one with a proper name are proper names. -/
theorem isName_numbered {root : Variable} (h : isName root.name.toList = true) (n : Nat) :
    isName (NameSupply.numbered root n).name.toList = true := by
  rw [NameSupply.numbered, String.toList_append, String.toList_append]
  have hmark : ∀ c ∈ "_r".toList, isSubsequent c = true := List.all_eq_true.mp rfl
  refine isName_append (isName_append h hmark) fun c hc => isSubsequent_of_isDigit ?_
  have hdigits : c ∈ Nat.toDigits 10 n := Nat.toList_repr ▸ hc
  exact Nat.isDigit_of_mem_toDigits (by decide) (by decide) hdigits

theorem parse_eq_ok_iff {v : Variable} : parse v.name = .ok v ↔ isName v.name.toList = true := by
  rw [parse]
  split <;> simp_all

end Variable

/-! ## Variables that are bound -/

namespace Condition

@[simp] theorem bound_allOf (conditions : List Condition) : (allOf conditions).bound = boundIn conditions := by
  match conditions with
  | [] => rfl
  | [c] => simp [allOf, boundIn]
  | _ :: _ :: _ => rfl

@[simp] theorem bound_anyOf (conditions : List Condition) : (anyOf conditions).bound = boundIn conditions := by
  match conditions with
  | [] => rfl
  | [c] => simp [anyOf, boundIn]
  | _ :: _ :: _ => rfl

end Condition

/-- Tests bind no variables. -/
theorem Predicate.boundIn_conditions (subject : Variable) (attr : String) (predicates : List Predicate) :
    Condition.boundIn (predicates.map (Predicate.condition subject attr)) = [] := by
  induction predicates with
  | nil => rfl
  | cons p ps ih =>
    have hfirst : (p.condition subject attr).bound = [] := by
      match p with
      | .compare .. | .isIn .. | .isNull true | .isNull false => rfl
    rw [List.map_cons, Condition.boundIn, hfirst, ih, List.append_nil]

mutual

/-- The number of quantified entries in an entry, at any depth. -/
def FilterEntry.quantifiedCount : FilterEntry → Nat
  | .scalar _ _ => 0
  | .and filters => countInFilters filters
  | .or filters => countInFilters filters
  | .not filter => countInEntries filter
  | .quantified _ _ filter => countInEntries filter + 1

/-- The number of quantified entries in a filter. -/
def FilterEntry.countInEntries : List FilterEntry → Nat
  | [] => 0
  | entry :: entries => entry.quantifiedCount + countInEntries entries

/-- The number of quantified entries in several filters. -/
def FilterEntry.countInFilters : List (List FilterEntry) → Nat
  | [] => 0
  | filter :: filters => countInEntries filter + countInFilters filters

end

namespace FilterEntry

mutual

/-- The condition of an entry binds the next variables of the supply, one for each quantified entry, and leaves the others. -/
theorem bound_compile (subject : Variable) (entry : FilterEntry) (names : NameSupply) :
    (entry.compile subject names).1.bound = names.upcoming entry.quantifiedCount ∧
      (entry.compile subject names).2 = names.skip entry.quantifiedCount := by
  match entry with
  | .scalar attr predicates =>
    rw [compile, Condition.bound_allOf, Predicate.boundIn_conditions]
    exact ⟨rfl, rfl⟩
  | .and filters =>
    rw [compile, Condition.bound_allOf]
    exact bound_compileFilters subject filters names
  | .or filters =>
    rw [compile, Condition.bound_anyOf]
    exact bound_compileFilters subject filters names
  | .not filter =>
    rw [compile, Condition.bound, Condition.bound_allOf]
    exact bound_compileEntries subject filter names
  | .quantified quantifier r filter =>
    obtain ⟨hbound, hleft⟩ := bound_compileEntries names.fresh.1 filter names.fresh.2
    rw [compile, Condition.bound, Condition.bound_allOf, hbound, hleft, quantifiedCount, NameSupply.upcoming_succ]
    refine ⟨rfl, ?_⟩
    rw [Nat.add_comm, ← NameSupply.skip_skip]
    rfl

theorem bound_compileEntries (subject : Variable) (entries : List FilterEntry) (names : NameSupply) :
    Condition.boundIn (compileEntries subject entries names).1 = names.upcoming (countInEntries entries) ∧
      (compileEntries subject entries names).2 = names.skip (countInEntries entries) := by
  match entries with
  | [] => exact ⟨rfl, rfl⟩
  | entry :: entries =>
    obtain ⟨hfirst, hleft⟩ := bound_compile subject entry names
    obtain ⟨hothers, hrest⟩ := bound_compileEntries subject entries (names.skip entry.quantifiedCount)
    rw [compileEntries, Condition.boundIn, countInEntries, NameSupply.upcoming_add, hfirst, hleft, hothers, hrest,
      NameSupply.skip_skip]
    exact ⟨rfl, rfl⟩

theorem bound_compileFilters (subject : Variable) (filters : List (List FilterEntry)) (names : NameSupply) :
    Condition.boundIn (compileFilters subject filters names).1 = names.upcoming (countInFilters filters) ∧
      (compileFilters subject filters names).2 = names.skip (countInFilters filters) := by
  match filters with
  | [] => exact ⟨rfl, rfl⟩
  | filter :: filters =>
    obtain ⟨hfirst, hleft⟩ := bound_compileEntries subject filter names
    obtain ⟨hothers, hrest⟩ := bound_compileFilters subject filters (names.skip (countInEntries filter))
    rw [compileFilters, Condition.boundIn, countInFilters, NameSupply.upcoming_add, Condition.bound_allOf, hfirst, hleft, hothers,
      hrest, NameSupply.skip_skip]
    exact ⟨rfl, rfl⟩

end

end FilterEntry

namespace Filter

/-- The number of quantified entries in a filter, at any depth. -/
def quantifiedCount (filter : Filter) : Nat := FilterEntry.countInEntries filter

/-- The condition of a filter binds the first variables derived from its root. -/
theorem bound_condition (filter : Filter) (root : Variable) :
    (filter.condition root).bound = NameSupply.upcoming ⟨root, 0⟩ filter.quantifiedCount := by
  rw [condition, Condition.bound_allOf]
  exact (FilterEntry.bound_compileEntries root filter ⟨root, 0⟩).1

/-- The condition of a filter binds no variable anew. -/
theorem bindsNew_condition (filter : Filter) (root : Variable) : (filter.condition root).BindsNew [root] := by
  refine Condition.bindsNew_of_nodup _ ?_ fun v hv hroot => ?_
  · rw [bound_condition]
    exact NameSupply.nodup_upcoming ..
  · rw [bound_condition, List.mem_singleton.mp hroot] at hv
    exact NameSupply.root_not_mem_upcoming _ _ hv

/-- The variables that a filter's condition binds, from the outside in and from left to right, are named after the root with the
numbers from zero on, one for each quantified entry. They are different from each other and from the root, none is bound anew
where it is in scope, and their names can be parsed if the root's name can. -/
theorem bound_variables_fresh (filter : Filter) (root : Variable) :
    (filter.condition root).bound.map Variable.name =
        (List.range filter.quantifiedCount).map (fun n => root.name ++ "_r" ++ toString n) ∧
      (filter.condition root).bound.Nodup ∧ root ∉ (filter.condition root).bound ∧ (filter.condition root).BindsNew [root] ∧
      (Variable.parse root.name = .ok root → ∀ v ∈ (filter.condition root).bound, Variable.parse v.name = .ok v) := by
  have hbound := filter.bound_condition root
  refine ⟨?_, ?_, ?_, filter.bindsNew_condition root, fun hroot v hv => ?_⟩
  · rw [hbound, NameSupply.upcoming, List.map_map, List.range_eq_range']
    rfl
  · rw [hbound]
    exact NameSupply.nodup_upcoming ..
  · rw [hbound]
    exact NameSupply.root_not_mem_upcoming ⟨root, 0⟩ _
  · rw [hbound] at hv
    obtain ⟨n, _, rfl⟩ := List.mem_map.mp hv
    exact Variable.parse_eq_ok_iff.mpr (Variable.isName_numbered (Variable.parse_eq_ok_iff.mp hroot) n)

end Filter

end EntityGraph
