import EntityGraph.Filter.Basic
import EntityGraph.Graph.Evaluation
import Std.Data.ExtTreeMap.Lemmas
import Std.Data.String.ToNat

/-!
# What filters mean

`FilterEntry.holds` says directly, without variables, whether a filter holds at a node of a graph. The condition that a filter is
compiled to holds of a variable exactly when the filter holds at the node that the variable stands for (`satisfies_condition`).
Compilation takes the variables of quantified entries from one supply and evaluation works on one set of bindings; what connects
the two is that the variables still in the supply are unbound (`NameSupply.Unused`).
-/

namespace EntityGraph

/-! ## Meaning without variables -/

/-- The value of an attribute of a node; null if there is none. -/
def Graph.valueAt (g : Graph) (id name : String) : Value :=
  ((g.nodes[id]?).bind fun stored => stored.attributes[name]?).getD .null

/-- Whether a test holds of the value of an attribute. Null compares with nothing and is in no list. -/
def Predicate.holds (actual : Value) : Predicate → Bool
  | .compare op value => !actual.isNull && op.holds actual value
  | .isIn values => !actual.isNull && values.any actual.looseEq
  | .isNull expected => actual.isNull == expected

mutual

/-- Whether an entry of a filter holds at a node. A quantified entry looks at every neighbour through its relationship. -/
def FilterEntry.holds (g : Graph) (id : String) : FilterEntry → Bool
  | .scalar attr predicates => predicates.all (·.holds (g.valueAt id attr))
  | .and filters => FilterEntry.allHold g id filters
  | .or filters => FilterEntry.someHold g id filters
  | .not filter => !FilterEntry.entriesHold g id filter
  | .quantified .all r filter =>
    (g.neighbors id r.label r.direction).all fun other => FilterEntry.entriesHold g other filter
  | .quantified .some r filter =>
    (g.neighbors id r.label r.direction).any fun other => FilterEntry.entriesHold g other filter
  | .quantified .none r filter =>
    !(g.neighbors id r.label r.direction).any fun other => FilterEntry.entriesHold g other filter

/-- Whether all entries of a filter hold. -/
def FilterEntry.entriesHold (g : Graph) (id : String) : List FilterEntry → Bool
  | [] => true
  | entry :: entries => entry.holds g id && FilterEntry.entriesHold g id entries

/-- Whether all filters hold. -/
def FilterEntry.allHold (g : Graph) (id : String) : List (List FilterEntry) → Bool
  | [] => true
  | filter :: filters => FilterEntry.entriesHold g id filter && FilterEntry.allHold g id filters

/-- Whether some filter holds. -/
def FilterEntry.someHold (g : Graph) (id : String) : List (List FilterEntry) → Bool
  | [] => false
  | filter :: filters => FilterEntry.entriesHold g id filter || FilterEntry.someHold g id filters

end

/-- Whether a filter holds at a node: all its entries do. -/
def Filter.holds (filter : Filter) (g : Graph) (id : String) : Bool := FilterEntry.entriesHold g id filter

/-! ## The supply of variables -/

namespace NameSupply

/-- A variable of the supply is not the root, whose name is shorter. -/
theorem numbered_ne_root (root : Variable) (n : Nat) : numbered root n ≠ root := by
  intro h
  have hl := congrArg (fun v : Variable => v.name.length) h
  simp only [numbered, String.length_append] at hl
  have : "_r".length = 2 := rfl
  omega

/-- Different numbers give different variables. -/
theorem numbered_injective {root : Variable} {m n : Nat} (h : numbered root m = numbered root n) : m = n := by
  simp only [numbered, Variable.mk.injEq] at h
  exact Nat.repr_injective ((String.append_right_inj _).mp h)

/-- No variable that is still in the supply is bound. -/
def Unused (names : NameSupply) (bindings : Bindings) : Prop :=
  ∀ n, names.next ≤ n → bindings[numbered names.root n]? = none

/-- A supply that is further on than another one, from the same root. -/
def Follows (later names : NameSupply) : Prop := later.root = names.root ∧ names.next ≤ later.next

theorem Follows.refl (names : NameSupply) : names.Follows names := ⟨rfl, Nat.le_refl _⟩

theorem Follows.trans {a b c : NameSupply} (h : a.Follows b) (h' : b.Follows c) : a.Follows c :=
  ⟨h.1.trans h'.1, Nat.le_trans h'.2 h.2⟩

theorem Unused.mono {names later : NameSupply} {bindings : Bindings} (h : names.Unused bindings) (hl : later.Follows names) :
    later.Unused bindings := by
  intro n hn
  rw [hl.1]
  exact h n (Nat.le_trans hl.2 hn)

/-- The variable handed out is unbound, and the ones after it are unused also once it is bound. -/
theorem Unused.fresh {names : NameSupply} {bindings : Bindings} (h : names.Unused bindings) :
    bindings[names.fresh.1]? = none ∧ ∀ id, names.fresh.2.Unused (bindings.insert names.fresh.1 id) := by
  refine ⟨h names.next (Nat.le_refl _), fun id n hn => ?_⟩
  have hne : numbered names.root names.next ≠ numbered names.root n := by
    intro he
    have := numbered_injective he
    simp only [NameSupply.fresh] at hn
    omega
  simp only [NameSupply.fresh] at hn ⊢
  rw [Std.ExtTreeMap.getElem?_insert, if_neg (by simpa using hne)]
  exact h n (by omega)

/-- At the start only the root is bound. -/
theorem unused_root (root : Variable) (id : String) : Unused ⟨root, 0⟩ (Std.ExtTreeMap.empty.insert root id) := by
  intro n _
  have hne : root ≠ numbered root n := fun h => numbered_ne_root root n h.symm
  rw [Std.ExtTreeMap.getElem?_insert, if_neg (by simpa using hne)]
  exact Std.ExtTreeMap.getElem?_empty

end NameSupply

namespace FilterEntry

mutual

/-- Compiling an entry takes variables from the supply and puts none back. -/
theorem compile_follows (subject : Variable) (entry : FilterEntry) (names : NameSupply) :
    (entry.compile subject names).2.Follows names := by
  match entry with
  | .scalar _ _ => exact NameSupply.Follows.refl names
  | .and filters => exact compileFilters_follows subject filters names
  | .or filters => exact compileFilters_follows subject filters names
  | .not filter => exact compileEntries_follows subject filter names
  | .quantified _ _ filter =>
    have hfresh : names.fresh.2.Follows names := ⟨rfl, Nat.le_succ _⟩
    exact (compileEntries_follows names.fresh.1 filter names.fresh.2).trans hfresh

theorem compileEntries_follows (subject : Variable) (entries : List FilterEntry) (names : NameSupply) :
    (compileEntries subject entries names).2.Follows names := by
  match entries with
  | [] => exact NameSupply.Follows.refl names
  | entry :: entries =>
    exact (compileEntries_follows subject entries _).trans (compile_follows subject entry names)

theorem compileFilters_follows (subject : Variable) (filters : List (List FilterEntry)) (names : NameSupply) :
    (compileFilters subject filters names).2.Follows names := by
  match filters with
  | [] => exact NameSupply.Follows.refl names
  | filter :: filters =>
    exact (compileFilters_follows subject filters _).trans (compileEntries_follows subject filter names)

end

end FilterEntry

/-! ## Bindings -/

namespace Bindings

theorem insert_insert (bindings : Bindings) (v : Variable) (a b : String) :
    (bindings.insert v a).insert v b = bindings.insert v b := by
  refine Std.ExtTreeMap.ext_getElem? fun k => ?_
  simp only [Std.ExtTreeMap.getElem?_insert]
  split <;> rfl

theorem erase_insert {bindings : Bindings} {v : Variable} (h : bindings[v]? = none) (a : String) :
    (bindings.insert v a).erase v = bindings := by
  refine Std.ExtTreeMap.ext_getElem? fun k => ?_
  rw [Std.ExtTreeMap.getElem?_erase, Std.ExtTreeMap.getElem?_insert]
  by_cases hk : compare v k = .eq
  · rw [if_pos hk, ← Std.LawfulEqOrd.eq_of_compare hk, h]
  · rw [if_neg hk, if_neg hk]

theorem erase_self {bindings : Bindings} {v : Variable} (h : bindings[v]? = none) : bindings.erase v = bindings := by
  refine Std.ExtTreeMap.ext_getElem? fun k => ?_
  rw [Std.ExtTreeMap.getElem?_erase]
  by_cases hk : compare v k = .eq
  · rw [if_pos hk, ← Std.LawfulEqOrd.eq_of_compare hk, h]
  · rw [if_neg hk]

end Bindings

/-! ## Evaluating compiled conditions -/

namespace Graph

variable {g : Graph} {bindings : Bindings}

theorem evaluate_allOf (g : Graph) (conditions : List Condition) (bindings : Bindings) :
    g.evaluate (.allOf conditions) bindings = evaluateAnd g conditions bindings := by
  match conditions with
  | [] => simp [Condition.allOf, evaluate, evaluateAnd]
  | [c] =>
    simp only [Condition.allOf, evaluateAnd]
    rcases g.evaluate c bindings with ⟨_ | _, after⟩ <;> rfl
  | c :: d :: cs => simp [Condition.allOf, evaluate]

theorem evaluate_anyOf (g : Graph) (conditions : List Condition) (bindings : Bindings) :
    g.evaluate (.anyOf conditions) bindings = evaluateOr g conditions bindings := by
  match conditions with
  | [] => simp [Condition.anyOf, evaluate, evaluateOr]
  | [c] =>
    simp only [Condition.anyOf, evaluateOr]
    rcases g.evaluate c bindings with ⟨_ | _, after⟩ <;> rfl
  | c :: d :: cs => simp [Condition.anyOf, evaluate]

theorem attributeOf_eq {subject : Variable} {id : String} (h : bindings[subject]? = some id) (name : String) :
    g.attributeOf bindings subject name = g.valueAt id name := by
  simp only [attributeOf, valueAt, h]
  rfl

/-- The condition of a test says what the test says of the attribute. -/
theorem evaluate_predicate {subject : Variable} {id : String} (h : bindings[subject]? = some id) (attr : String)
    (p : Predicate) : g.evaluate (p.condition subject attr) bindings = (p.holds (g.valueAt id attr), bindings) := by
  match p with
  | .compare op value =>
    simp only [Predicate.condition, evaluate, attributeOf_eq h, Predicate.holds]
    cases hn : (g.valueAt id attr).isNull <;> simp [Comparison.holds, hn]
  | .isIn values =>
    simp only [Predicate.condition, evaluate, attributeOf_eq h, Predicate.holds]
    cases hv : g.valueAt id attr with
    | null =>
      have hnone : ∀ v ∈ values, Value.looseEq .null v = false := by
        intro v _
        cases v <;> rfl
      simp only [Value.isNull, Bool.not_true, Bool.false_and, Prod.mk.injEq, and_true, List.any_eq_false]
      exact fun v hm => by simp [hnone v hm]
    | bool b => rfl
    | int n => rfl
    | float x => rfl
    | string s => rfl
  | .isNull true =>
    simp [Predicate.condition, evaluate, attributeOf_eq h, Predicate.holds]
  | .isNull false =>
    simp [Predicate.condition, evaluate, attributeOf_eq h, Predicate.holds]

/-- The conditions of an entry's tests say what the tests say. -/
theorem evaluateAnd_predicates {subject : Variable} {id : String} (h : bindings[subject]? = some id) (attr : String)
    (predicates : List Predicate) : evaluateAnd g (predicates.map (Predicate.condition subject attr)) bindings =
      (predicates.all (·.holds (g.valueAt id attr)), bindings) := by
  induction predicates with
  | nil => rfl
  | cons p ps ih =>
    rw [List.map_cons, evaluateAnd, evaluate_predicate h, List.all_cons]
    cases p.holds (g.valueAt id attr) with
    | true => simpa using ih
    | false => rfl

/-- What the evaluation of a quantified condition comes to when the predicate keeps the bindings: one truth value for each
neighbour, and at the end nothing is bound that was not bound before. -/
theorem evaluate_quantified {quantifier : Quantifier} {pattern : EdgePattern} {predicate : Condition} {id : String}
    {holds : String → Bool} (hroot : bindings[pattern.root]? = some id) (hrelated : bindings[pattern.related]? = none)
    (hpred : ∀ other, g.evaluate predicate (bindings.insert pattern.related other) =
      (holds other, bindings.insert pattern.related other)) :
    g.evaluate (.quantified quantifier pattern predicate) bindings =
      (quantifier.holds ((g.neighbors id pattern.label pattern.direction).map holds), bindings) := by
  -- After any number of neighbours, the bindings differ from those before at the related variable only.
  have hfold : ∀ (others : List String) (seen : List Bool) (now : Bindings),
      (∀ other, now.insert pattern.related other = bindings.insert pattern.related other) →
      now.erase pattern.related = bindings →
      ∃ after, after.erase pattern.related = bindings ∧
        others.foldl (fun (seen : List Bool × Bindings) related =>
          ((seen.1 ++ [(g.evaluate predicate (seen.2.insert pattern.related related)).1]),
            (g.evaluate predicate (seen.2.insert pattern.related related)).2)) (seen, now) =
          (seen ++ others.map holds, after) := by
    intro others
    induction others with
    | nil => exact fun seen now _ he => ⟨now, he, by simp⟩
    | cons other others ih =>
      intro seen now hi _
      rw [List.foldl_cons, hi, hpred]
      obtain ⟨after, ha, hf⟩ := ih (seen ++ [holds other]) (bindings.insert pattern.related other)
        (fun _ => Bindings.insert_insert ..) (Bindings.erase_insert hrelated other)
      exact ⟨after, ha, by rw [hf]; simp⟩
  obtain ⟨after, ha, hf⟩ := hfold (g.neighbors id pattern.label pattern.direction) [] bindings (fun _ => rfl)
    (Bindings.erase_self hrelated)
  rw [evaluate, hroot]
  simp only [hf, ha, List.nil_append]

end Graph

namespace FilterEntry

open EntityGraph.Graph

/-- The truth values at the neighbours, put together by a quantifier, are the meaning of a quantified entry. -/
theorem holds_quantified (g : Graph) (id : String) (quantifier : Quantifier) (r : Relationship) (filter : List FilterEntry) :
    (FilterEntry.quantified quantifier r filter).holds g id =
      quantifier.holds ((g.neighbors id r.label r.direction).map fun other => entriesHold g other filter) := by
  cases quantifier <;> simp [holds, Quantifier.holds, List.all_map, List.any_map]

mutual

/-- The condition of an entry holds exactly when the entry does, and evaluating it leaves the bindings as they were. -/
theorem evaluate_compile (g : Graph) {subject : Variable} {id : String} {names : NameSupply} {bindings : Bindings}
    (hs : bindings[subject]? = some id) (hu : names.Unused bindings) (entry : FilterEntry) :
    g.evaluate (entry.compile subject names).1 bindings = (entry.holds g id, bindings) := by
  match entry with
  | .scalar attr predicates =>
    rw [compile, evaluate_allOf, holds]
    exact evaluateAnd_predicates hs attr predicates
  | .and filters =>
    rw [compile, holds]
    simp only [evaluate_allOf]
    exact (evaluate_compileFilters g hs hu filters).1
  | .or filters =>
    rw [compile, holds]
    simp only [evaluate_anyOf]
    exact (evaluate_compileFilters g hs hu filters).2
  | .not filter =>
    rw [compile, holds]
    simp only [evaluate, evaluate_allOf, evaluate_compileEntries g hs hu filter]
  | .quantified quantifier r filter =>
    obtain ⟨hrelated, hunused⟩ := hu.fresh
    rw [compile, holds_quantified]
    refine evaluate_quantified hs hrelated fun other => ?_
    rw [evaluate_allOf]
    exact evaluate_compileEntries g Std.ExtTreeMap.getElem?_insert_self (hunused other) filter

theorem evaluate_compileEntries (g : Graph) {subject : Variable} {id : String} {names : NameSupply} {bindings : Bindings}
    (hs : bindings[subject]? = some id) (hu : names.Unused bindings) (entries : List FilterEntry) :
    evaluateAnd g (compileEntries subject entries names).1 bindings = (entriesHold g id entries, bindings) := by
  match entries with
  | [] => rfl
  | entry :: entries =>
    rw [compileEntries, evaluateAnd, evaluate_compile g hs hu entry, entriesHold]
    cases entry.holds g id with
    | true => exact evaluate_compileEntries g hs (hu.mono (compile_follows subject entry names)) entries
    | false => rfl

theorem evaluate_compileFilters (g : Graph) {subject : Variable} {id : String} {names : NameSupply} {bindings : Bindings}
    (hs : bindings[subject]? = some id) (hu : names.Unused bindings) (filters : List (List FilterEntry)) :
    evaluateAnd g (compileFilters subject filters names).1 bindings = (allHold g id filters, bindings) ∧
      evaluateOr g (compileFilters subject filters names).1 bindings = (someHold g id filters, bindings) := by
  match filters with
  | [] => exact ⟨rfl, rfl⟩
  | filter :: filters =>
    have hfirst := evaluate_compileEntries g hs hu filter
    have hothers := evaluate_compileFilters g hs (hu.mono (compileEntries_follows subject filter names)) filters
    rw [compileFilters, evaluateAnd, evaluateOr, evaluate_allOf, hfirst, allHold, someHold]
    cases entriesHold g id filter with
    | true => exact ⟨hothers.1, rfl⟩
    | false => exact ⟨rfl, hothers.2⟩

end

end FilterEntry

/-- A variable that stands for a node satisfies a filter's condition exactly when the filter holds at the node. -/
theorem Graph.satisfies_condition (g : Graph) (subject : Variable) (id : String) (filter : Filter) :
    g.satisfies subject id (filter.condition subject) = filter.holds g id := by
  rw [satisfies, Filter.condition, evaluate_allOf, FilterEntry.evaluate_compileEntries g
    Std.ExtTreeMap.getElem?_insert_self (NameSupply.unused_root subject id) filter]
  rfl

end EntityGraph
