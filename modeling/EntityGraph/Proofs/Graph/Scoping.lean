import EntityGraph.Graph.Evaluation
import EntityGraph.Proofs.Collections

/-!
# Scopes of variables

A quantified condition binds its variable in its predicate, and nowhere else: that is the meaning of a condition in bindings
(`Graph.holds`). Evaluation works on one set of bindings, and unbinds the variable when it is done, also where it was bound
before. So it follows the scopes as long as no variable of an outer scope is used after it was bound anew
(`Condition.KeepsScope`), and a condition that uses one may be evaluated otherwise (`Graph.rebound_name_lost`).
-/

namespace EntityGraph

/-! ## Meaning in bindings -/

namespace Graph

mutual

/-- Whether a condition holds when variables stand for nodes. A quantified condition looks at its predicate once for each
neighbour of its root, with its variable bound to the neighbour. -/
def holds (g : Graph) : Condition → Bindings → Bool
  | .true, _ => true
  | .false, _ => false
  | .compare subject attr op value, bindings => op.holds (g.attributeOf bindings subject attr) value
  | .isIn subject attr values, bindings => values.any (g.attributeOf bindings subject attr).looseEq
  | .isNull subject attr, bindings => (g.attributeOf bindings subject attr).isNull
  | .and conditions, bindings => allHold g conditions bindings
  | .or conditions, bindings => someHold g conditions bindings
  | .not condition, bindings => !holds g condition bindings
  | .quantified quantifier pattern predicate, bindings =>
    match bindings[pattern.root]? with
    | none => false
    | some root => quantifier.holds ((g.neighbors root pattern.label pattern.direction).map fun related =>
        holds g predicate (bindings.insert pattern.related related))

/-- Whether all conditions hold. -/
def allHold (g : Graph) : List Condition → Bindings → Bool
  | [], _ => true
  | c :: cs, bindings => holds g c bindings && allHold g cs bindings

/-- Whether some condition holds. -/
def someHold (g : Graph) : List Condition → Bindings → Bool
  | [], _ => false
  | c :: cs, bindings => holds g c bindings || someHold g cs bindings

end

theorem allHold_eq (g : Graph) (conditions : List Condition) (bindings : Bindings) :
    g.allHold conditions bindings = conditions.all (g.holds · bindings) := by
  induction conditions with
  | nil => rfl
  | cons c cs ih => rw [allHold, ih, List.all_cons]

theorem someHold_eq (g : Graph) (conditions : List Condition) (bindings : Bindings) :
    g.someHold conditions bindings = conditions.any (g.holds · bindings) := by
  induction conditions with
  | nil => rfl
  | cons c cs ih => rw [someHold, ih, List.any_cons]

end Graph

/-! ## Variables of a condition -/

namespace Condition

mutual

/-- The variables that quantified conditions bind, from the outside in. -/
def bound : Condition → List Variable
  | .and conditions => boundIn conditions
  | .or conditions => boundIn conditions
  | .not condition => bound condition
  | .quantified _ pattern predicate => pattern.related :: bound predicate
  | _ => []

/-- The variables that are bound in some of the conditions. -/
def boundIn : List Condition → List Variable
  | [] => []
  | c :: cs => bound c ++ boundIn cs

end

mutual

/-- The variables that a condition uses and does not bind itself. -/
def free : Condition → List Variable
  | .true => []
  | .false => []
  | .compare subject _ _ _ => [subject]
  | .isIn subject _ _ => [subject]
  | .isNull subject _ => [subject]
  | .and conditions => freeIn conditions
  | .or conditions => freeIn conditions
  | .not condition => free condition
  | .quantified _ pattern predicate => pattern.root :: (free predicate).filter fun v => v ≠ pattern.related

/-- The variables that are free in some of the conditions. -/
def freeIn : List Condition → List Variable
  | [] => []
  | c :: cs => free c ++ freeIn cs

end

mutual

/-- No variable in scope is used after a quantified condition bound it anew: neither by a condition that is evaluated later, nor
by the predicate of a quantified condition when it is evaluated again, for the next neighbour. -/
def KeepsScope : Condition → List Variable → Prop
  | .and conditions, scope => AllKeepScope conditions scope
  | .or conditions, scope => AllKeepScope conditions scope
  | .not condition, scope => KeepsScope condition scope
  | .quantified _ pattern predicate, scope => KeepsScope predicate (pattern.related :: scope) ∧
      ∀ v ∈ bound predicate, v ∈ free predicate → v = pattern.related ∨ v ∉ scope
  | _, _ => True

/-- The same of conditions that are evaluated one after the other. -/
def AllKeepScope : List Condition → List Variable → Prop
  | [], _ => True
  | c :: cs, scope => KeepsScope c scope ∧ (∀ v ∈ bound c, v ∈ freeIn cs → v ∉ scope) ∧ AllKeepScope cs scope

end

end Condition

/-! ## What evaluation does to the bindings -/

namespace Bindings

/-- The later bindings are the earlier ones, less some of the given variables. -/
def Loses (bindings : Bindings) (vars : List Variable) (later : Bindings) : Prop :=
  ∀ v, later[v]? = bindings[v]? ∨ v ∈ vars ∧ later[v]? = none

/-- The given variables stand for the same nodes, where they are bound. -/
def AgreeOn (vars : List Variable) (bindings later : Bindings) : Prop := ∀ v ∈ vars, later[v]? = bindings[v]?

/-- Only variables in scope are bound. -/
def Within (bindings : Bindings) (scope : List Variable) : Prop := ∀ v ∉ scope, bindings[v]? = none

variable {bindings later last : Bindings} {vars others scope : List Variable} {v : Variable} {id : String}

theorem getElem?_insert_ne {k : Variable} (h : k ≠ v) : (bindings.insert v id)[k]? = bindings[k]? := by
  rw [Std.ExtTreeMap.getElem?_insert, if_neg]
  simpa using h.symm

theorem Loses.refl (bindings : Bindings) (vars : List Variable) : bindings.Loses vars bindings := fun _ => Or.inl rfl

theorem Loses.trans (h : bindings.Loses vars later) (h' : later.Loses vars last) : bindings.Loses vars last := by
  intro v
  rcases h' v with hsame | hlost
  · rw [hsame]
    exact h v
  · exact Or.inr hlost

theorem Loses.mono (h : bindings.Loses vars later) (hsub : vars ⊆ others) : bindings.Loses others later :=
  fun v => (h v).imp_right (And.imp_left (@hsub v))

/-- To unbind a variable that was bound on the way loses that variable too. -/
theorem Loses.erase (h : ∀ k ≠ v, later[k]? = bindings[k]? ∨ k ∈ vars ∧ later[k]? = none) :
    bindings.Loses (v :: vars) (later.erase v) := by
  intro k
  rw [Std.ExtTreeMap.getElem?_erase]
  by_cases hk : k = v
  · simp [hk]
  · rw [if_neg (by simpa using Ne.symm hk)]
    exact (h k hk).imp_right (And.imp_left (List.mem_cons_of_mem v))

theorem AgreeOn.mono (h : AgreeOn others bindings later) (hsub : vars ⊆ others) : AgreeOn vars bindings later :=
  fun v hv => h v (hsub hv)

/-- Agreement is not disturbed by the loss of variables that are not in scope. -/
theorem AgreeOn.loses (h : AgreeOn vars bindings later) (hw : bindings.Within scope) (hl : later.Loses others last)
    (hlost : ∀ v ∈ others, v ∈ vars → v ∉ scope) : AgreeOn vars bindings last := by
  intro v hv
  rcases hl v with hsame | ⟨hmem, hnone⟩
  · rw [hsame, h v hv]
  · rw [hnone, hw v (hlost v hmem hv)]

theorem AgreeOn.insert (h : AgreeOn (vars.filter (· ≠ v)) bindings later) :
    AgreeOn vars (bindings.insert v id) (later.insert v id) := by
  intro k hk
  by_cases he : k = v
  · rw [he, Std.ExtTreeMap.getElem?_insert_self, Std.ExtTreeMap.getElem?_insert_self]
  · rw [getElem?_insert_ne he, getElem?_insert_ne he]
    exact h k (List.mem_filter.mpr ⟨hk, by simpa using he⟩)

theorem Within.insert (h : bindings.Within scope) : Within (bindings.insert v id) (v :: scope) := by
  intro k hk
  simp only [List.mem_cons, not_or] at hk
  rw [getElem?_insert_ne hk.1]
  exact h k hk.2

end Bindings

namespace Graph

/-- The truth values of a predicate with its variable bound to one node after the other, and the bindings afterwards. -/
def evaluateEach (g : Graph) (predicate : Condition) (v : Variable) : List String → Bindings → List Bool × Bindings
  | [], bindings => ([], bindings)
  | id :: ids, bindings =>
    let here := g.evaluate predicate (bindings.insert v id)
    let others := evaluateEach g predicate v ids here.2
    (here.1 :: others.1, others.2)

variable {g : Graph} {bindings : Bindings}

theorem evaluate_quantified_of_none {quantifier : Quantifier} {pattern : EdgePattern} {predicate : Condition}
    (h : bindings[pattern.root]? = none) :
    g.evaluate (.quantified quantifier pattern predicate) bindings = (false, bindings) := by
  rw [evaluate, h]

theorem evaluate_quantified_of_some {quantifier : Quantifier} {pattern : EdgePattern} {predicate : Condition} {root : String}
    (h : bindings[pattern.root]? = some root) :
    g.evaluate (.quantified quantifier pattern predicate) bindings =
      (quantifier.holds (g.evaluateEach predicate pattern.related (g.neighbors root pattern.label pattern.direction) bindings).1,
        (g.evaluateEach predicate pattern.related (g.neighbors root pattern.label pattern.direction) bindings).2.erase
          pattern.related) := by
  have hfold : ∀ (ids : List String) (seen : List Bool) (now : Bindings),
      ids.foldl (fun (seen : List Bool × Bindings) related =>
        ((seen.1 ++ [(g.evaluate predicate (seen.2.insert pattern.related related)).1]),
          (g.evaluate predicate (seen.2.insert pattern.related related)).2)) (seen, now) =
        (seen ++ (g.evaluateEach predicate pattern.related ids now).1, (g.evaluateEach predicate pattern.related ids now).2) := by
    intro ids
    induction ids with
    | nil => simp [evaluateEach]
    | cons id ids ih => simp [evaluateEach, ih]
  rw [evaluate, h]
  simp only [hfold, List.nil_append]

mutual

/-- Evaluation binds no variable to another node in the end, and unbinds only variables that the condition binds. -/
theorem evaluate_loses (g : Graph) (c : Condition) (bindings : Bindings) :
    bindings.Loses c.bound (g.evaluate c bindings).2 := by
  match c with
  | .true | .false | .compare .. | .isIn .. | .isNull .. => exact .refl bindings _
  | .and conditions => exact evaluateAnd_loses g conditions bindings
  | .or conditions => exact evaluateOr_loses g conditions bindings
  | .not condition => exact evaluate_loses g condition bindings
  | .quantified quantifier pattern predicate =>
    rw [Condition.bound]
    cases hroot : bindings[pattern.root]? with
    | none =>
      rw [evaluate_quantified_of_none hroot]
      exact .refl bindings _
    | some root =>
      rw [evaluate_quantified_of_some hroot]
      exact .erase (evaluateEach_loses g predicate pattern.related _ bindings)
termination_by (sizeOf c, 0)

theorem evaluateEach_loses (g : Graph) (predicate : Condition) (v : Variable) (ids : List String) (bindings : Bindings) :
    ∀ k ≠ v, (g.evaluateEach predicate v ids bindings).2[k]? = bindings[k]? ∨
      k ∈ predicate.bound ∧ (g.evaluateEach predicate v ids bindings).2[k]? = none := by
  intro k hk
  match ids with
  | [] => exact Or.inl rfl
  | id :: ids =>
    have hhere := evaluate_loses g predicate (bindings.insert v id) k
    rw [Bindings.getElem?_insert_ne hk] at hhere
    rcases evaluateEach_loses g predicate v ids (g.evaluate predicate (bindings.insert v id)).2 k hk with hsame | hlost
    · rw [evaluateEach, hsame]
      exact hhere
    · exact Or.inr hlost
termination_by (sizeOf predicate, ids.length + 1)

theorem evaluateAnd_loses (g : Graph) (conditions : List Condition) (bindings : Bindings) :
    bindings.Loses (Condition.boundIn conditions) (evaluateAnd g conditions bindings).2 := by
  match conditions with
  | [] => exact .refl bindings _
  | c :: cs =>
    have hfirst := (evaluate_loses g c bindings).mono (List.subset_append_left _ (Condition.boundIn cs))
    rw [evaluateAnd, Condition.boundIn]
    split
    · next later he =>
      rw [he] at hfirst
      exact hfirst.trans ((evaluateAnd_loses g cs later).mono (List.subset_append_right _ _))
    · next later he =>
      rw [he] at hfirst
      exact hfirst
termination_by (sizeOf conditions, 0)

theorem evaluateOr_loses (g : Graph) (conditions : List Condition) (bindings : Bindings) :
    bindings.Loses (Condition.boundIn conditions) (evaluateOr g conditions bindings).2 := by
  match conditions with
  | [] => exact .refl bindings _
  | c :: cs =>
    have hfirst := (evaluate_loses g c bindings).mono (List.subset_append_left _ (Condition.boundIn cs))
    rw [evaluateOr, Condition.boundIn]
    split
    · next later he =>
      rw [he] at hfirst
      exact hfirst
    · next later he =>
      rw [he] at hfirst
      exact hfirst.trans ((evaluateOr_loses g cs later).mono (List.subset_append_right _ _))
termination_by (sizeOf conditions, 0)

end

mutual

/-- Evaluation finds the meaning of a condition when its free variables stand for the same nodes. What the members of a
conjunction lose, and what the predicate of a quantified condition loses at one neighbour, is not used afterwards. -/
theorem evaluate_eq_holds (g : Graph) (c : Condition) {bindings now : Bindings} {scope : List Variable}
    (hc : c.KeepsScope scope) (hw : bindings.Within scope) (ha : bindings.AgreeOn c.free now) :
    (g.evaluate c now).1 = g.holds c bindings := by
  match c with
  | .true | .false => rfl
  | .compare .. | .isIn .. | .isNull .. => simp only [evaluate, holds, attributeOf, ha _ (List.mem_singleton_self _)]
  | .and conditions => exact (evaluateMembers_eq g conditions hc hw ha).1
  | .or conditions => exact (evaluateMembers_eq g conditions hc hw ha).2
  | .not condition => exact congrArg (!·) (evaluate_eq_holds g condition hc hw ha)
  | .quantified quantifier pattern predicate =>
    have hsame := ha pattern.root List.mem_cons_self
    rw [holds, ← hsame]
    cases hroot : now[pattern.root]? with
    | none => rw [evaluate_quantified_of_none hroot]
    | some root =>
      rw [evaluate_quantified_of_some hroot]
      exact congrArg quantifier.holds (evaluateEach_eq_map g predicate _ hc.1 hw hc.2 (ha.mono (List.subset_cons_self ..)))
termination_by (sizeOf c, 0)

theorem evaluateEach_eq_map (g : Graph) (predicate : Condition) {v : Variable} (ids : List String) {bindings now : Bindings}
    {scope : List Variable} (hc : predicate.KeepsScope (v :: scope)) (hw : bindings.Within scope)
    (hlost : ∀ k ∈ predicate.bound, k ∈ predicate.free → k = v ∨ k ∉ scope)
    (ha : bindings.AgreeOn (predicate.free.filter (· ≠ v)) now) :
    (g.evaluateEach predicate v ids now).1 = ids.map fun id => g.holds predicate (bindings.insert v id) := by
  match ids with
  | [] => rfl
  | id :: ids =>
    have hhere : (g.evaluate predicate (now.insert v id)).1 = g.holds predicate (bindings.insert v id) :=
      evaluate_eq_holds g predicate hc hw.insert ha.insert
    have hlater : bindings.AgreeOn (predicate.free.filter (· ≠ v)) (g.evaluate predicate (now.insert v id)).2 := by
      intro k hk
      obtain ⟨hfree, hne⟩ := List.mem_filter.mp hk
      have hne : k ≠ v := by simpa using hne
      rcases evaluate_loses g predicate (now.insert v id) k with hsame | ⟨hbound, hnone⟩
      · rw [hsame, Bindings.getElem?_insert_ne hne, ha k hk]
      · rw [hnone, hw k ((hlost k hbound hfree).resolve_left hne)]
    rw [evaluateEach, List.map_cons, hhere, evaluateEach_eq_map g predicate ids hc hw hlost hlater]
termination_by (sizeOf predicate, ids.length + 1)

theorem evaluateMembers_eq (g : Graph) (conditions : List Condition) {bindings now : Bindings} {scope : List Variable}
    (hc : Condition.AllKeepScope conditions scope) (hw : bindings.Within scope)
    (ha : bindings.AgreeOn (Condition.freeIn conditions) now) :
    (evaluateAnd g conditions now).1 = g.allHold conditions bindings ∧
      (evaluateOr g conditions now).1 = g.someHold conditions bindings := by
  match conditions with
  | [] => exact ⟨rfl, rfl⟩
  | c :: cs =>
    obtain ⟨hfirst, hlost, hothers⟩ := hc
    have hhere := evaluate_eq_holds g c hfirst hw (ha.mono (List.subset_append_left ..))
    have hlater := (ha.mono (List.subset_append_right ..)).loses hw (evaluate_loses g c now)
      fun v hb hf hs => hlost v hb hf hs
    have hmembers := evaluateMembers_eq g cs hothers hw hlater
    rw [evaluateAnd, evaluateOr, allHold, someHold, ← hhere]
    rcases he : g.evaluate c now with ⟨result, later⟩
    rw [he] at hmembers
    cases result with
    | true => exact ⟨hmembers.1, rfl⟩
    | false => exact ⟨rfl, hmembers.2⟩
termination_by (sizeOf conditions, 0)

end

/-- A condition that keeps its scope is evaluated with each variable bound where its scope is, and the order of the members of a
conjunction or disjunction makes no difference as long as they keep their scope in either order. -/
theorem satisfies_in_scope (g : Graph) (subject : Variable) (id : String) :
    (∀ c : Condition, c.KeepsScope [subject] →
      g.satisfies subject id c = g.holds c (Std.ExtTreeMap.empty.insert subject id)) ∧
    ∀ cs cs' : List Condition, cs.Perm cs' →
      Condition.AllKeepScope cs [subject] → Condition.AllKeepScope cs' [subject] →
      g.satisfies subject id (.and cs) = g.satisfies subject id (.and cs') ∧
        g.satisfies subject id (.or cs) = g.satisfies subject id (.or cs') := by
  have hscoped : ∀ c : Condition, c.KeepsScope [subject] →
      g.satisfies subject id c = g.holds c (Std.ExtTreeMap.empty.insert subject id) := by
    intro c hc
    have hw : Bindings.Within (Std.ExtTreeMap.empty.insert subject id) [subject] :=
      Bindings.Within.insert fun _ _ => Std.ExtTreeMap.getElem?_empty
    exact evaluate_eq_holds g c hc hw fun _ _ => rfl
  refine ⟨hscoped, fun cs cs' hp hc hc' => ⟨?_, ?_⟩⟩
  · rw [hscoped (.and cs) hc, hscoped (.and cs') hc', holds, holds, allHold_eq, allHold_eq, hp.all_eq]
  · rw [hscoped (.or cs) hc, hscoped (.or cs') hc', holds, holds, someHold_eq, someHold_eq, hp.any_eq]

/-! ## An example: a tree that asks for its name and for children -/

namespace Example

/-- An oak with an elm below it. -/
def oak : Graph :=
  ⟨.ofList [("a", ⟨"Tree", .ofList [("name", .string "oak")] compare⟩), ("b", ⟨"Tree", .ofList [("name", .string "elm")] compare⟩)]
    compare, .ofList [⟨"a", "CHILD", "b"⟩] compare⟩

def isOak : Condition := .compare ⟨"n"⟩ "name" .eq (.string "oak")

/-- Whether there are children. The variable for a child has the name of the one for the tree. -/
def hasChild : Condition := .quantified .some ⟨⟨"n"⟩, ⟨"n"⟩, "CHILD", .outgoing⟩ .true

end Example

/-- A name that is bound anew and not used afterwards: the condition keeps its scope, and holds at the oak. -/
theorem name_before_children :
    (Condition.and [Example.isOak, Example.hasChild]).KeepsScope [⟨"n"⟩] ∧
      Example.oak.satisfies ⟨"n"⟩ "a" (.and [Example.isOak, Example.hasChild]) = true := by
  have hkeeps : (Condition.and [Example.isOak, Example.hasChild]).KeepsScope [⟨"n"⟩] := by
    simp [Condition.KeepsScope, Condition.AllKeepScope, Condition.bound, Condition.freeIn, Example.isOak, Example.hasChild]
  exact ⟨hkeeps, ((satisfies_in_scope Example.oak ⟨"n"⟩ "a").1 _ hkeeps).trans (by decide +kernel)⟩

/-- With its members in the other order the condition means the same, and yet it is not found to hold at the oak: once the
children were seen, the name stands for nothing. -/
theorem rebound_name_lost :
    Example.oak.holds (.and [Example.hasChild, Example.isOak]) (Std.ExtTreeMap.empty.insert ⟨"n"⟩ "a") = true ∧
      Example.oak.satisfies ⟨"n"⟩ "a" (.and [Example.hasChild, Example.isOak]) = false ∧
      Example.oak.satisfies ⟨"n"⟩ "a" (.and [Example.isOak, Example.hasChild]) = true := by
  decide +kernel

end Graph

end EntityGraph
