import EntityGraph.Proofs.Filter.Meaning
import EntityGraph.Proofs.Graph.Scoping

/-!
# Conditions that meet no unbound variable

`Graph.evaluate?` is evaluation that gives up where it meets a variable that stands for no node. It never does on a condition
whose free variables are bound and which binds no variable in scope anew (`Condition.BindsNew`): each part of it leaves the
bindings as it found them (`Graph.evaluate?_eq_some`).
-/

namespace EntityGraph

/-! ## Variables that are bound once -/

namespace Condition

mutual

/-- No quantified condition binds a variable that is in scope already. -/
def BindsNew : Condition → List Variable → Prop
  | .and conditions, scope => AllBindNew conditions scope
  | .or conditions, scope => AllBindNew conditions scope
  | .not condition, scope => BindsNew condition scope
  | .quantified _ pattern predicate, scope => pattern.related ∉ scope ∧ BindsNew predicate (pattern.related :: scope)
  | _, _ => True

/-- The same of several conditions. -/
def AllBindNew : List Condition → List Variable → Prop
  | [], _ => True
  | c :: cs, scope => BindsNew c scope ∧ AllBindNew cs scope

end

mutual

/-- A condition that binds each of its variables once, and none that is in scope, binds no variable anew. -/
theorem bindsNew_of_nodup (c : Condition) {scope : List Variable} (hn : c.bound.Nodup) (hs : ∀ v ∈ c.bound, v ∉ scope) :
    c.BindsNew scope := by
  match c with
  | .true | .false | .compare .. | .isIn .. | .isNull .. => trivial
  | .and conditions | .or conditions => exact allBindNew_of_nodup conditions hn hs
  | .not condition => exact bindsNew_of_nodup condition hn hs
  | .quantified _ pattern predicate =>
    obtain ⟨hrelated, hrest⟩ := List.nodup_cons.mp hn
    refine ⟨hs _ List.mem_cons_self, bindsNew_of_nodup predicate hrest fun v hv => ?_⟩
    rw [List.mem_cons, not_or]
    exact ⟨fun he => hrelated (he ▸ hv), hs v (List.mem_cons_of_mem _ hv)⟩

theorem allBindNew_of_nodup (conditions : List Condition) {scope : List Variable} (hn : (boundIn conditions).Nodup)
    (hs : ∀ v ∈ boundIn conditions, v ∉ scope) : AllBindNew conditions scope := by
  match conditions with
  | [] => trivial
  | c :: cs =>
    obtain ⟨hfirst, hothers, _⟩ := List.nodup_append.mp hn
    exact ⟨bindsNew_of_nodup c hfirst fun v hv => hs v (List.mem_append_left _ hv),
      allBindNew_of_nodup cs hothers fun v hv => hs v (List.mem_append_right _ hv)⟩

end

end Condition

/-! ## Evaluation that gives up at unbound variables -/

namespace Graph

mutual

/-- Whether a condition holds, and the bindings afterwards; nothing where a variable is met that stands for no node. -/
def evaluate? (g : Graph) : Condition → Bindings → Option (Bool × Bindings)
  | .true, bindings => some (true, bindings)
  | .false, bindings => some (false, bindings)
  | .compare subject attr op value, bindings => do
    let _ ← bindings[subject]?
    return (op.holds (g.attributeOf bindings subject attr) value, bindings)
  | .isIn subject attr values, bindings => do
    let _ ← bindings[subject]?
    return (values.any (g.attributeOf bindings subject attr).looseEq, bindings)
  | .isNull subject attr, bindings => do
    let _ ← bindings[subject]?
    return ((g.attributeOf bindings subject attr).isNull, bindings)
  | .and conditions, bindings => evaluateAnd? g conditions bindings
  | .or conditions, bindings => evaluateOr? g conditions bindings
  | .not condition, bindings => do
    let (result, bindings) ← evaluate? g condition bindings
    return (!result, bindings)
  | .quantified quantifier pattern predicate, bindings => do
    let root ← bindings[pattern.root]?
    let step := fun (seen : List Bool × Bindings) related => do
      let (result, bindings) ← evaluate? g predicate (seen.2.insert pattern.related related)
      return (seen.1 ++ [result], bindings)
    let (results, bindings) ← (g.neighbors root pattern.label pattern.direction).foldlM step ([], bindings)
    return (quantifier.holds results, bindings.erase pattern.related)

/-- Whether all conditions hold, as far as they are evaluated. -/
def evaluateAnd? (g : Graph) : List Condition → Bindings → Option (Bool × Bindings)
  | [], bindings => some (true, bindings)
  | c :: cs, bindings => do
    match ← evaluate? g c bindings with
    | (true, bindings) => evaluateAnd? g cs bindings
    | (false, bindings) => return (false, bindings)

/-- Whether some condition holds, as far as they are evaluated. -/
def evaluateOr? (g : Graph) : List Condition → Bindings → Option (Bool × Bindings)
  | [], bindings => some (false, bindings)
  | c :: cs, bindings => do
    match ← evaluate? g c bindings with
    | (true, bindings) => return (true, bindings)
    | (false, bindings) => evaluateOr? g cs bindings

end

variable {g : Graph} {bindings : Bindings}

/-- A quantified condition whose predicate meets no unbound variable at any neighbour meets none, and leaves the bindings as they
were. -/
theorem evaluate?_quantified {quantifier : Quantifier} {pattern : EdgePattern} {predicate : Condition} {id : String}
    {holds : String → Bool} (hroot : bindings[pattern.root]? = some id) (hrelated : bindings[pattern.related]? = none)
    (hpred : ∀ other, g.evaluate? predicate (bindings.insert pattern.related other) =
      some (holds other, bindings.insert pattern.related other)) :
    g.evaluate? (.quantified quantifier pattern predicate) bindings =
      some (quantifier.holds ((g.neighbors id pattern.label pattern.direction).map holds), bindings) := by
  -- After any number of neighbours, the bindings differ from those before at the related variable only.
  have hfold : ∀ (others : List String) (seen : List Bool) (now : Bindings),
      (∀ other, now.insert pattern.related other = bindings.insert pattern.related other) →
      now.erase pattern.related = bindings →
      ∃ after, after.erase pattern.related = bindings ∧
        others.foldlM (fun (seen : List Bool × Bindings) related =>
          (g.evaluate? predicate (seen.2.insert pattern.related related)).bind fun (result, bindings) =>
            some (seen.1 ++ [result], bindings)) (seen, now) = some (seen ++ others.map holds, after) := by
    intro others
    induction others with
    | nil => exact fun seen now _ he => ⟨now, he, by simp⟩
    | cons other others ih =>
      intro seen now hi _
      obtain ⟨after, ha, hf⟩ := ih (seen ++ [holds other]) (bindings.insert pattern.related other)
        (fun _ => Bindings.insert_insert ..) (Bindings.erase_insert hrelated other)
      refine ⟨after, ha, ?_⟩
      rw [List.foldlM_cons, hi, hpred]
      simpa using hf
  obtain ⟨after, ha, hf⟩ := hfold (g.neighbors id pattern.label pattern.direction) [] bindings (fun _ => rfl)
    (Bindings.erase_self hrelated)
  rw [evaluate?, hroot]
  simp only [bind, pure, Option.bind_some] at hf ⊢
  rw [hf]
  simp [ha]

mutual

/-- Where the free variables are bound and no variable is bound anew, evaluation meets no unbound variable and leaves the bindings
as they were. -/
theorem evaluate?_eq_some (g : Graph) (c : Condition) {bindings : Bindings} {scope : List Variable} (hc : c.BindsNew scope)
    (hw : bindings.Within scope) (hfree : ∀ v ∈ c.free, ∃ id, bindings[v]? = some id) :
    ∃ result, g.evaluate c bindings = (result, bindings) ∧ g.evaluate? c bindings = some (result, bindings) := by
  match c with
  | .true | .false => exact ⟨_, rfl, rfl⟩
  | .compare .. | .isIn .. | .isNull .. =>
    obtain ⟨id, hid⟩ := hfree _ (List.mem_singleton_self _)
    refine ⟨_, rfl, ?_⟩
    rw [evaluate?, hid]
    rfl
  | .and conditions => exact (evaluateMembers?_eq_some g conditions hc hw hfree).1
  | .or conditions => exact (evaluateMembers?_eq_some g conditions hc hw hfree).2
  | .not condition =>
    obtain ⟨result, he, he?⟩ := evaluate?_eq_some g condition hc hw hfree
    refine ⟨!result, ?_, ?_⟩
    · rw [evaluate, he]
    · rw [evaluate?, he?]
      rfl
  | .quantified quantifier pattern predicate =>
    obtain ⟨root, hroot⟩ := hfree pattern.root List.mem_cons_self
    have hrelated := hw pattern.related hc.1
    have hpred : ∀ other, ∃ result,
        g.evaluate predicate (bindings.insert pattern.related other) = (result, bindings.insert pattern.related other) ∧
        g.evaluate? predicate (bindings.insert pattern.related other) =
          some (result, bindings.insert pattern.related other) := by
      refine fun other => evaluate?_eq_some g predicate hc.2 hw.insert fun v hv => ?_
      by_cases hv' : v = pattern.related
      · exact ⟨other, by rw [hv', Std.ExtTreeMap.getElem?_insert_self]⟩
      · rw [Bindings.getElem?_insert_ne hv']
        exact hfree v (List.mem_cons_of_mem _ (List.mem_filter.mpr ⟨hv, by simpa using hv'⟩))
    choose holds hevaluate hevaluate? using hpred
    exact ⟨_, evaluate_quantified hroot hrelated hevaluate, evaluate?_quantified hroot hrelated hevaluate?⟩

theorem evaluateMembers?_eq_some (g : Graph) (conditions : List Condition) {bindings : Bindings} {scope : List Variable}
    (hc : Condition.AllBindNew conditions scope) (hw : bindings.Within scope)
    (hfree : ∀ v ∈ Condition.freeIn conditions, ∃ id, bindings[v]? = some id) :
    (∃ result, evaluateAnd g conditions bindings = (result, bindings) ∧
        evaluateAnd? g conditions bindings = some (result, bindings)) ∧
      ∃ result, evaluateOr g conditions bindings = (result, bindings) ∧
        evaluateOr? g conditions bindings = some (result, bindings) := by
  match conditions with
  | [] => exact ⟨⟨true, rfl, rfl⟩, ⟨false, rfl, rfl⟩⟩
  | c :: cs =>
    obtain ⟨result, he, he?⟩ := evaluate?_eq_some g c hc.1 hw fun v hv => hfree v (List.mem_append_left _ hv)
    obtain ⟨hand, hor⟩ := evaluateMembers?_eq_some g cs hc.2 hw fun v hv => hfree v (List.mem_append_right _ hv)
    rw [evaluateAnd, evaluateOr, evaluateAnd?, evaluateOr?, he, he?]
    cases result with
    | true => exact ⟨hand, true, rfl, rfl⟩
    | false => exact ⟨⟨false, rfl, rfl⟩, hor⟩

end

end Graph

end EntityGraph
