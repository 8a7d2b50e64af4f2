import EntityGraph.Condition.Basic
import EntityGraph.Graph.Basic

/-!
# Evaluating conditions on a graph

`Graph.evaluate` tells whether a condition holds when variables stand for nodes of a graph, as `Bindings` state. A comparison with
an attribute that is absent or null is false, and so is a quantified condition whose root is unbound. The members of a
conjunction or disjunction are evaluated in order, up to the one that decides it, and all evaluation works on the same bindings:
a quantified condition unbinds its variable when it is done.
-/

namespace EntityGraph

/-- Whether a text holds the given characters in a row. -/
def Comparison.hasInfix (part : List Char) : List Char → Bool
  | [] => part.isEmpty
  | c :: cs => part.isPrefixOf (c :: cs) || hasInfix part cs

/-- Whether an attribute's value compares as stated with a value. Null on either side makes every comparison false. -/
def Comparison.holds (op : Comparison) (actual expected : Value) : Bool :=
  if actual.isNull || expected.isNull then false
  else
    let texts (test : List Char → List Char → Bool) : Bool :=
      match actual.string?, expected.string? with
      | some a, some e => test a.toList e.toList
      | _, _ => false
    match op with
    | .eq => actual.looseEq expected
    | .neq => !actual.looseEq expected
    | .lt => actual.compare? expected == some .lt
    | .lte => actual.compare? expected == some .lt || actual.compare? expected == some .eq
    | .gt => actual.compare? expected == some .gt
    | .gte => actual.compare? expected == some .gt || actual.compare? expected == some .eq
    | .contains => texts fun a e => hasInfix e a
    | .startsWith => texts fun a e => e.isPrefixOf a
    | .endsWith => texts fun a e => e.isSuffixOf a

/-- Whether the truth values found for the related nodes satisfy a quantifier. -/
def Quantifier.holds : Quantifier → List Bool → Bool
  | .all, results => results.all id
  | .some, results => results.any id
  | .none, results => !results.any id

/-- The nodes that variables stand for, by id. -/
abbrev Bindings := Std.ExtTreeMap Variable String

namespace Graph

/-- The value of an attribute of the node that a variable stands for; null if there is none. -/
def attributeOf (g : Graph) (bindings : Bindings) (subject : Variable) (name : String) : Value :=
  (do (← g.nodes[← bindings[subject]?]?).attributes[name]?).getD .null

mutual

/-- Whether a condition holds, and the bindings afterwards. -/
def evaluate (g : Graph) : Condition → Bindings → Bool × Bindings
  | .true, bindings => (true, bindings)
  | .false, bindings => (false, bindings)
  | .compare subject attr op value, bindings => (op.holds (g.attributeOf bindings subject attr) value, bindings)
  | .isIn subject attr values, bindings => (values.any (g.attributeOf bindings subject attr).looseEq, bindings)
  | .isNull subject attr, bindings => ((g.attributeOf bindings subject attr).isNull, bindings)
  | .and conditions, bindings => evaluateAnd g conditions bindings
  | .or conditions, bindings => evaluateOr g conditions bindings
  | .not condition, bindings =>
    let (result, bindings) := evaluate g condition bindings
    (!result, bindings)
  | .quantified quantifier pattern predicate, bindings =>
    match bindings[pattern.root]? with
    | none => (false, bindings)
    | some root =>
      let step := fun (seen : List Bool × Bindings) related =>
        let (result, bindings) := evaluate g predicate (seen.2.insert pattern.related related)
        (seen.1 ++ [result], bindings)
      let (results, bindings) := (g.neighbors root pattern.label pattern.direction).foldl step ([], bindings)
      (quantifier.holds results, bindings.erase pattern.related)

/-- Whether all conditions hold. -/
def evaluateAnd (g : Graph) : List Condition → Bindings → Bool × Bindings
  | [], bindings => (true, bindings)
  | c :: cs, bindings =>
    match evaluate g c bindings with
    | (true, bindings) => evaluateAnd g cs bindings
    | (false, bindings) => (false, bindings)

/-- Whether some condition holds. -/
def evaluateOr (g : Graph) : List Condition → Bindings → Bool × Bindings
  | [], bindings => (false, bindings)
  | c :: cs, bindings =>
    match evaluate g c bindings with
    | (true, bindings) => (true, bindings)
    | (false, bindings) => evaluateOr g cs bindings

end

/-- Whether a condition holds when a variable stands for a node. -/
def satisfies (g : Graph) (subject : Variable) (id : String) (condition : Condition) : Bool :=
  (g.evaluate condition (Std.ExtTreeMap.empty.insert subject id)).1

end Graph

end EntityGraph
