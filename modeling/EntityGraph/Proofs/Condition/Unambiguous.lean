import EntityGraph.Graph.Evaluation
import EntityGraph.Proofs.Condition.Reader

/-!
# The text of a condition determines it

Conditions with the same text are the same but for the three spellings that the text does not tell apart, which `Condition.normal`
takes away. The reader recovers that form from the text, and every spelling of it means the same on every graph.
-/

namespace EntityGraph

/-! ## Plain conditions and their normal form -/

/-- A text that is an identifier. -/
def Identifier (name : String) : Prop := Variable.isName name.toList

structure EdgePattern.Plain (pattern : EdgePattern) : Prop where
  root : Identifier pattern.root.name
  related : Identifier pattern.related.name
  label : Identifier pattern.label

namespace Condition

mutual

/-- A condition whose variables, attributes and labels are identifiers and which has no floating-point number. -/
def Plain : Condition → Prop
  | .true => True
  | .false => True
  | .compare v attr _ value => Identifier v.name ∧ Identifier attr ∧ value.Exact
  | .isIn v attr values => Identifier v.name ∧ Identifier attr ∧ ∀ value ∈ values, value.Exact
  | .isNull v attr => Identifier v.name ∧ Identifier attr
  | .and conditions => AllPlain conditions
  | .or conditions => AllPlain conditions
  | .not condition => condition.Plain
  | .quantified _ pattern predicate => pattern.Plain ∧ predicate.Plain

def AllPlain : List Condition → Prop
  | [] => True
  | c :: cs => c.Plain ∧ AllPlain cs

end

theorem allPlain_iff {cs : List Condition} : AllPlain cs ↔ ∀ c ∈ cs, c.Plain := by
  induction cs with
  | nil => simp [AllPlain]
  | cons c cs ih => simp [AllPlain, ih]

/-- A conjunction in normal form: without members it is true, and with a single one it is the disjunction of that one. -/
def conjunction : List Condition → Condition
  | [] => .true
  | [c] => .or [c]
  | cs => .and cs

/-- A disjunction in normal form: without members it is false. -/
def disjunction : List Condition → Condition
  | [] => .false
  | cs => .or cs

mutual

/-- A condition with every conjunction and disjunction in it in normal form. -/
def normal : Condition → Condition
  | .true => .true
  | .false => .false
  | .compare v attr op value => .compare v attr op value
  | .isIn v attr values => .isIn v attr values
  | .isNull v attr => .isNull v attr
  | .and conditions => conjunction (normalAll conditions)
  | .or conditions => disjunction (normalAll conditions)
  | .not condition => .not condition.normal
  | .quantified quantifier pattern predicate => .quantified quantifier pattern predicate.normal

def normalAll : List Condition → List Condition
  | [] => []
  | c :: cs => c.normal :: normalAll cs

end

theorem normalAll_eq_map (cs : List Condition) : normalAll cs = cs.map normal := by
  induction cs with
  | nil => rfl
  | cons c cs ih => rw [normalAll, ih, List.map_cons]

theorem renderAll_eq_map (cs : List Condition) : renderAll cs = cs.map render := by
  induction cs with
  | nil => rfl
  | cons c cs ih => rw [renderAll, ih, List.map_cons]

end Condition

namespace Condition.Reader

variable {rest : List Char}

/-! ## Comparisons -/

section

variable {attr : String} (hattr : Identifier attr) (subject : Variable)
include hattr

theorem attribute?_isNull :
    attribute? subject (attr.toList ++ (" IS NULL".toList ++ rest)) = some (.isNull subject attr, rest) := by
  have hname := name?_append hattr (" IS NULL".toList ++ rest) (by simp +decide)
  simp only [attribute?, hname, Option.bind_eq_bind, Option.bind_some, expect?_append]
  rfl

theorem attribute?_isIn {values : List Value} (hvalues : ∀ value ∈ values, value.Exact) :
    attribute? subject (attr.toList ++ (" IN [".toList ++ ((", ".intercalate (values.map Value.render)).toList ++
      ("]".toList ++ rest)))) = some (.isIn subject attr values, rest) := by
  have hname : ∀ cs, name? (attr.toList ++ (" IN [".toList ++ cs)) = some (attr, " IN [".toList ++ cs) :=
    fun cs => name?_append hattr _ (by simp +decide)
  have hnull : ∀ cs, expect? " IS NULL" (" IN [".toList ++ cs) = none := fun _ => rfl
  simp only [attribute?, hname, Option.bind_eq_bind, Option.bind_some, hnull, expect?_append]
  cases values with
  | nil =>
    have hclose : expect? "]" ((", ".intercalate (List.map Value.render [])).toList ++ ("]".toList ++ rest)) = some rest :=
      expect?_append "]" rest
    simp only [hclose]
    rfl
  | cons value values =>
    have htext : ∀ v ∈ value :: values, v.render.toList ≠ [] := by
      intro v hv
      obtain ⟨c, cs, hcs, -⟩ := exists_render_eq_cons (hvalues v hv)
      simp [hcs]
    have hlist : list? ", " value? (", ".toList.intercalate ((value :: values).map (String.toList ∘ Value.render)) ++
        ("]".toList ++ rest)) = some ((value :: values).map id, "]".toList ++ rest) :=
      list?_append rfl (Ends.append "]" rfl rest) rfl (by simp) htext fun v hv _ => value?_append (hvalues v hv)
    have hclose : expect? "]" (", ".toList.intercalate ((value :: values).map (String.toList ∘ Value.render)) ++
        ("]".toList ++ rest)) = none := by
      refine expect?_eq_none (c := ']') (by decide) ?_
      obtain ⟨c, cs, hcs, hc⟩ := exists_render_eq_cons (hvalues value (by simp))
      have hhead := head?_intercalate ", ".toList (values.map (String.toList ∘ Value.render)) (htext value (by simp))
      rw [List.map_cons, Function.comp_apply, List.head?_append, hhead, hcs]
      rintro ⟨rfl⟩
      exact absurd hc (by decide)
    rw [String.toList_intercalate, List.map_map]
    simp only [hclose, hlist, Option.bind_some, expect?_append, List.map_id]
    rfl

theorem attribute?_compare (op : Comparison) {value : Value} (hvalue : value.Exact) (hrest : Ends rest) :
    attribute? subject (attr.toList ++ (" ".toList ++ (op.symbol.toList ++ (" ".toList ++ (value.render.toList ++ rest))))) =
      some (.compare subject attr op value, rest) := by
  have hname : ∀ cs, name? (attr.toList ++ (" ".toList ++ cs)) = some (attr, " ".toList ++ cs) :=
    fun cs => name?_append hattr _ (by simp +decide)
  have hnull : ∀ cs, expect? " IS NULL" (" ".toList ++ (op.symbol.toList ++ (" ".toList ++ cs))) = none := by
    cases op <;> exact fun _ => rfl
  have hin : ∀ cs, expect? " IN [" (" ".toList ++ (op.symbol.toList ++ (" ".toList ++ cs))) = none := by
    cases op <;> exact fun _ => rfl
  simp only [attribute?, hname, Option.bind_eq_bind, Option.bind_some, hnull, hin, expect?_append, operator?_append,
    value?_append hvalue hrest]
  rfl

end

/-! ## Quantified conditions -/

theorem pattern?_append {pattern : EdgePattern} (h : pattern.Plain) :
    pattern? (pattern.render.toList ++ rest) = some (pattern, rest) := by
  obtain ⟨root, related, label, direction⟩ := pattern
  have hroot : ∀ cs, name? (root.name.toList ++ (")".toList ++ cs)) = some (root.name, ")".toList ++ cs) :=
    fun cs => name?_append h.root _ (by simp +decide)
  have hlabel : ∀ cs, name? (label.toList ++ ("]".toList ++ cs)) = some (label, "]".toList ++ cs) :=
    fun cs => name?_append h.label _ (by simp +decide)
  have hrelated : ∀ cs, name? (related.name.toList ++ (")".toList ++ cs)) = some (related.name, ")".toList ++ cs) :=
    fun cs => name?_append h.related _ (by simp +decide)
  cases direction with
  | outgoing =>
    have hopen : ∀ cs, expect? ")-[:" (")".toList ++ ("-".toList ++ ("[:".toList ++ cs))) = some cs := fun cs => rfl
    have hclose : ∀ cs, expect? "]->(" ("]".toList ++ ("->".toList ++ ("(".toList ++ cs))) = some cs := fun cs => rfl
    simp only [EdgePattern.render, String.toList_append, List.append_assoc, pattern?, expect?_append, Option.bind_eq_bind,
      Option.bind_some, hroot, hopen, hlabel, hclose, hrelated]
    rfl
  | incoming =>
    have hother : ∀ cs, expect? ")-[:" (")".toList ++ ("<-".toList ++ ("[:".toList ++ cs))) = none := fun cs => rfl
    have hopen : ∀ cs, expect? ")<-[:" (")".toList ++ ("<-".toList ++ ("[:".toList ++ cs))) = some cs := fun cs => rfl
    have hclose : ∀ cs, expect? "]-(" ("]".toList ++ ("-".toList ++ ("(".toList ++ cs))) = some cs := fun cs => rfl
    simp only [EdgePattern.render, String.toList_append, List.append_assoc, pattern?, expect?_append, Option.bind_eq_bind,
      Option.bind_some, hroot, hother, hopen, hlabel, hclose, hrelated]
    rfl

section

/-! What the readers with conditions inside make of a text, when the reader of those conditions recovers their normal forms. -/

variable {read? : List Char → Option (Condition × List Char)}

/-- A reader that recovers the normal form of a condition from its text. -/
def Recovers (read? : List Char → Option (Condition × List Char)) (c : Condition) : Prop :=
  ∀ rest, Ends rest → read? (c.render.toList ++ rest) = some (c.normal, rest)

theorem quantified?_append (quantifier : Quantifier) {pattern : EdgePattern} (h : pattern.Plain) {predicate : Condition}
    (hread : Recovers read? predicate) :
    quantified? read? quantifier (pattern.related.name.toList ++ (" IN [".toList ++ (pattern.render.toList ++ (" | ".toList ++
      (pattern.related.name.toList ++ ("] WHERE ".toList ++ (predicate.render.toList ++ (")".toList ++ rest)))))))) =
      some (.quantified quantifier pattern predicate.normal, rest) := by
  have hname : ∀ cs, name? (pattern.related.name.toList ++ (" IN [".toList ++ cs)) =
      some (pattern.related.name, " IN [".toList ++ cs) := fun cs => name?_append h.related _ (by simp +decide)
  have hagain : ∀ cs, expect? (" | " ++ pattern.related.name ++ "] WHERE ") (" | ".toList ++
      (pattern.related.name.toList ++ ("] WHERE ".toList ++ cs))) = some cs := by
    intro cs
    have happ := expect?_append (" | " ++ pattern.related.name ++ "] WHERE ") cs
    rwa [String.toList_append, String.toList_append, List.append_assoc, List.append_assoc] at happ
  have hpredicate := hread (")".toList ++ rest) (Ends.append ")" rfl rest)
  simp only [quantified?, hname, expect?_append, pattern?_append h, hagain, hpredicate, Option.bind_eq_bind, Option.bind_some]
  simp

theorem word?_not {c : Condition} (hread : Recovers read? c) :
    word? read? "NOT" (" (".toList ++ (c.render.toList ++ (")".toList ++ rest))) = some (.not c.normal, rest) := by
  have hcondition := hread (")".toList ++ rest) (Ends.append ")" rfl rest)
  rw [word?, if_neg (by decide), if_neg (by decide), if_pos rfl]
  simp only [expect?_append, hcondition, Option.bind_eq_bind, Option.bind_some]
  rfl

theorem joined_ne_empty {word empty : String} (h : empty ≠ "") (parts : List String) : joined word empty parts ≠ "" := by
  rw [joined]
  split
  · exact h
  · simp

theorem render_ne_nil (c : Condition) : c.render.toList ≠ [] := by
  cases c <;> simp [render, joined_ne_empty]

/-- The members of a conjunction or disjunction after the first one. -/
theorem others?_append (rest : List Char) (word : String) (hword : word.toList.head?.any isEnd)
    (hclose : expect? word (")".toList ++ rest) = none) {cs : List Condition} (hcs : cs ≠ [])
    (hread : ∀ c ∈ cs, Recovers read? c) :
    list? word read? (word.toList.intercalate (cs.map (String.toList ∘ render)) ++ (")".toList ++ rest)) =
      some (cs.map normal, ")".toList ++ rest) :=
  list?_append hword (Ends.append ")" rfl rest) hclose hcs (fun c _ => render_ne_nil c) hread

theorem group?_single {c : Condition} (hread : Recovers read? c) :
    group? read? (c.render.toList ++ (")".toList ++ rest)) = some (.or [c.normal], rest) := by
  have hfirst := hread (")".toList ++ rest) (Ends.append ")" rfl rest)
  simp only [group?, hfirst, expect?_append, Option.bind_eq_bind, Option.bind_some]
  rfl

theorem group?_and {c : Condition} {cs : List Condition} (hcs : cs ≠ []) (hread : ∀ d ∈ c :: cs, Recovers read? d) :
    group? read? (c.render.toList ++ (" AND ".toList ++ (" AND ".toList.intercalate (cs.map (String.toList ∘ render)) ++
      (")".toList ++ rest)))) = some (.and (c.normal :: cs.map normal), rest) := by
  have hfirst := fun cs => hread c (by simp) (" AND ".toList ++ cs) (Ends.append " AND " rfl cs)
  have hothers := others?_append rest " AND " rfl rfl hcs fun d hd => hread d (List.mem_cons_of_mem c hd)
  have hclose : ∀ cs, expect? ")" (" AND ".toList ++ cs) = none := fun _ => rfl
  simp only [group?, hfirst, hclose, expect?_append, hothers, Option.bind_eq_bind, Option.bind_some]
  rfl

theorem group?_or {c : Condition} {cs : List Condition} (hcs : cs ≠ []) (hread : ∀ d ∈ c :: cs, Recovers read? d) :
    group? read? (c.render.toList ++ (" OR ".toList ++ (" OR ".toList.intercalate (cs.map (String.toList ∘ render)) ++
      (")".toList ++ rest)))) = some (.or (c.normal :: cs.map normal), rest) := by
  have hfirst := fun cs => hread c (by simp) (" OR ".toList ++ cs) (Ends.append " OR " rfl cs)
  have hothers := others?_append rest " OR " rfl rfl hcs fun d hd => hread d (List.mem_cons_of_mem c hd)
  have hclose : ∀ cs, expect? ")" (" OR ".toList ++ cs) = none := fun _ => rfl
  have hand : ∀ cs, expect? " AND " (" OR ".toList ++ cs) = none := fun _ => rfl
  simp only [group?, hfirst, hclose, hand, expect?_append, hothers, Option.bind_eq_bind, Option.bind_some]
  rfl

/-! ## One step of the reader for each form -/

theorem step?_name {name : String} (h : Identifier name) (rest : List Char)
    (hrest : ∀ c ∈ rest.head?, Variable.isSubsequent c = .false) : step? read? (name.toList ++ rest) =
      match expect? "." rest, expect? "(" rest with
      | some cs, _ => attribute? ⟨name⟩ cs
      | none, some cs => do quantified? read? (← quantifier? name) cs
      | none, none => word? read? name rest := by
  have hopen : expect? "(" (name.toList ++ rest) = none := by
    refine expect?_eq_none (c := '(') rfl fun hhead => ?_
    obtain ⟨c, cs, hcs⟩ : ∃ c cs, name.toList = c :: cs := by
      refine List.exists_cons_of_ne_nil fun hnil => ?_
      simp [Identifier, hnil, Variable.isName] at h
    have hc := isSubsequent_of_isName h c (by simp [hcs])
    rw [hcs] at hhead
    obtain rfl : c = '(' := Option.some.inj hhead
    exact absurd hc (by decide)
  rw [step?, hopen, name?_append h rest hrest]
  rfl

theorem step?_attribute {name : String} (h : Identifier name) (cs : List Char) :
    step? read? (name.toList ++ (".".toList ++ cs)) = attribute? ⟨name⟩ cs := by
  rw [step?_name h (".".toList ++ cs) (by simp +decide), expect?_append]

theorem step?_word (name : String) (h : Identifier name) (hrest : Ends rest) :
    step? read? (name.toList ++ rest) = word? read? name rest := by
  have hstop : ∀ text : String, ∀ c, text.toList.head? = some c → isEnd c = .false → expect? text rest = none := by
    intro text c htext hc
    refine expect?_eq_none htext fun hhead => ?_
    have hend := hrest c hhead
    rw [hc] at hend
    cases hend
  rw [step?_name h rest (fun c hc => isSubsequent_of_isEnd (hrest c hc)), hstop "." '.' rfl rfl, hstop "(" '(' rfl rfl]

theorem step?_group (cs : List Char) : step? read? ("(".toList ++ cs) = group? read? cs := by
  rw [step?, expect?_append]

theorem recovers_true : Recovers (step? read?) .true := by
  intro rest hrest
  exact step?_word "true" rfl hrest

theorem recovers_false : Recovers (step? read?) .false := by
  intro rest hrest
  exact step?_word "false" rfl hrest

theorem recovers_compare {v : Variable} (hv : Identifier v.name) {attr : String} (hattr : Identifier attr) (op : Comparison)
    {value : Value} (hvalue : value.Exact) : Recovers (step? read?) (.compare v attr op value) := by
  intro rest hrest
  simp only [render, normal, String.toList_append, List.append_assoc]
  rw [step?_attribute hv, attribute?_compare hattr v op hvalue hrest]

theorem recovers_isIn {v : Variable} (hv : Identifier v.name) {attr : String} (hattr : Identifier attr)
    {values : List Value} (hvalues : ∀ value ∈ values, value.Exact) : Recovers (step? read?) (.isIn v attr values) := by
  intro rest _
  simp only [render, normal, String.toList_append, List.append_assoc]
  rw [step?_attribute hv, attribute?_isIn hattr v hvalues]

theorem recovers_isNull {v : Variable} (hv : Identifier v.name) {attr : String} (hattr : Identifier attr) :
    Recovers (step? read?) (.isNull v attr) := by
  intro rest _
  simp only [render, normal, String.toList_append, List.append_assoc]
  rw [step?_attribute hv, attribute?_isNull hattr v]

theorem recovers_not {c : Condition} (hread : Recovers read? c) : Recovers (step? read?) (.not c) := by
  intro rest _
  have hword : "NOT (".toList = "NOT".toList ++ " (".toList := rfl
  simp only [render, normal, String.toList_append, List.append_assoc, hword]
  rw [step?_word "NOT" rfl (Ends.append " (" rfl _), word?_not hread]

theorem recovers_quantified (quantifier : Quantifier) {pattern : EdgePattern} (h : pattern.Plain) {predicate : Condition}
    (hread : Recovers read? predicate) : Recovers (step? read?) (.quantified quantifier pattern predicate) := by
  intro rest _
  have hdot : ∀ cs, expect? "." ("(".toList ++ cs) = none := fun _ => rfl
  simp only [render, normal, String.toList_append, List.append_assoc]
  rw [step?_name (isName_function quantifier) _ (by simp +decide)]
  simp only [hdot, expect?_append, quantifier?_function, Option.bind_eq_bind, Option.bind_some]
  exact quantified?_append quantifier h hread

theorem toList_joined (word empty : String) {cs : List Condition} (hcs : cs ≠ []) :
    (joined word empty (renderAll cs)).toList =
      "(".toList ++ (word.toList.intercalate (cs.map (String.toList ∘ render)) ++ ")".toList) := by
  have hparts : (cs.map render).isEmpty = .false := by simpa using hcs
  rw [renderAll_eq_map, joined, hparts, if_neg (by decide), String.toList_append, String.toList_append, String.toList_intercalate,
    List.map_map, List.append_assoc]

/-- A parenthesis with a single member, whatever it was a conjunction or disjunction of. -/
theorem step?_joined_single (word empty : String) {c : Condition} (hread : Recovers read? c) :
    step? read? ((joined word empty (renderAll [c])).toList ++ rest) = some (.or [c.normal], rest) := by
  rw [toList_joined word empty (by simp), List.map_singleton, List.intercalate_singleton, List.append_assoc, List.append_assoc,
    step?_group]
  exact group?_single hread

/-- A parenthesis with several members is what its first two are read as. -/
theorem step?_joined (word empty : String) (c : Condition) {cs : List Condition} (hcs : cs ≠ []) :
    step? read? ((joined word empty (renderAll (c :: cs))).toList ++ rest) =
      group? read? (c.render.toList ++ (word.toList ++ (word.toList.intercalate (cs.map (String.toList ∘ render)) ++
        (")".toList ++ rest)))) := by
  obtain ⟨d, cs, rfl⟩ := List.exists_cons_of_ne_nil hcs
  rw [toList_joined word empty (by simp), List.map_cons, List.map_cons, List.intercalate_cons_cons, ← List.map_cons]
  simp only [List.append_assoc, step?_group]
  rfl

theorem recovers_and {cs : List Condition} (hread : ∀ c ∈ cs, Recovers read? c) : Recovers (step? read?) (.and cs) := by
  intro rest hrest
  rw [render, normal, normalAll_eq_map]
  match cs with
  | [] => exact recovers_true rest hrest
  | [c] => exact step?_joined_single _ _ (hread c (by simp))
  | c :: d :: cs =>
    rw [step?_joined _ _ c (by simp)]
    exact group?_and (by simp) hread

theorem recovers_or {cs : List Condition} (hread : ∀ c ∈ cs, Recovers read? c) : Recovers (step? read?) (.or cs) := by
  intro rest hrest
  rw [render, normal, normalAll_eq_map]
  match cs with
  | [] => exact recovers_false rest hrest
  | [c] => exact step?_joined_single _ _ (hread c (by simp))
  | c :: d :: cs =>
    rw [step?_joined _ _ c (by simp)]
    exact group?_or (by simp) hread

end

/-! ## The reader recovers every condition -/

theorem length_lt_joined (word empty : String) {c : Condition} {cs : List Condition} (h : c ∈ cs) :
    c.render.toList.length < (joined word empty (renderAll cs)).toList.length := by
  have hle := length_le_length_intercalate word.toList (List.mem_map_of_mem (f := String.toList ∘ render) h)
  rw [toList_joined word empty (List.ne_nil_of_mem h), List.length_append, List.length_append]
  have hopen : "(".toList.length = 1 := rfl
  simp only [Function.comp_apply] at hle
  omega

/-- A reader that goes as deep as the text is long recovers the condition, since a form's text is longer than the texts of the
conditions inside. -/
theorem recovers : ∀ (depth : Nat) {c : Condition}, c.Plain → c.render.toList.length ≤ depth →
    Recovers (condition? depth) c
  | 0, c, _, hdepth => absurd (List.length_eq_zero_iff.mp (Nat.le_zero.mp hdepth)) (render_ne_nil c)
  | depth + 1, .true, _, _ => recovers_true
  | depth + 1, .false, _, _ => recovers_false
  | depth + 1, .compare v attr op value, hc, _ => recovers_compare hc.1 hc.2.1 op hc.2.2
  | depth + 1, .isIn v attr values, hc, _ => recovers_isIn hc.1 hc.2.1 hc.2.2
  | depth + 1, .isNull v attr, hc, _ => recovers_isNull hc.1 hc.2
  | depth + 1, .and cs, hc, hdepth => by
    refine recovers_and fun c h => recovers depth (allPlain_iff.mp hc c h) ?_
    have hlt := length_lt_joined " AND " "true" h
    rw [render] at hdepth
    omega
  | depth + 1, .or cs, hc, hdepth => by
    refine recovers_or fun c h => recovers depth (allPlain_iff.mp hc c h) ?_
    have hlt := length_lt_joined " OR " "false" h
    rw [render] at hdepth
    omega
  | depth + 1, .not c, hc, hdepth => by
    refine recovers_not (recovers depth hc ?_)
    have hword : "NOT (".toList.length = 5 := rfl
    simp only [render, String.toList_append, List.length_append] at hdepth
    omega
  | depth + 1, .quantified quantifier pattern predicate, hc, hdepth => by
    refine recovers_quantified quantifier hc.1 (recovers depth hc.2 ?_)
    have hopen : "(".toList.length = 1 := rfl
    simp only [render, String.toList_append, List.length_append] at hdepth
    omega

end Condition.Reader

namespace Condition

/-- The text of a plain condition is read as the condition's normal form. -/
theorem parse?_render {c : Condition} (hc : c.Plain) : Reader.parse? c.render = some c.normal := by
  have hread := Reader.recovers _ hc (Nat.le_refl _) [] (by simp [Reader.Ends])
  rw [List.append_nil] at hread
  rw [Reader.parse?, hread]

/-! ## Normal forms -/

theorem render_conjunction (cs : List Condition) : (conjunction cs).render = (Condition.and cs).render := by
  match cs with
  | [] => rfl
  | [_] => rfl
  | _ :: _ :: _ => rfl

theorem render_disjunction (cs : List Condition) : (disjunction cs).render = (Condition.or cs).render := by
  match cs with
  | [] => rfl
  | _ :: _ => rfl

mutual

/-- A condition in normal form has the text it had before. -/
theorem render_normal (c : Condition) : c.normal.render = c.render := by
  match c with
  | .true => rfl
  | .false => rfl
  | .compare .. => rfl
  | .isIn .. => rfl
  | .isNull .. => rfl
  | .and cs => rw [normal, render_conjunction, render, render, renderAll_normalAll cs]
  | .or cs => rw [normal, render_disjunction, render, render, renderAll_normalAll cs]
  | .not c => rw [normal, render, render, render_normal c]
  | .quantified _ _ predicate => rw [normal, render, render, render_normal predicate]

theorem renderAll_normalAll (cs : List Condition) : renderAll (normalAll cs) = renderAll cs := by
  match cs with
  | [] => rfl
  | c :: cs => rw [normalAll, renderAll, renderAll, render_normal c, renderAll_normalAll cs]

end

theorem render_eq_of_normal_eq {c d : Condition} (h : c.normal = d.normal) : c.render = d.render := by
  rw [← render_normal c, ← render_normal d, h]

end Condition

namespace Graph

theorem evaluate_conjunction (g : Graph) (cs : List Condition) (bindings : Bindings) :
    g.evaluate (Condition.conjunction cs) bindings = evaluateAnd g cs bindings := by
  match cs with
  | [] => simp [Condition.conjunction, evaluate, evaluateAnd]
  | [c] =>
    rw [Condition.conjunction, evaluate, evaluateAnd, evaluateOr]
    cases g.evaluate c bindings with
    | mk result after => cases result <;> rfl
  | _ :: _ :: _ => simp [Condition.conjunction, evaluate]

theorem evaluate_disjunction (g : Graph) (cs : List Condition) (bindings : Bindings) :
    g.evaluate (Condition.disjunction cs) bindings = evaluateOr g cs bindings := by
  match cs with
  | [] => simp [Condition.disjunction, evaluate, evaluateOr]
  | _ :: _ => simp [Condition.disjunction, evaluate]

mutual

/-- A condition in normal form means what it meant before, to the bindings that are left behind. -/
theorem evaluate_normal (g : Graph) (c : Condition) (bindings : Bindings) :
    g.evaluate c.normal bindings = g.evaluate c bindings := by
  match c with
  | .true => rfl
  | .false => rfl
  | .compare .. => rfl
  | .isIn .. => rfl
  | .isNull .. => rfl
  | .and cs => rw [Condition.normal, evaluate_conjunction, evaluate, (evaluateAll_normalAll g cs bindings).1]
  | .or cs => rw [Condition.normal, evaluate_disjunction, evaluate, (evaluateAll_normalAll g cs bindings).2]
  | .not c => rw [Condition.normal, evaluate, evaluate, evaluate_normal g c bindings]
  | .quantified _ _ predicate =>
    have hpredicate := evaluate_normal g predicate
    rw [Condition.normal, evaluate, evaluate]
    simp only [hpredicate]

theorem evaluateAll_normalAll (g : Graph) (cs : List Condition) (bindings : Bindings) :
    evaluateAnd g (Condition.normalAll cs) bindings = evaluateAnd g cs bindings ∧
      evaluateOr g (Condition.normalAll cs) bindings = evaluateOr g cs bindings := by
  match cs with
  | [] => exact ⟨rfl, rfl⟩
  | c :: cs =>
    have hothers := evaluateAll_normalAll g cs
    simp only [Condition.normalAll, evaluateAnd, evaluateOr, evaluate_normal g c bindings, (hothers _).1, (hothers _).2, and_self]

end

end Graph

/-! ## One condition for each text -/

namespace Condition

/-- The text of a plain condition determines it. A reader recovers from the text the condition in normal form: an empty
conjunction is true, an empty disjunction false, and a conjunction of one the disjunction of that one. So plain conditions have
the same text exactly when their normal forms are the same, and then they evaluate alike on every graph with every bindings. -/
theorem recovered_from_text (c : Condition) (hc : c.Plain) :
    Reader.parse? c.render = some c.normal ∧
    ∀ d : Condition, d.Plain →
      (c.render = d.render ↔ c.normal = d.normal) ∧
      (c.render = d.render → ∀ (g : Graph) (bindings : Bindings), g.evaluate c bindings = g.evaluate d bindings) := by
  refine ⟨parse?_render hc, fun d hd => ?_⟩
  have hiff : c.render = d.render ↔ c.normal = d.normal := by
    constructor
    · intro h
      have hread := parse?_render hc
      rw [h, parse?_render hd] at hread
      exact (Option.some.inj hread).symm
    · exact render_eq_of_normal_eq
  refine ⟨hiff, fun h g bindings => ?_⟩
  rw [← Graph.evaluate_normal g c, hiff.mp h, Graph.evaluate_normal g d]

/-- A comparison with a string that goes on like the query it would stand in. -/
def Example.quoted : Condition := .compare ⟨"n"⟩ "title" .eq (.string "x\x27 OR NOT (n.title = \x27y")

/-- The string is read as a string, and a conjunction of the comparison alone as the disjunction with the same text. -/
theorem string_with_query_text : (Condition.and [Example.quoted]).Plain ∧
    Reader.parse? (Condition.and [Example.quoted]).render = some (.or [Example.quoted]) ∧
    (Condition.and [Example.quoted]).render = (Condition.or [Example.quoted]).render ∧
    ∀ (g : Graph) (bindings : Bindings),
      g.evaluate (.and [Example.quoted]) bindings = g.evaluate (.or [Example.quoted]) bindings := by
  have hplain : Example.quoted.Plain := ⟨rfl, rfl, trivial⟩
  obtain ⟨hread, hsame⟩ := recovered_from_text (.and [Example.quoted]) ⟨hplain, trivial⟩
  obtain ⟨hiff, hevaluate⟩ := hsame (.or [Example.quoted]) ⟨hplain, trivial⟩
  have htext := hiff.mpr rfl
  exact ⟨⟨hplain, trivial⟩, hread, htext, hevaluate htext⟩

end Condition

end EntityGraph
