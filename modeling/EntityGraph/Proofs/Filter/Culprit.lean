import EntityGraph.Proofs.Filter.Places

/-!
# The culprit that a refused filter is blamed on

A filter is read part by part, and refused at the first place that offends: `Schema.Fails` says what the error is, which steps are
on the stack then, and what was read before. Each reader finds that what it reads conforms to its position or fails so
(`Filter.parseAt_judges`). Hence the steps that are on the stack when a filter is refused lead to the place that is blamed, and
every place that is read before it fits its position (`FilterSchema.parse_error_culprit`).
-/

namespace EntityGraph

namespace Schema

variable {schema : Schema} {p q : Position} {base path stack : Path} {j : Json} {e : FilterError}

/-! ## The first offence -/

/-- A part of a value is reached if the parts before it conform. -/
def Reaches (schema : Schema) (p : Position) (j : Json) (segment : Segment) (part : Json) : Prop :=
  ∃ before after, j.parts = before ++ (segment, part) :: after ∧ ∀ earlier ∈ before, schema.PartConforms p earlier

/-- A value at the end of a path fails with an error, with the steps to the offence on the stack: it does not fit, or the first
part that does not conform is under an unknown key or fails itself. -/
inductive Fails (schema : Schema) : Position → Path → Json → Path → FilterError → Prop
  | misfit {p : Position} {base : Path} {j : Json} :
    ¬ p.Fits j → Fails schema p base j base (.invalidValue base.render p.expected j.typeName)
  | unknown {p : Position} {base : Path} {j part : Json} {key definition : String} :
    p.Fits j → schema.Reaches p j (.key key) part → schema.next? p (.key key) = none → p.definition? = some definition →
      Fails schema p base j (base ++ [.key key]) (.unknownField key definition (base ++ [Segment.key key]).render)
  | inside {p q : Position} {base stack : Path} {j part : Json} {segment : Segment} {e : FilterError} :
    p.Fits j → schema.Reaches p j segment part → schema.next? p segment = some q →
      Fails schema q (base ++ [segment]) part stack e → Fails schema p base j stack e

/-- What an error blames a value for, and the path to it: the value at a place does not fit its position, or an object has a key
that is not offered at its position. -/
inductive Blames (schema : Schema) (root : Position) (j : Json) (base : Path) : Path → FilterError → Prop
  | value {path : Path} {position : Position} {place : Json} :
    schema.position? root path = some position → j.at? path = some place → ¬ position.Fits place →
      Blames schema root j base path (.invalidValue (base ++ path).render position.expected place.typeName)
  | key {path : Path} {position : Position} {definition field : String} {value : Json} :
    schema.position? root path = some position → position.definition? = some definition →
      j.at? (path ++ [.key field]) = some value → schema.next? position (.key field) = none →
      Blames schema root j base (path ++ [.key field])
        (.unknownField field definition (base ++ (path ++ [Segment.key field])).render)

/-- What a part is blamed for, the value that it is a part of is blamed for. -/
theorem Blames.inside {segment : Segment} {part : Json} (hpart : j.part? segment = some part)
    (hnext : schema.next? p segment = some q) (h : schema.Blames q part (base ++ [segment]) path e) :
    schema.Blames p j base (segment :: path) e := by
  have hplace : ∀ path, j.at? (segment :: path) = part.at? path := fun path => by rw [Json.at?_cons, hpart]; rfl
  have hposition : ∀ path, schema.position? p (segment :: path) = schema.position? q path :=
    fun path => by rw [position?_cons, hnext]; rfl
  cases h with
  | value hp hvalue hmisfit =>
    rw [List.append_assoc]
    exact .value ((hposition _).trans hp) ((hplace _).trans hvalue) hmisfit
  | key hp hdefinition hvalue hunknown =>
    rw [List.append_assoc]
    exact .key ((hposition _).trans hp) hdefinition ((hplace _).trans hvalue) hunknown

/-- A part that is reached is there. What is read before a place in it fits, if this holds in the part. -/
theorem Reaches.earlier {segment : Segment} {part : Json} (h : schema.Reaches p j segment part) (hf : p.Fits j)
    (hj : j.InKeyOrder) :
    j.part? segment = some part ∧ part.InKeyOrder ∧
      ∀ path, (∀ other place, part.at? other = some place → other.Before path → schema.FitsAt p (segment :: other) place) →
        ∀ other place, j.at? other = some place → other.Before (segment :: path) → schema.FitsAt p other place := by
  obtain ⟨before, after, hparts, hconform⟩ := h
  obtain ⟨hpart, hbefore⟩ := hj.part?_eq hparts
  refine ⟨hpart, hj.of_mem_parts (Json.mem_parts_of_part? hpart), fun path hwithin other place hplace hlt => ?_⟩
  cases hlt with
  | nil =>
    obtain rfl := Option.some.inj (j.at?_nil.symm.trans hplace)
    exact fitsAt_nil hf
  | rel hlt =>
    rw [Json.at?_cons, Option.bind_eq_some_iff] at hplace
    obtain ⟨value, hvalue, hplace⟩ := hplace
    exact (hconform _ (hbefore _ value hlt hvalue)).fitsAt hplace
  | cons hlt =>
    rw [Json.at?_cons, hpart] at hplace
    exact hwithin _ place hplace hlt

/-- A value that fails is blamed for the place in it that the stack leads to, and what is read before this place fits. -/
theorem Fails.exists_culprit (h : schema.Fails p base j stack e) (hj : j.InKeyOrder) :
    ∃ path, stack = base ++ path ∧ schema.Blames p j base path e ∧
      ∀ other place, j.at? other = some place → other.Before path → schema.FitsAt p other place := by
  induction h with
  | @misfit p base j hmisfit =>
    have hblame : schema.Blames p j base [] _ := .value rfl j.at?_nil hmisfit
    rw [List.append_nil] at hblame
    exact ⟨[], base.append_nil.symm, hblame, fun _ _ _ hlt => nomatch hlt⟩
  | @unknown p base j part key definition hfits hreach hnone hdefinition =>
    obtain ⟨hpart, _, hearlier⟩ := hreach.earlier hfits hj
    have hplace : j.at? ([] ++ [.key key]) = some part := by
      rw [List.nil_append, Json.at?_cons, hpart]
      rfl
    exact ⟨[.key key], rfl, .key rfl hdefinition hplace hnone, hearlier [] fun _ _ _ hlt => nomatch hlt⟩
  | inside hfits hreach hnext _ ih =>
    obtain ⟨hpart, hordered, hearlier⟩ := hreach.earlier hfits hj
    obtain ⟨path, rfl, hblame, hbefore⟩ := ih hordered
    refine ⟨_ :: path, List.append_assoc .., hblame.inside hpart hnext, hearlier path fun other place hplace hlt => ?_⟩
    exact (hbefore other place hplace hlt).inside hnext

/-- A value that fails does not conform. -/
theorem Fails.not_conforms (h : schema.Fails p base j stack e) (hj : j.InKeyOrder) : ¬ schema.Conforms p j := by
  intro hconforms
  obtain ⟨path, _, hblame, _⟩ := h.exists_culprit hj
  cases hblame with
  | value hposition hplace hmisfit =>
    obtain ⟨position, hfound, hfits⟩ := hconforms path _ hplace
    obtain rfl := Option.some.inj (hposition.symm.trans hfound)
    exact hmisfit hfits
  | key hposition _ hplace hunknown =>
    obtain ⟨position, hfound, _⟩ := hconforms _ _ hplace
    rw [position?_concat hposition, hunknown] at hfound
    cases hfound

/-! ## Readers that find the first offence -/

open EntityGraph.Filter (Reader)
open EntityGraph.Filter.Reader

variable {α β γ : Type}

/-- A reader is right about the value at the end of a path: the value conforms if it is read. If it is refused, it fails with the
error and the stack that the reader leaves. -/
def Judges (schema : Schema) (p : Position) (base : Path) (j : Json) (m : Reader α) : Prop :=
  match m.run base with
  | (.ok _, _) => schema.Conforms p j
  | (.error e, stack) => schema.Fails p base j stack e

/-- The same of a reader of the last parts of a value: the value fails with its error if the parts before them conform. -/
def JudgesParts (schema : Schema) (p : Position) (base : Path) (parts : List (Segment × Json)) (m : Reader α) : Prop :=
  match m.run base with
  | (.ok _, _) => ∀ part ∈ parts, schema.PartConforms p part
  | (.error e, stack) => ∀ j before, p.Fits j → j.parts = before ++ parts → (∀ part ∈ before, schema.PartConforms p part) →
      schema.Fails p base j stack e

section

variable {m : Reader α} {a : α} {parts : List (Segment × Json)}

theorem judges_iff_of_ok (h : m.run base = (.ok a, stack)) : schema.Judges p base j m ↔ schema.Conforms p j := by
  rw [Judges, h]

theorem judges_iff_of_error (h : m.run base = (.error e, stack)) :
    schema.Judges p base j m ↔ schema.Fails p base j stack e := by
  rw [Judges, h]

theorem judgesParts_iff_of_ok (h : m.run base = (.ok a, stack)) :
    schema.JudgesParts p base parts m ↔ ∀ part ∈ parts, schema.PartConforms p part := by
  rw [JudgesParts, h]

theorem judgesParts_iff_of_error (h : m.run base = (.error e, stack)) :
    schema.JudgesParts p base parts m ↔ ∀ j before, p.Fits j → j.parts = before ++ parts →
      (∀ part ∈ before, schema.PartConforms p part) → schema.Fails p base j stack e := by
  rw [JudgesParts, h]

theorem Judges.misfit (h : ¬ p.Fits j) : schema.Judges p base j (invalid p.expected j : Reader α) := Fails.misfit h

theorem Judges.bind_pure (h : schema.Judges p base j m) (f : α → β) :
    schema.Judges p base j (m >>= fun a => pure (f a)) := by
  rcases hm : m.run base with ⟨e | a, stack⟩
  · exact (judges_iff_of_error (run_bind_error hm)).mpr ((judges_iff_of_error hm).mp h)
  · have hrun : (m >>= fun a => pure (f a)).run base = (.ok (f a), base) := run_bind_ok hm
    exact (judges_iff_of_ok hrun).mpr ((judges_iff_of_ok hm).mp h)

/-- A value that fits is judged by its parts. -/
theorem JudgesParts.judges (h : schema.JudgesParts p base j.parts m) (hf : p.Fits j) : schema.Judges p base j m := by
  rcases hm : m.run base with ⟨e | a, stack⟩
  · exact (judges_iff_of_error hm).mpr ((judgesParts_iff_of_error hm).mp h j [] hf rfl (List.forall_mem_nil _))
  · exact (judges_iff_of_ok hm).mpr (conforms_of_parts hf ((judgesParts_iff_of_ok hm).mp h))

end

namespace JudgesParts

variable {segment : Segment} {part : Json} {rest : List (Segment × Json)}

theorem nil (a : α) : schema.JudgesParts p base [] (pure a : Reader α) := List.forall_mem_nil _

/-- Parts are read one after the other. -/
theorem cons {first : Reader α} {others : Reader β} (hnext : schema.next? p segment = some q)
    (hfirst : schema.Judges q (base ++ [segment]) part first) (hothers : schema.JudgesParts p base rest others)
    (f : α → β → γ) :
    schema.JudgesParts p base ((segment, part) :: rest)
      (inside segment first >>= fun a => others >>= fun b => pure (f a b)) := by
  rcases hm : first.run (base ++ [segment]) with ⟨e | a, stack⟩
  · have hfails := (judges_iff_of_error hm).mp hfirst
    refine (judgesParts_iff_of_error (run_bind_error (run_inside_error hm))).mpr fun j before hf hparts hbefore => ?_
    exact .inside hf ⟨before, rest, hparts, hbefore⟩ hnext hfails
  · have hpart : schema.PartConforms p (segment, part) := ⟨q, hnext, (judges_iff_of_ok hm).mp hfirst⟩
    have hrun : (inside segment first >>= fun a => others >>= fun b => pure (f a b)).run base =
        (others >>= fun b => pure (f a b)).run base := run_bind_ok (run_inside_ok hm)
    rcases ho : others.run base with ⟨e | b, stack⟩
    · refine (judgesParts_iff_of_error (hrun.trans (run_bind_error ho))).mpr fun j before hf hparts hbefore => ?_
      refine (judgesParts_iff_of_error ho).mp hothers j (before ++ [(segment, part)]) hf ?_ ?_
      · rw [hparts, List.append_assoc]
        rfl
      · exact List.forall_mem_append.mpr ⟨hbefore, List.forall_mem_singleton.mpr hpart⟩
    · have hok : (others >>= fun b => pure (f a b)).run base = (.ok (f a b), base) := run_bind_ok ho
      exact (judgesParts_iff_of_ok (hrun.trans hok)).mpr
        (List.forall_mem_cons.mpr ⟨hpart, (judgesParts_iff_of_ok ho).mp hothers⟩)

/-- A key that is not offered is the first offence. -/
theorem unknown {key definition : String} (hnext : schema.next? p (.key key) = none) (hd : p.definition? = some definition)
    (f : α → Reader β) :
    schema.JudgesParts p base ((.key key, part) :: rest)
      (inside (.key key) (Reader.unknown key definition : Reader α) >>= f) :=
  fun _ before hf hparts hbefore => .unknown hf ⟨before, rest, hparts, hbefore⟩ hnext hd

theorem singleton {m : Reader α} (hnext : schema.next? p segment = some q)
    (h : schema.Judges q (base ++ [segment]) part m) : schema.JudgesParts p base [(segment, part)] (inside segment m) := by
  rcases hm : m.run (base ++ [segment]) with ⟨e | a, stack⟩
  · have hfails := (judges_iff_of_error hm).mp h
    refine (judgesParts_iff_of_error (run_inside_error hm)).mpr fun j before hf hparts hbefore => ?_
    exact .inside hf ⟨before, [], hparts, hbefore⟩ hnext hfails
  · refine (judgesParts_iff_of_ok (run_inside_ok hm)).mpr (List.forall_mem_singleton.mpr ?_)
    exact ⟨q, hnext, (judges_iff_of_ok hm).mp h⟩

end JudgesParts

end Schema

namespace Filter

open Reader

variable {schema : Schema} {filters : FilterSchema}

/-! ## Literals and tests -/

theorem parseLiteral_judges (type : AttributeType) (base : Path) (j : Json) :
    schema.Judges (.literal type) base j (parseLiteral type j) := by
  rw [parseLiteral]
  cases hl : literal? type j with
  | some value =>
    have hread := literal?_eq_some_iff.mp hl
    refine Schema.conforms_of_parts (.literal hread) ?_
    cases hread <;> exact List.forall_mem_nil _
  | none =>
    refine Schema.Judges.misfit fun hfits => ?_
    cases hfits with
    | literal hread =>
      rw [literal?_eq_some_iff.mpr hread] at hl
      cases hl

theorem parseLiterals_judges (type : AttributeType) (base : Path) (index : Nat) (items : List Json) :
    schema.JudgesParts (.literals type) base (Json.itemParts index items) (parseLiterals type index items) := by
  induction items generalizing index with
  | nil => exact .nil _
  | cons item items ih => exact .cons rfl (parseLiteral_judges type _ item) (ih (index + 1)) List.cons

theorem parsePredicate_judges (type : AttributeType) (base : Path) (op : Operator) (j : Json) :
    schema.Judges (.argument type op) base j (parsePredicate type op j) := by
  cases op with
  | isIn =>
    cases j with
    | list items => exact ((parseLiterals_judges type base 0 items).judges (.literals type items)).bind_pure _
    | _ => exact Schema.Judges.misfit nofun
  | isNull =>
    cases j with
    | bool b => exact Schema.conforms_of_parts (.flag b) (List.forall_mem_nil _)
    | _ => exact Schema.Judges.misfit nofun
  | equals | notEquals | lt | lte | gt | gte | contains | startsWith | endsWith =>
    exact (parseLiteral_judges type base j).bind_pure _

theorem supported?_eq_find? (operators : List Operator) (key : String) :
    supported? operators key = operators.find? fun op => op.name == key := by
  refine Option.ext fun op => ?_
  rw [supported?_eq_some_iff]
  constructor
  · rintro ⟨hmem, rfl⟩
    cases hf : operators.find? fun other => other.name == op.name with
    | none => simpa using List.find?_eq_none.mp hf op hmem
    | some other => rw [Operator.name_injective (by simpa using List.find?_some hf : other.name = op.name)]
  · intro hf
    exact ⟨List.mem_of_find?_eq_some hf, by simpa using List.find?_some hf⟩

theorem parsePredicates_judges {decl : AttributeDecl} {operators : List Operator}
    (ho : decl.type.operators? = some operators) (base : Path) (members : List (String × Json)) :
    schema.JudgesParts (.tests decl) base (Json.memberParts members) (parsePredicates decl operators members) := by
  induction members with
  | nil => exact .nil _
  | cons member rest ih =>
    obtain ⟨key, j⟩ := member
    have hnext : schema.next? (.tests decl) (.key key) = (supported? operators key).map (.argument decl.type) := by
      rw [Schema.next?, ho, supported?_eq_find?]
      rfl
    rw [parsePredicates, parseTest]
    cases hs : supported? operators key with
    | none =>
      rw [hs] at hnext
      exact .unknown hnext rfl _
    | some op =>
      rw [hs] at hnext
      exact .cons hnext (parsePredicate_judges decl.type _ op j) ih List.cons

theorem parseScalar_judges {decl : AttributeDecl} {operators : List Operator}
    (ho : decl.type.operators? = some operators) (base : Path) (j : Json) :
    schema.Judges (.tests decl) base j (parseScalar decl operators j) := by
  cases j with
  | object members => exact ((parsePredicates_judges ho base members).judges (.tests decl members)).bind_pure _
  | _ => exact Schema.Judges.misfit nofun

/-! ## Filters -/

/-- A key that does not combine filters leads to the position of the field of the definition. -/
theorem ofKey?_eq (hs : schema.WellFormed) {name : String} {kind : EntityKind} (hk : schema.kinds[name]? = some kind)
    {definition : FilterDefinition} (hd : FilterDefinition.ofKind kind = .ok definition) {key : String}
    (hkey : key ∉ reservedFieldNames) : Position.ofKey? kind key = definition.fields[key]?.map FilterField.position := by
  simp only [reservedFieldNames, List.mem_cons, List.not_mem_nil, or_false, not_or] at hkey
  rw [Position.ofKey?, if_neg (by simp [hkey]), if_neg hkey.2.2]
  have hfields : ∀ field, definition.fields[key]? = some field ↔ _ := fun _ => FilterSchema.fields_eq_some_iff hs hk hd
  cases ha : kind.attribute? key with
  | some decl =>
    have hmem := List.mem_of_find?_eq_some ha
    have hname : decl.name = key := by simpa using List.find?_some ha
    obtain ⟨operators, ho⟩ := FilterSchema.operators_of_ofKind hd decl hmem
    rw [(hfields (.scalar decl operators)).mpr ⟨hname, Or.inl ⟨decl, hmem, operators, ho, rfl⟩⟩]
    rfl
  | none =>
    cases hr : kind.relationship? key with
    | some r =>
      have hname : r.field = key := by simpa using List.find?_some hr
      rw [(hfields (.related r)).mpr ⟨hname, Or.inr ⟨r, List.mem_of_find?_eq_some hr, rfl⟩⟩]
      rfl
    | none =>
      cases hf : definition.fields[key]? with
      | none => rfl
      | some field =>
        obtain ⟨hname, ⟨decl, hmem, _, _, rfl⟩ | ⟨r, hmem, rfl⟩⟩ := (hfields field).mp hf
        · exact absurd hname (by simpa [FilterField.name] using List.find?_eq_none.mp ha decl hmem)
        · exact absurd hname (by simpa [FilterField.name] using List.find?_eq_none.mp hr r hmem)

variable (hs : schema.WellFormed) (hb : FilterSchema.build schema = .ok filters)

include hs hb

-- The hypotheses are passed along the mutual recursion, where the linter does not look.
set_option linter.unusedSectionVars false

mutual

/-- A value at the position of a filter is judged right. -/
theorem parseAt_judges {name : String} {kind : EntityKind} (hk : schema.kinds[name]? = some kind)
    {definition : FilterDefinition} (hd : FilterDefinition.ofKind kind = .ok definition) (base : Path) (j : Json) :
    schema.Judges (.filter kind) base j (parseAt filters definition j) := by
  match j with
  | .object members =>
    rw [parseAt]
    exact (parseMembers_judges hk hd (fun _ => rfl) rfl base members).judges (.filter kind members)
  | .null | .bool _ | .int _ | .float _ | .string _ | .list _ =>
    rw [parseAt]
    · exact Schema.Judges.misfit nofun
    · exact nofun

/-- So are the members of an object that is a filter, at the position of a filter or of a negated one. -/
theorem parseMembers_judges {name : String} {kind : EntityKind} (hk : schema.kinds[name]? = some kind)
    {definition : FilterDefinition} (hd : FilterDefinition.ofKind kind = .ok definition) {p : Position}
    (hnext : ∀ key, schema.next? p (.key key) = Position.ofKey? kind key)
    (hp : p.definition? = some (kind.name ++ "FilterInput")) (base : Path) (members : List (String × Json)) :
    schema.JudgesParts p base (Json.memberParts members) (parseMembers filters definition members) := by
  match members with
  | [] => exact .nil _
  | (key, j) :: rest =>
    have hrest := parseMembers_judges hk hd hnext hp base rest
    have hlist := parseList_judges hk hd (base ++ [.key key]) j
    have hsingle := parseSingle_judges hk hd (base ++ [.key key]) j
    have hrelated := fun r hr => parseRelated_judges hk (r := r) hr (base ++ [.key key]) j
    -- Whichever reader is chosen for a member, the others are read after it.
    have hcons : ∀ {q : Position} {member : Reader Filter}, Position.ofKey? kind key = some q →
        schema.Judges q (base ++ [.key key]) j member →
        schema.JudgesParts p base ((.key key, j) :: Json.memberParts rest) (inside (.key key) member >>= fun entries =>
          parseMembers filters definition rest >>= fun others => pure (entries ++ others)) :=
      fun hq hmember => .cons ((hnext key).trans hq) hmember hrest (· ++ ·)
    rw [parseMembers]
    split
    · next hkey => exact hcons (by rw [hkey]; rfl) (hlist.bind_pure _)
    · next hand =>
      split
      · next hkey => exact hcons (by rw [hkey]; rfl) (hlist.bind_pure _)
      · next hor =>
        split
        · next hkey => exact hcons (by rw [hkey]; rfl) (hsingle.bind_pure _)
        · next hnot =>
          have hkey : Position.ofKey? kind key = _ := ofKey?_eq hs hk hd (by simp [reservedFieldNames, hand, hor, hnot])
          cases hf : definition.fields[key]? with
          | none =>
            rw [hf] at hkey
            rw [← FilterSchema.ofKind_kind hd] at hp
            exact .unknown ((hnext key).trans hkey) hp _
          | some field =>
            rw [hf] at hkey
            obtain ⟨_, ⟨decl, _, operators, ho, rfl⟩ | ⟨r, hr, rfl⟩⟩ := (FilterSchema.fields_eq_some_iff hs hk hd).mp hf
            · exact hcons hkey ((parseScalar_judges ho _ j).bind_pure _)
            · exact hcons hkey (hrelated r hr)

theorem parseList_judges {name : String} {kind : EntityKind} (hk : schema.kinds[name]? = some kind)
    {definition : FilterDefinition} (hd : FilterDefinition.ofKind kind = .ok definition) (base : Path) (j : Json) :
    schema.Judges (.filters kind) base j (parseList filters definition j) := by
  match j with
  | .list items =>
    rw [parseList]
    exact (parseItems_judges hk hd base 0 items).judges (.filters kind items)
  | .null | .bool _ | .int _ | .float _ | .string _ | .object _ =>
    rw [parseList]
    · exact Schema.Judges.misfit nofun
    · exact nofun

theorem parseItems_judges {name : String} {kind : EntityKind} (hk : schema.kinds[name]? = some kind)
    {definition : FilterDefinition} (hd : FilterDefinition.ofKind kind = .ok definition) (base : Path) (index : Nat)
    (items : List Json) :
    schema.JudgesParts (.filters kind) base (Json.itemParts index items)
      (parseItems filters definition index items) := by
  match items with
  | [] => exact .nil _
  | j :: js =>
    have hfirst := parseAt_judges hk hd (base ++ [.index index]) j
    have hothers := parseItems_judges hk hd base (index + 1) js
    exact .cons rfl hfirst hothers List.cons

theorem parseSingle_judges {name : String} {kind : EntityKind} (hk : schema.kinds[name]? = some kind)
    {definition : FilterDefinition} (hd : FilterDefinition.ofKind kind = .ok definition) (base : Path) (j : Json) :
    schema.Judges (.negated kind) base j (parseSingle filters definition j) := by
  match j with
  | .list [item] =>
    have hitem := parseAt_judges hk hd (base ++ [.index 0]) item
    rw [parseSingle]
    exact (Schema.JudgesParts.singleton rfl hitem).judges (.negatedItem kind item)
  | .object members =>
    rw [parseSingle]
    exact (parseMembers_judges hk hd (fun _ => rfl) rfl base members).judges (.negated kind members)
  | .null | .bool _ | .int _ | .float _ | .string _ | .list [] | .list (_ :: _ :: _) =>
    rw [parseSingle]
    · exact Schema.Judges.misfit nofun
    · exact nofun
    · exact nofun

theorem parseRelated_judges {name : String} {kind : EntityKind} (hk : schema.kinds[name]? = some kind) {r : Relationship}
    (hr : r ∈ kind.relationships) (base : Path) (j : Json) :
    schema.Judges (.quantifiers r) base j (parseRelated filters r j) := by
  obtain ⟨related, hrelated, _⟩ := hs.related hk r hr
  match j with
  | .object members =>
    rw [parseRelated]
    exact (parseQuantifiers_judges hrelated base members).judges (.quantifiers r members)
  | .null | .bool _ | .int _ | .float _ | .string _ | .list _ =>
    rw [parseRelated]
    · exact Schema.Judges.misfit nofun
    · exact nofun

theorem parseQuantifiers_judges {related : EntityKind} {r : Relationship}
    (hk : schema.kinds[r.relatedKind]? = some related) (base : Path) (members : List (String × Json)) :
    schema.JudgesParts (.quantifiers r) base (Json.memberParts members) (parseQuantifiers filters r members) := by
  match members with
  | [] => exact .nil _
  | (key, j) :: rest =>
    obtain ⟨definition, hdefinition, hd⟩ := FilterSchema.definition_eq_ok hs hb hk
    have hfilter := parseAt_judges hk hd (base ++ [.key key]) j
    have hrest := parseQuantifiers_judges hk base rest
    have hnext : schema.next? (.quantifiers r) (.key key) = (Quantifier.ofName? key).map fun _ => .filter related := by
      rw [Schema.next?, hk]
      cases Quantifier.ofName? key <;> rfl
    rw [parseQuantifiers]
    cases hq : Quantifier.ofName? key with
    | none =>
      rw [hq] at hnext
      exact .unknown hnext rfl _
    | some quantifier =>
      rw [hq] at hnext
      simp only [hdefinition, lift_ok_bind]
      exact .cons hnext (hfilter.bind_pure _) hrest List.cons

end

end Filter

namespace FilterSchema

variable {schema : Schema} {filters : FilterSchema}

theorem reader_judges (hs : schema.WellFormed) (hb : FilterSchema.build schema = .ok filters) {kind : String} {k : EntityKind}
    (hk : schema.kinds[kind]? = some k) (j : Json) : schema.Judges (.filter k) [] j (filters.reader kind j) := by
  obtain ⟨definition, hdefinition, hd⟩ := definition_eq_ok hs hb hk
  rw [reader, hdefinition, Filter.Reader.lift_ok_bind]
  exact Filter.parseAt_judges hs hb hk hd [] j

theorem conforms_of_parse (hs : schema.WellFormed) (hb : FilterSchema.build schema = .ok filters) {kind : String}
    {k : EntityKind} (hk : schema.kinds[kind]? = some k) {j : Json} {filter : Filter} (h : filters.parse kind j = .ok filter) :
    schema.Conforms (.filter k) j := by
  exact (Schema.judges_iff_of_ok (Filter.Reader.run_eq_of_result h)).mp (reader_judges hs hb hk j)

theorem exists_fails_of_parse (hs : schema.WellFormed) (hb : FilterSchema.build schema = .ok filters) {kind : String}
    {k : EntityKind} (hk : schema.kinds[kind]? = some k) {j : Json} {e : FilterError} (h : filters.parse kind j = .error e) :
    ∃ stack, (filters.reader kind j).run [] = (.error e, stack) ∧ schema.Fails (.filter k) [] j stack e := by
  have hrun : (filters.reader kind j).run [] = (.error e, ((filters.reader kind j).run []).2) := Prod.ext h rfl
  exact ⟨_, hrun, (Schema.judges_iff_of_error hrun).mp (reader_judges hs hb hk j)⟩

theorem definition_eq_error (hs : schema.WellFormed) (hb : FilterSchema.build schema = .ok filters) {kind : String}
    (hk : schema.kinds[kind]? = none) : filters.definition kind = .error (.unknownKind kind) := by
  cases hd : filters.definitions[kind]? with
  | none => rw [FilterSchema.definition, hd]
  | some definition =>
    have hdefinition : filters.definition kind = .ok definition := by rw [FilterSchema.definition, hd]
    obtain ⟨k, hk'⟩ := kind_of_definition hs hb hdefinition
    rw [hk] at hk'
    cases hk'

/-- A value is accepted as a filter on a kind exactly if it conforms to the position of such a filter. -/
theorem exists_parse_eq_ok_iff (hs : schema.WellFormed) (hb : FilterSchema.build schema = .ok filters) {kind : String}
    {k : EntityKind} (hk : schema.kinds[kind]? = some k) {j : Json} (hj : j.InKeyOrder) :
    (∃ filter, filters.parse kind j = .ok filter) ↔ schema.Conforms (.filter k) j := by
  constructor
  · rintro ⟨filter, hp⟩
    exact conforms_of_parse hs hb hk hp
  · intro hconforms
    cases hp : filters.parse kind j with
    | ok filter => exact ⟨filter, rfl⟩
    | error e =>
      obtain ⟨_, _, hfails⟩ := exists_fails_of_parse hs hb hk hp
      exact absurd hconforms (hfails.not_conforms hj)

/-- When a filter on a kind is refused, the steps on the stack lead to a place that is there, for which the error blames it, and
the value at every place that is read before fits the position there. The members of the objects that are read stand in the order of
their keys (`Json.inKeyOrder_normalize`). -/
theorem parse_error_culprit {decls : List KindDecl} (hd : Schema.build decls = .ok schema)
    (hb : FilterSchema.build schema = .ok filters) {kind : String} {j : Json} (hj : j.InKeyOrder) {e : FilterError}
    (he : filters.parse kind j = .error e) :
    (schema.kinds[kind]? = none ∧ e = .unknownKind kind) ∨
      ∃ k path, schema.kinds[kind]? = some k ∧ (filters.reader kind j).run [] = (.error e, path) ∧
        schema.Blames (.filter k) j [] path e ∧
        ∀ other place, j.at? other = some place → other.Before path → schema.FitsAt (.filter k) other place := by
  have hs := Schema.wellFormed_of_build hd
  cases hk : schema.kinds[kind]? with
  | none =>
    have hunknown : filters.parse kind j = .error (.unknownKind kind) := by
      rw [FilterSchema.parse, reader, definition_eq_error hs hb hk]
      rfl
    exact Or.inl ⟨rfl, Except.error.inj (he.symm.trans hunknown)⟩
  | some k =>
    obtain ⟨_, hrun, hfails⟩ := exists_fails_of_parse hs hb hk he
    obtain ⟨path, hstack, hblame, hbefore⟩ := hfails.exists_culprit hj
    rw [hstack, List.nil_append] at hrun
    exact Or.inr ⟨k, path, rfl, hrun, hblame, hbefore⟩

namespace Example

/-- A filter that looks for text in the effort of a subtask. -/
def textInEffort : Json :=
  .object [("subtasks", .object [("none", .object []), ("some", .object [("effort", .object [("contains", .string "x")])])])]

theorem inKeyOrder_textInEffort : textInEffort.InKeyOrder := by
  simp only [textInEffort, Json.InKeyOrder, Json.MembersInKeyOrder, and_true, List.map_cons, List.map_nil,
    List.pairwise_singleton]
  decide

theorem parse_textInEffort : Example.filters.parse "Task" textInEffort =
    .error (.unknownField "contains" "FloatFilterInput" "subtasks.some.effort.contains") := rfl

end Example

/-- A filter with a test that its attribute does not have is blamed for the test, and for nothing that is read before it. -/
theorem text_in_effort_culprit :
    (Example.schema.kinds["Task"]? = none ∧
        FilterError.unknownField "contains" "FloatFilterInput" "subtasks.some.effort.contains" = .unknownKind "Task") ∨
      ∃ k path, Example.schema.kinds["Task"]? = some k ∧
        (Example.filters.reader "Task" Example.textInEffort).run [] =
          (.error (.unknownField "contains" "FloatFilterInput" "subtasks.some.effort.contains"), path) ∧
        Example.schema.Blames (.filter k) Example.textInEffort [] path
          (.unknownField "contains" "FloatFilterInput" "subtasks.some.effort.contains") ∧
        ∀ other place, Example.textInEffort.at? other = some place → other.Before path →
          Example.schema.FitsAt (.filter k) other place :=
  parse_error_culprit Example.build_decls Example.build_schema Example.inKeyOrder_textInEffort Example.parse_textInEffort

end FilterSchema

end EntityGraph
