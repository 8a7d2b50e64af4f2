import EntityGraph.Filter.Description
import EntityGraph.Proofs.Filter.Added

/-!
# Listed keys

Descriptions list the keys of filters: those of a filter on a kind are its combinators and fields, those under a field its operators
or quantifiers. `FilterSchema.listing?` finds what is listed at a place in a filter, and asks nothing but descriptions. A member
that is added to an accepted filter is refused for its key just if the key is not listed where it is added
(`FilterSchema.listed_keys_accepted`).
-/

namespace EntityGraph

/-! ## What is listed -/

def FieldDescription.name : FieldDescription → String
  | .scalar name .. => name
  | .relationship name .. => name

/-- A description that lists the keys of objects at a place in a filter. -/
inductive Listing
  /-- There is a filter, a filter that is negated or a list of filters that are combined. -/
  | filter (d : FilterDescription)
  /-- There is the value of a field. -/
  | field (d : FieldDescription)

namespace Listing

def keys : Listing → List String
  | .filter d => d.combinators ++ d.fields.map FieldDescription.name
  | .field (.scalar _ _ _ operators) => operators
  | .field (.relationship _ _ _ _ quantifiers) => quantifiers.map Prod.fst

def typeName : Listing → String
  | .filter d => d.typeName
  | .field (.scalar _ _ typeName _) => typeName
  | .field (.relationship _ _ typeName _ _) => typeName

end Listing

namespace FilterSchema

/-- What is listed after a step. Combined filters have what the filter has that combines them, and under an operator nothing is
listed. -/
def listNext? (filters : FilterSchema) : Listing → Segment → Option Listing
  | .filter d, .index _ => some (.filter d)
  | .filter d, .key key =>
    if key ∈ d.combinators then some (.filter d) else (d.fields.find? fun field => field.name == key).map .field
  | .field (.relationship _ relatedKind _ _ quantifiers), .key key =>
    if key ∈ quantifiers.map Prod.fst then (filters.describe relatedKind).toOption.map .filter else none
  | .field _, _ => none

/-- What is listed at the end of a path in a filter on a kind. -/
def listing? (filters : FilterSchema) (kind : String) (path : Path) : Option Listing :=
  (filters.describe kind).toOption.bind fun d => path.foldlM filters.listNext? (.filter d)

end FilterSchema

/-! ## Listings and positions -/

namespace Position

/-- Only literals can be at a position, or flags or lists of literals. -/
def Bare : Position → Prop
  | .literal _ => True
  | .literals _ => True
  | .flag => True
  | _ => False

/-- What follows a bare position is bare. -/
theorem Bare.next? {schema : Schema} {p q : Position} (hp : p.Bare) {segment : Segment} (h : schema.next? p segment = some q) :
    q.Bare := by
  match p, segment with
  | .literals type, .index _ => exact Option.some.inj h ▸ trivial
  | .literal _, _ | .flag, _ | .literals _, .key _ => cases h

theorem Bare.position? {schema : Schema} {p q : Position} (hp : p.Bare) {path : Path} (h : schema.position? p path = some q) :
    q.Bare := by
  induction path generalizing p with
  | nil => exact Option.some.inj h ▸ hp
  | cons segment path ih =>
    rw [Schema.position?_cons, Option.bind_eq_some_iff] at h
    obtain ⟨next, hnext, hq⟩ := h
    exact ih (hp.next? hnext) hq

theorem Bare.not_fits_object {p : Position} (hp : p.Bare) (members : List (String × Json)) : ¬ p.Fits (.object members) := by
  intro h
  cases h with
  | literal hread => cases hread
  | _ => exact hp

end Position

namespace Schema

variable {schema : Schema} {filters : FilterSchema} {kind : EntityKind} {definition : FilterDefinition} {l : Listing}
  {p q : Position} {key : String}

/-- What is listed where something is at a position. -/
inductive Lists (schema : Schema) : Listing → Position → Prop
  | filter {kind : EntityKind} {definition : FilterDefinition} {p : Position} :
    schema.kinds[kind.name]? = some kind → FilterDefinition.ofKind kind = .ok definition →
      p = .filter kind ∨ p = .filters kind ∨ p = .negated kind → Lists schema (.filter (.ofDefinition definition)) p
  | scalar {decl : AttributeDecl} {operators : List Operator} :
    decl.type.operators? = some operators → Lists schema (.field (.ofField (.scalar decl operators))) (.tests decl)
  | related {r : Relationship} {related : EntityKind} :
    schema.kinds[r.relatedKind]? = some related → Lists schema (.field (.ofField (.related r))) (.quantifiers r)

theorem name_ofField (field : FilterField) : (FieldDescription.ofField field).name = field.name := by
  cases field <;> rfl

/-- A field is described in the description of a definition just if it is in the definition, under its name. -/
theorem find?_fields (hs : schema.WellFormed) (hk : schema.kinds[kind.name]? = some kind)
    (hd : FilterDefinition.ofKind kind = .ok definition) (key : String) :
    (FilterDescription.ofDefinition definition).fields.find? (fun field => field.name == key) =
      definition.fields[key]?.map FieldDescription.ofField := by
  have hentry : ∀ {name : String} {field : FilterField}, definition.fields[name]? = some field →
      (FieldDescription.ofField field).name = name :=
    fun hf => (name_ofField _).trans ((FilterSchema.fields_eq_some_iff hs hk hd).mp hf).1
  cases hfind : (FilterDescription.ofDefinition definition).fields.find? fun field => field.name == key with
  | some found =>
    obtain ⟨⟨name, field⟩, he, rfl⟩ := List.mem_map.mp (List.mem_of_find?_eq_some hfind)
    have hf := Std.ExtTreeMap.mem_toList_iff_getElem?_eq_some.mp he
    have hname := List.find?_some hfind
    rw [beq_iff_eq, hentry hf] at hname
    rw [← hname, hf]
    rfl
  | none =>
    cases hf : definition.fields[key]? with
    | none => rfl
    | some field =>
      have hmem : FieldDescription.ofField field ∈ (FilterDescription.ofDefinition definition).fields :=
        List.mem_map.mpr ⟨(key, field), Std.ExtTreeMap.mem_toList_iff_getElem?_eq_some.mpr hf, rfl⟩
      exact absurd (beq_iff_eq.mpr (hentry hf)) (List.find?_eq_none.mp hfind _ hmem)

/-- What is described under a field is listed at the position of its value. -/
theorem lists_field (hs : schema.WellFormed) (hk : schema.kinds[kind.name]? = some kind)
    (hd : FilterDefinition.ofKind kind = .ok definition) {field : FilterField} (hf : definition.fields[key]? = some field) :
    schema.Lists (.field (.ofField field)) field.position := by
  obtain ⟨_, ⟨_, _, _, ho, rfl⟩ | ⟨r, hr, rfl⟩⟩ := (FilterSchema.fields_eq_some_iff hs hk hd).mp hf
  · exact .scalar ho
  · obtain ⟨_, hrelated, _⟩ := hs.related hk r hr
    exact .related hrelated

/-- Under a combinator are filters on the same kind. -/
theorem ofKey?_combinator (kind : EntityKind) (h : key ∈ combinators) :
    ∃ q, Position.ofKey? kind key = some q ∧ (q = .filters kind ∨ q = .negated kind) := by
  simp only [combinators, List.mem_cons, List.not_mem_nil, or_false] at h
  rcases h with rfl | rfl | rfl
  · exact ⟨_, rfl, .inl rfl⟩
  · exact ⟨_, rfl, .inl rfl⟩
  · exact ⟨_, rfl, .inr rfl⟩

/-- What is listed follows the position under a key of a filter. -/
theorem lists_ofKey? (hs : schema.WellFormed) (hk : schema.kinds[kind.name]? = some kind)
    (hd : FilterDefinition.ofKind kind = .ok definition) (h : Position.ofKey? kind key = some q) :
    ∃ next, filters.listNext? (.filter (.ofDefinition definition)) (.key key) = some next ∧ schema.Lists next q := by
  rw [FilterSchema.listNext?]
  by_cases hkey : key ∈ (FilterDescription.ofDefinition definition).combinators
  · obtain ⟨found, hfound, hq⟩ := ofKey?_combinator kind hkey
    obtain rfl := Option.some.inj (h.symm.trans hfound)
    exact ⟨_, if_pos hkey, .filter hk hd (.inr hq)⟩
  · rw [Filter.ofKey?_eq hs hk hd hkey, Option.map_eq_some_iff] at h
    obtain ⟨field, hf, rfl⟩ := h
    rw [if_neg hkey, find?_fields hs hk hd, hf]
    exact ⟨_, rfl, lists_field hs hk hd hf⟩

theorem next?_quantifiers {r : Relationship} {related : EntityKind} (hr : schema.kinds[r.relatedKind]? = some related)
    (key : String) : schema.next? (.quantifiers r) (.key key) = (Quantifier.ofName? key).map fun _ => .filter related := by
  rw [next?, hr]
  cases Quantifier.ofName? key <;> rfl

/-- A name is among those of a list just if it finds something in the list. -/
theorem mem_names_iff {α : Type} {name : α → String} {l : List α} :
    key ∈ l.map name ↔ (l.find? fun a => name a == key).isSome := by
  rw [List.find?_isSome, List.mem_map]
  simp

theorem describe_eq_ok (hs : schema.WellFormed) (hb : FilterSchema.build schema = .ok filters) {name : String}
    (hk : schema.kinds[name]? = some kind) :
    ∃ definition, filters.describe name = .ok (.ofDefinition definition) ∧ FilterDefinition.ofKind kind = .ok definition := by
  obtain ⟨definition, hdefinition, hd⟩ := FilterSchema.definition_eq_ok hs hb hk
  refine ⟨definition, ?_, hd⟩
  rw [FilterSchema.describe, hdefinition]
  rfl

/-- What is listed follows the positions, until they are bare. -/
theorem Lists.next (hs : schema.WellFormed) (hb : FilterSchema.build schema = .ok filters) (hl : schema.Lists l p)
    {segment : Segment} (h : schema.next? p segment = some q) :
    q.Bare ∨ ∃ next, filters.listNext? l segment = some next ∧ schema.Lists next q := by
  cases hl with
  | @filter kind definition p hk hd hp =>
    match segment with
    | .key key =>
      rcases hp with rfl | rfl | rfl
      · exact .inr (lists_ofKey? hs hk hd h)
      · cases h
      · exact .inr (lists_ofKey? hs hk hd h)
    | .index _ =>
      have hq : q = .filter kind := by
        rcases hp with rfl | rfl | rfl <;> cases h <;> rfl
      exact .inr ⟨_, rfl, .filter hk hd (.inl hq)⟩
  | @scalar decl operators ho =>
    match segment with
    | .key key =>
      rw [next?, Option.map_eq_some_iff] at h
      obtain ⟨op, _, rfl⟩ := h
      cases op <;> exact .inl trivial
    | .index _ => cases h
  | @related r related hr =>
    match segment with
    | .key key =>
      rw [next?_quantifiers hr, Option.map_eq_some_iff] at h
      obtain ⟨quantifier, hq, rfl⟩ := h
      have hkey : key ∈ Quantifier.every.map Quantifier.name := mem_names_iff.mpr (Option.isSome_iff_exists.mpr ⟨_, hq⟩)
      obtain ⟨definition, hdescribe, hd⟩ := describe_eq_ok hs hb hr
      have hname := hs.name hr
      refine .inr ⟨.filter (.ofDefinition definition), ?_, .filter (hname ▸ hr) hd (.inl rfl)⟩
      rw [FieldDescription.ofField, FilterSchema.listNext?, List.map_map]
      exact (if_pos hkey).trans (by rw [hdescribe]; rfl)
    | .index _ => cases h

/-- The keys that are listed are those that are offered. -/
theorem Lists.keys (hs : schema.WellFormed) (hl : schema.Lists l p) {name : String} (hp : p.definition? = some name) :
    l.typeName = name ∧ ∀ key, key ∈ l.keys ↔ ∃ q, schema.next? p (.key key) = some q := by
  cases hl with
  | @filter kind definition p hk hd hkind =>
    have hnext : ∀ key, schema.next? p (.key key) = Position.ofKey? kind key ∧ name = kind.name ++ "FilterInput" := by
      rcases hkind with rfl | rfl | rfl <;> cases hp <;> exact fun _ => ⟨rfl, rfl⟩
    refine ⟨?_, fun key => ?_⟩
    · rw [(hnext "").2, ← FilterSchema.ofKind_kind hd]
      rfl
    rw [(hnext key).1, Listing.keys, List.mem_append, mem_names_iff, find?_fields hs hk hd, Option.isSome_map,
      ← Option.isSome_iff_exists]
    by_cases hkey : key ∈ (FilterDescription.ofDefinition definition).combinators
    · obtain ⟨q, hq, _⟩ := ofKey?_combinator kind hkey
      exact iff_of_true (.inl hkey) (Option.isSome_iff_exists.mpr ⟨q, hq⟩)
    · rw [or_iff_right hkey, Filter.ofKey?_eq hs hk hd hkey, Option.isSome_map]
  | @scalar decl operators ho =>
    refine ⟨Option.some.inj hp, fun key => ?_⟩
    rw [← Option.isSome_iff_exists, next?, ho, Option.isSome_map]
    exact mem_names_iff
  | @related r related hr =>
    refine ⟨Option.some.inj hp, fun key => ?_⟩
    rw [← Option.isSome_iff_exists, next?_quantifiers hr, Option.isSome_map, FieldDescription.ofField, Listing.keys, List.map_map]
    exact mem_names_iff

/-- Under a relationship that is described are filters on the kind described. -/
theorem Lists.next_eq_filter (hl : schema.Lists l p) {name relatedKind typeName description : String}
    {quantifiers : List (String × String)} (h : l = .field (.relationship name relatedKind typeName description quantifiers))
    (hq : schema.next? p (.key key) = some q) : ∃ related, schema.kinds[relatedKind]? = some related ∧ q = .filter related := by
  cases hl with
  | filter | scalar => cases h
  | @related r related hr =>
    cases h
    rw [next?_quantifiers hr, Option.map_eq_some_iff] at hq
    obtain ⟨_, _, rfl⟩ := hq
    exact ⟨related, hr, rfl⟩

/-- At every position in a filter that is not bare something is listed. -/
theorem Lists.exists_at (hs : schema.WellFormed) (hb : FilterSchema.build schema = .ok filters) (hl : schema.Lists l p)
    {path : Path} (hq : schema.position? p path = some q) (hbare : ¬ q.Bare) :
    ∃ listing, path.foldlM filters.listNext? l = some listing ∧ schema.Lists listing q := by
  induction path generalizing p l with
  | nil => exact ⟨l, rfl, Option.some.inj hq ▸ hl⟩
  | cons segment path ih =>
    rw [position?_cons, Option.bind_eq_some_iff] at hq
    obtain ⟨next, hnext, hq⟩ := hq
    rcases hl.next hs hb hnext with hn | ⟨listing, hlisting, hl⟩
    · exact absurd (hn.position? hq) hbare
    · obtain ⟨found, hfound, hlists⟩ := ih hl hq
      refine ⟨found, ?_, hlists⟩
      rw [List.foldlM_cons, hlisting]
      exact hfound

/-! ## Values that are accepted -/

/-- A type with operators has a literal. -/
theorem exists_literal {type : AttributeType} {operators : List Operator} (ho : type.operators? = some operators) :
    ∃ (j : Json) (value : Value), type.Reads j value ∧ j.parts = [] ∧ j.InKeyOrder := by
  cases type with
  | string => exact ⟨_, _, .string "", rfl, trivial⟩
  | id => exact ⟨_, _, .id "", rfl, trivial⟩
  | int => exact ⟨_, _, .int (n := 0) (by decide) (by decide), rfl, trivial⟩
  | float => exact ⟨_, _, .whole 0, rfl, trivial⟩
  | boolean => exact ⟨_, _, .boolean true, rfl, trivial⟩
  | other => cases ho

/-- A key that leads to a literal is that of an operator. -/
theorem exists_operators_of_literal {type : AttributeType} (h : schema.next? p (.key key) = some (.literal type)) :
    ∃ operators, type.operators? = some operators := by
  match p with
  | .filter kind | .negated kind =>
    rw [next?, Position.ofKey?] at h
    split at h
    · cases h
    · split at h
      · cases h
      · split at h
        · cases h
        · obtain ⟨_, _, hr⟩ := Option.map_eq_some_iff.mp h
          cases hr
  | .tests decl =>
    rw [next?, Option.map_eq_some_iff] at h
    obtain ⟨op, hop, hargument⟩ := h
    obtain rfl : decl.type = type := by
      cases op <;> cases hargument <;> rfl
    cases ho : decl.type.operators? with
    | none => simp [ho] at hop
    | some operators => exact ⟨operators, rfl⟩
  | .quantifiers r =>
    obtain ⟨_, _, hnext⟩ := Option.bind_eq_some_iff.mp h
    obtain ⟨_, _, hfilter⟩ := Option.bind_eq_some_iff.mp hnext
    cases hfilter

/-- Something is accepted at every position that a key leads to. -/
theorem exists_conforms (h : schema.next? p (.key key) = some q) :
    ∃ value : Json, value.InKeyOrder ∧ schema.Conforms q value := by
  suffices hfits : ∃ value : Json, value.InKeyOrder ∧ value.parts = [] ∧ q.Fits value by
    obtain ⟨value, hj, hparts, hfits⟩ := hfits
    exact ⟨value, hj, conforms_of_parts hfits (hparts ▸ List.forall_mem_nil _)⟩
  have hobject : (Json.object []).InKeyOrder := ⟨.nil, trivial⟩
  match q with
  | .filter kind => exact ⟨.object [], hobject, rfl, .filter kind []⟩
  | .filters kind => exact ⟨.list [], trivial, rfl, .filters kind []⟩
  | .negated kind => exact ⟨.object [], hobject, rfl, .negated kind []⟩
  | .tests decl => exact ⟨.object [], hobject, rfl, .tests decl []⟩
  | .literals type => exact ⟨.list [], trivial, rfl, .literals type []⟩
  | .flag => exact ⟨.bool true, trivial, rfl, .flag true⟩
  | .quantifiers r => exact ⟨.object [], hobject, rfl, .quantifiers r []⟩
  | .literal type =>
    obtain ⟨operators, ho⟩ := exists_operators_of_literal h
    obtain ⟨j, value, hread, hparts, hj⟩ := exists_literal ho
    exact ⟨j, hj, hparts, .literal hread⟩

/-- Objects are at positions where a definition offers keys. -/
theorem exists_definition?_of_fits {members : List (String × Json)} (h : p.Fits (.object members)) :
    ∃ name, p.definition? = some name := by
  cases h with
  | filter | negated | tests | quantifiers => exact ⟨_, rfl⟩
  | literal hread => cases hread

end Schema

/-! ## A member added to an accepted filter -/

/-- A filter on a kind that is accepted has an object at the end of a path, and there is its position. -/
structure FilterSchema.HasObject (schema : Schema) (filters : FilterSchema) (kind : EntityKind) (j : Json) (path : Path)
    (members : List (String × Json)) (q : Position) : Prop where
  wellFormed : schema.WellFormed
  built : FilterSchema.build schema = .ok filters
  declared : schema.kinds[kind.name]? = some kind
  ordered : j.InKeyOrder
  conforms : schema.Conforms (.filter kind) j
  object : j.at? path = some (.object members)
  position : schema.position? (.filter kind) path = some q

namespace FilterSchema.HasObject

variable {schema : Schema} {filters : FilterSchema} {kind : EntityKind} {j value : Json} {path : Path}
  {members : List (String × Json)} {q r : Position} {key : String} {e : FilterError}

theorem fits (h : HasObject schema filters kind j path members q) : q.Fits (.object members) := by
  obtain ⟨found, hfound, hfits⟩ := h.conforms path _ h.object
  obtain rfl := Option.some.inj (h.position.symm.trans hfound)
  exact hfits

/-- What is listed at the object is what is listed at its position. -/
theorem exists_listing (h : HasObject schema filters kind j path members q) :
    ∃ listing, filters.listing? kind.name path = some listing ∧ schema.Lists listing q := by
  obtain ⟨definition, hdescribe, hof⟩ := Schema.describe_eq_ok h.wellFormed h.built h.declared
  have hroot : schema.Lists (.filter (.ofDefinition definition)) (.filter kind) := .filter h.declared hof (.inl rfl)
  obtain ⟨listing, hlisting, hlists⟩ :=
    hroot.exists_at h.wellFormed h.built h.position fun hbare => hbare.not_fits_object members h.fits
  refine ⟨listing, ?_, hlists⟩
  rw [listing?, hdescribe]
  exact hlisting

/-- With a member added to the object, the filter is refused for the member, if at all: for its key if nothing is at a position
under it, and for what fails in its value otherwise. -/
theorem fails (h : HasObject schema filters kind j path members q)
    (he : filters.parse kind.name (.insertAt key value path j) = .error e) :
    (schema.next? q (.key key) = none ∧ ∃ definition, q.definition? = some definition ∧
        e = .unknownField key definition (path ++ [Segment.key key]).render) ∨
      ∃ r, schema.next? q (.key key) = some r ∧ ∃ stack, schema.Fails r (path ++ [.key key]) value stack e := by
  obtain ⟨stack, _, hfails⟩ := exists_fails_of_parse h.wellFormed h.built h.declared he
  obtain ⟨found, hfound, hoffence⟩ := Schema.Fails.insertAt h.conforms h.ordered h.object hfails
  obtain rfl := Option.some.inj (h.position.symm.trans hfound)
  exact hoffence.imp_right fun ⟨r, hr, hfails⟩ => ⟨r, hr, stack, hfails⟩

theorem fails_inside (h : HasObject schema filters kind j path members q) (hr : schema.next? q (.key key) = some r)
    (he : filters.parse kind.name (.insertAt key value path j) = .error e) :
    ∃ stack, schema.Fails r (path ++ [.key key]) value stack e := by
  obtain ⟨hnone, _⟩ | ⟨next, hnext, hfails⟩ := h.fails he
  · rw [hr] at hnone
    cases hnone
  · obtain rfl := Option.some.inj (hr.symm.trans hnext)
    exact hfails

/-- A value is accepted if it conforms to the position under the key. -/
theorem accepts (h : HasObject schema filters kind j path members q) (hr : schema.next? q (.key key) = some r)
    (hvalue : value.InKeyOrder) (hconforms : schema.Conforms r value) :
    ∃ accepted, filters.parse kind.name (.insertAt key value path j) = .ok accepted := by
  cases hp : filters.parse kind.name (.insertAt key value path j) with
  | ok accepted => exact ⟨accepted, rfl⟩
  | error e =>
    obtain ⟨_, hfails⟩ := h.fails_inside hr hp
    exact absurd hconforms (hfails.not_conforms hvalue)

/-- No value is accepted if nothing is at a position under the key. -/
theorem refuses (h : HasObject schema filters kind j path members q) (hnone : schema.next? q (.key key) = none) {name : String}
    (hname : q.definition? = some name) (value : Json) :
    filters.parse kind.name (.insertAt key value path j) =
      .error (.unknownField key name (path ++ [Segment.key key]).render) := by
  cases hp : filters.parse kind.name (.insertAt key value path j) with
  | ok accepted =>
    exact absurd (conforms_of_parse h.wellFormed h.built h.declared hp)
      (Schema.not_conforms_insertAt h.object h.position hnone)
  | error e =>
    obtain ⟨_, definition, hdefinition, rfl⟩ | ⟨r, hr, _⟩ := h.fails hp
    · rw [Option.some.inj (hname.symm.trans hdefinition)]
    · rw [hnone] at hr
      cases hr

end FilterSchema.HasObject

/-! ## What is listed is what is accepted -/

/-- What is listed at an object in a filter on a kind is just what may be added to the object. -/
structure Listing.Exact (schema : Schema) (filters : FilterSchema) (kind : EntityKind) (j : Json) (path : Path)
    (listing : Listing) : Prop where
  /-- A member whose key is not listed is refused for the key, whatever its value. -/
  unlisted : ∀ key, key ∉ listing.keys → ∀ value, filters.parse kind.name (.insertAt key value path j) =
    .error (.unknownField key listing.typeName (path ++ [Segment.key key]).render)
  /-- One whose key is listed is accepted with some value. -/
  listed : ∀ key ∈ listing.keys, ∃ value accepted, filters.parse kind.name (.insertAt key value path j) = .ok accepted
  /-- Where it is refused with another value, the error is about a place in the value, not about the key. -/
  inside : ∀ key ∈ listing.keys, ∀ value e, value.InKeyOrder →
    filters.parse kind.name (.insertAt key value path j) = .error e →
      ∃ p place, schema.position? (.filter kind) (path ++ [.key key]) = some p ∧
        schema.Blames p value (path ++ [.key key]) place e
  /-- Under a quantifier that is listed for a relationship, every filter on the kind that is listed for it is accepted. -/
  quantified : ∀ name relatedKind typeName description quantifiers,
    listing = .field (.relationship name relatedKind typeName description quantifiers) → ∀ quantifier ∈ quantifiers,
      ∀ value filter, value.InKeyOrder → filters.parse relatedKind value = .ok filter →
        ∃ accepted, filters.parse kind.name (.insertAt quantifier.1 value path j) = .ok accepted

namespace FilterSchema

/-- Something is listed at every object in a filter that is accepted, and descriptions list just the keys that are accepted there. -/
theorem listed_keys_accepted {decls : List KindDecl} {schema : Schema} (hd : Schema.build decls = .ok schema)
    {filters : FilterSchema} (hb : FilterSchema.build schema = .ok filters) {kind : EntityKind} (hk : kind ∈ schema.kindList)
    {j : Json} (hj : j.InKeyOrder) {filter : Filter} (hf : filters.parse kind.name j = .ok filter) {path : Path}
    {members : List (String × Json)} (hat : j.at? path = some (.object members)) :
    ∃ listing, filters.listing? kind.name path = some listing ∧ listing.Exact schema filters kind j path := by
  have hs := Schema.wellFormed_of_build hd
  have hk := (mem_kindList_iff hs).mp hk
  have hc : schema.Conforms (.filter kind) j := (exists_parse_eq_ok_iff hs hb hk hj).mp ⟨filter, hf⟩
  obtain ⟨q, hq, hfits⟩ := hc path _ hat
  have h : HasObject schema filters kind j path members q := ⟨hs, hb, hk, hj, hc, hat, hq⟩
  obtain ⟨listing, hlisting, hlists⟩ := h.exists_listing
  obtain ⟨name, hname⟩ := Schema.exists_definition?_of_fits hfits
  obtain ⟨htype, hkeys⟩ := hlists.keys hs hname
  refine ⟨listing, hlisting, fun key hkey value => ?_, fun key hkey => ?_, fun key hkey value e hvalue he => ?_, ?_⟩
  · have hnone : schema.next? q (.key key) = none :=
      Option.eq_none_iff_forall_not_mem.mpr fun r hr => hkey ((hkeys key).mpr ⟨r, hr⟩)
    rw [htype]
    exact h.refuses hnone hname value
  · obtain ⟨r, hr⟩ := (hkeys key).mp hkey
    obtain ⟨value, hvalue, hconforms⟩ := Schema.exists_conforms hr
    exact ⟨value, h.accepts hr hvalue hconforms⟩
  · obtain ⟨r, hr⟩ := (hkeys key).mp hkey
    obtain ⟨_, hfails⟩ := h.fails_inside hr he
    obtain ⟨place, _, hblame, _⟩ := hfails.exists_culprit hvalue
    exact ⟨r, place, (Schema.position?_concat hq _).trans hr, hblame⟩
  · intro name relatedKind typeName description quantifiers hlisted quantifier hquantifier value filter hvalue hfilter
    have hkey : quantifier.1 ∈ listing.keys := by
      rw [hlisted]
      exact List.mem_map_of_mem hquantifier
    obtain ⟨r, hr⟩ := (hkeys quantifier.1).mp hkey
    obtain ⟨related, hrelated, rfl⟩ := hlists.next_eq_filter hlisted hr
    exact h.accepts hr hvalue ((exists_parse_eq_ok_iff hs hb hrelated hvalue).mp ⟨filter, hfilter⟩)

namespace Example

/-- A filter with no test of the effort of a subtask as yet. -/
def untested : Json := .object [("subtasks", .object [("some", .object [("effort", .object [])])])]

theorem inKeyOrder_untested : untested.InKeyOrder := by
  simp [untested, Json.InKeyOrder, Json.MembersInKeyOrder]

/-- The place of the tests. -/
def underEffort : Path := [.key "subtasks", .key "some", .key "effort"]

end Example

/-- Efforts are numbers: they can be compared, but not searched for text. -/
theorem effort_compared_not_searched :
    (∀ value, Example.filters.parse "Task" (.insertAt "contains" value Example.underEffort Example.untested) =
        .error (.unknownField "contains" "FloatFilterInput" "subtasks.some.effort.contains")) ∧
      ∃ value accepted,
        Example.filters.parse "Task" (.insertAt "gt" value Example.underEffort Example.untested) = .ok accepted := by
  have htask : Example.taskKind ∈ Example.schema.kindList := List.mem_singleton_self _
  have hparse : Example.filters.parse "Task" Example.untested =
      .ok [.quantified .some Example.subtasks [.scalar "effort" []]] := rfl
  have hat : Example.untested.at? Example.underEffort = some (.object []) := rfl
  have hlisting : Example.filters.listing? "Task" Example.underEffort =
      some (.field (.ofField (.scalar Example.effort Operator.numeric))) := rfl
  obtain ⟨listing, hfound, hexact⟩ := listed_keys_accepted Example.build_decls Example.build_schema htask
    Example.inKeyOrder_untested hparse hat
  obtain rfl := Option.some.inj (hlisting.symm.trans hfound)
  exact ⟨hexact.unlisted "contains" (by decide), hexact.listed "gt" (by decide)⟩

end FilterSchema

end EntityGraph
