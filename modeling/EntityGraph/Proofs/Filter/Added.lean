import EntityGraph.Proofs.Filter.Culprit
import Mathlib.Data.List.Sort

/-!
# A member added to a filter

`Json.insertAt` adds a member to the object at a place in a value. If the value conforms to a position, nothing but the new member
can offend: its key is not offered at the place, or its value fails there (`Schema.Fails.insertAt`).
-/

namespace EntityGraph

namespace Json

/-! ## Adding a member -/

/-- Changes the part that a step leads to. -/
def mapPart (f : Json → Json) : Segment → Json → Json
  | .index n, .list items => .list (items.modify n f)
  | .key key, .object members =>
    .object (members.map fun member => if member.1 = key then (member.1, f member.2) else member)
  | _, j => j

/-- Adds a member, in the order of keys, to the object that a path leads to. -/
def insertAt (key : String) (value : Json) : Path → Json → Json
  | [], .object members => .object (members.orderedInsert (fun a b => a.1 ≤ b.1) (key, value))
  | [], j => j
  | segment :: path, j => mapPart (insertAt key value path) segment j

theorem parts_mapPart (f : Json → Json) (segment : Segment) (j : Json) :
    (mapPart f segment j).parts = j.parts.map fun part => if part.1 = segment then (part.1, f part.2) else part := by
  match segment, j with
  | .index n, .list items =>
    refine List.ext_getElem? fun i => ?_
    simp only [mapPart, parts, itemParts, List.getElem?_map, List.getElem?_zipIdx, List.getElem?_modify, Nat.zero_add]
    cases items[i]? with
    | none => rfl
    | some item => by_cases h : n = i <;> simp [h, eq_comm]
  | .key key, .object members =>
    rw [mapPart, parts, parts, memberParts, memberParts, List.map_map, List.map_map]
    refine List.map_congr_left fun member _ => ?_
    by_cases h : member.1 = key <;> simp [h]
  | .key key, .list items => simp [mapPart, parts, itemParts]
  | .index n, .object members => simp [mapPart, parts, memberParts]
  | _, .null | _, .bool _ | _, .int _ | _, .float _ | _, .string _ => simp [mapPart, parts]

theorem part?_mapPart (f : Json → Json) (segment : Segment) (j : Json) :
    (mapPart f segment j).part? segment = (j.part? segment).map f := by
  rw [part?, part?, parts_mapPart]
  induction j.parts with
  | nil => rfl
  | cons part parts ih =>
    rw [List.map_cons, List.lookup_cons, List.lookup_cons, ih]
    by_cases h : segment = part.1
    · simp [h]
    · simp [beq_eq_false_iff_ne.mpr h, Ne.symm h]

theorem at?_concat {path : Path} {j part : Json} (h : j.at? path = some part) (segment : Segment) :
    j.at? (path ++ [segment]) = part.part? segment := by
  rw [at?] at h ⊢
  simp [List.foldlM_append, h]

theorem at?_insertAt {key : String} {value : Json} {path : Path} {j : Json} {members : List (String × Json)}
    (h : j.at? path = some (.object members)) :
    (insertAt key value path j).at? path =
      some (.object (members.orderedInsert (fun a b => a.1 ≤ b.1) (key, value))) := by
  induction path generalizing j with
  | nil =>
    obtain rfl := Option.some.inj (j.at?_nil.symm.trans h)
    rfl
  | cons segment path ih =>
    rw [at?_cons] at h ⊢
    obtain ⟨part, hpart, hat⟩ := Option.bind_eq_some_iff.mp h
    rw [insertAt, part?_mapPart, hpart]
    exact ih hat

end Json

/-! ## What can offend -/

namespace Schema

variable {schema : Schema} {p q : Position} {base path stack : Path} {j value : Json} {key : String} {segment : Segment}
  {e : FilterError} {members : List (String × Json)}

theorem Conforms.fits (hc : schema.Conforms p j) : p.Fits j := by
  obtain ⟨q, hq, hfits⟩ := hc [] j j.at?_nil
  exact Option.some.inj hq ▸ hfits

/-- The parts of a value that conforms do. -/
theorem Conforms.partConforms {part : Json} (hc : schema.Conforms p j) (hj : j.InKeyOrder) (h : (segment, part) ∈ j.parts) :
    schema.PartConforms p (segment, part) := by
  obtain ⟨before, after, hparts⟩ := List.append_of_mem h
  have hat : ∀ path, j.at? (segment :: path) = part.at? path := fun path => by
    rw [Json.at?_cons, (hj.part?_eq hparts).1]
    rfl
  obtain ⟨q, hq, _⟩ := hc [segment] part (hat [])
  have hnext : schema.next? p segment = some q := by
    rw [position?_cons, Option.bind_eq_some_iff] at hq
    obtain ⟨next, hnext, hsame⟩ := hq
    exact hsame ▸ hnext
  refine ⟨q, hnext, fun path place hplace => ?_⟩
  obtain ⟨r, hr, hfits⟩ := hc (segment :: path) place ((hat path).trans hplace)
  rw [position?_cons, hnext] at hr
  exact ⟨r, hr, hfits⟩

theorem Conforms.next?_ne_none {part : Json} (hc : schema.Conforms p j) (hj : j.InKeyOrder) (h : (segment, part) ∈ j.parts) :
    schema.next? p segment ≠ none := by
  obtain ⟨q, hq, _⟩ := hc.partConforms hj h
  rw [hq]
  exact nofun

theorem Conforms.not_fails_part {part : Json} (hc : schema.Conforms p j) (hj : j.InKeyOrder) (h : (segment, part) ∈ j.parts)
    (hq : schema.next? p segment = some q) : ¬ schema.Fails q base part stack e := by
  obtain ⟨next, hnext, hconforms⟩ := hc.partConforms hj h
  obtain rfl := Option.some.inj (hq.symm.trans hnext)
  exact fun hfails => hfails.not_conforms (hj.of_mem_parts h) hconforms

/-- A value fits whatever its parts are changed to. -/
theorem fits_mapPart {part : Json} {f : Json → Json} (hpart : (segment, part) ∈ j.parts) (h : p.Fits j) :
    p.Fits (Json.mapPart f segment j) := by
  cases h with
  | filter | negated | tests | quantifiers => cases segment <;> constructor
  | filters | literals => cases segment <;> constructor
  | negatedItem kind item =>
    match segment with
    | .key _ => exact .negatedItem kind item
    | .index 0 => exact .negatedItem kind (f item)
    | .index (_ + 1) => simpa [Json.mapPart] using Position.Fits.negatedItem kind item
  | literal hread => cases hread <;> cases hpart
  | flag => cases hpart

/-- Whether an object fits does not depend on its members. -/
theorem fits_object (h : p.Fits (.object members)) (others : List (String × Json)) : p.Fits (.object others) := by
  cases h with
  | filter | negated | tests | quantifiers => constructor
  | literal hread => cases hread

theorem Reaches.mem {part : Json} (h : schema.Reaches p j segment part) : (segment, part) ∈ j.parts := by
  obtain ⟨before, after, hparts, _⟩ := h
  rw [hparts]
  exact List.mem_append_right _ List.mem_cons_self

/-- The parts of an object with a new member are that and the old ones. -/
theorem mem_parts_insertAt {part : Segment × Json} :
    part ∈ (Json.insertAt key value [] (.object members)).parts ↔
      part = (.key key, value) ∨ part ∈ (Json.object members).parts := by
  have hperm := List.perm_orderedInsert (fun a b : String × Json => a.1 ≤ b.1) (key, value) members
  simp only [Json.insertAt, Json.parts, Json.memberParts, (hperm.map _).mem_iff, List.map_cons, List.mem_cons]

/-- The parts of a value with a new member somewhere inside are the part that it is in, changed, and the old ones. -/
theorem mem_parts_insertAt_cons {part inside : Json} {other : Segment} (hj : j.InKeyOrder) (hpart : j.part? segment = some inside)
    (h : (other, part) ∈ (Json.insertAt key value (segment :: path) j).parts) :
    (other = segment ∧ part = Json.insertAt key value path inside) ∨ (other, part) ∈ j.parts := by
  rw [Json.insertAt, Json.parts_mapPart, List.mem_map] at h
  obtain ⟨⟨step, old⟩, hold, hpair⟩ := h
  by_cases hstep : step = segment
  · rw [if_pos hstep] at hpair
    obtain ⟨rfl, rfl⟩ := Prod.mk.inj hpair
    obtain ⟨before, after, hparts⟩ := List.append_of_mem hold
    have hsame := (hj.part?_eq hparts).1
    rw [hstep, hpart] at hsame
    exact .inl ⟨hstep, congrArg _ (Option.some.inj hsame).symm⟩
  · rw [if_neg hstep] at hpair
    exact .inr (hpair ▸ hold)

/-- Where a value conforms but for a new member, the first offence is the member's: its key is not offered where it stands, or its
value fails there. -/
theorem Fails.insertAt (hc : schema.Conforms p j) (hj : j.InKeyOrder) (hat : j.at? path = some (.object members))
    (h : schema.Fails p base (Json.insertAt key value path j) stack e) :
    ∃ q, schema.position? p path = some q ∧
      ((schema.next? q (.key key) = none ∧ ∃ definition, q.definition? = some definition ∧
          e = .unknownField key definition (base ++ (path ++ [Segment.key key])).render) ∨
        ∃ r, schema.next? q (.key key) = some r ∧ schema.Fails r (base ++ (path ++ [Segment.key key])) value stack e) := by
  induction path generalizing p base j with
  | nil =>
    obtain rfl := Option.some.inj (j.at?_nil.symm.trans hat)
    refine ⟨p, rfl, ?_⟩
    cases h with
    | misfit hmisfit => exact absurd (fits_object hc.fits _) hmisfit
    | unknown _ hreach hnone hdefinition =>
      rcases mem_parts_insertAt.mp hreach.mem with hnew | hold
      · obtain rfl := Segment.key.inj (Prod.mk.inj hnew).1
        exact .inl ⟨hnone, _, hdefinition, rfl⟩
      · exact absurd hnone (hc.next?_ne_none hj hold)
    | inside _ hreach hnext hfails =>
      rcases mem_parts_insertAt.mp hreach.mem with hnew | hold
      · obtain ⟨rfl, rfl⟩ := Prod.mk.inj hnew
        exact .inr ⟨_, hnext, hfails⟩
      · exact absurd hfails (hc.not_fails_part hj hold hnext)
  | cons segment path ih =>
    rw [Json.at?_cons, Option.bind_eq_some_iff] at hat
    obtain ⟨part, hpart, hat⟩ := hat
    have hmem := Json.mem_parts_of_part? hpart
    obtain ⟨next, hnext, hconforms⟩ := hc.partConforms hj hmem
    cases h with
    | misfit hmisfit => exact absurd (fits_mapPart hmem hc.fits) hmisfit
    | unknown _ hreach hnone _ =>
      obtain ⟨rfl, _⟩ | hold := mem_parts_insertAt_cons hj hpart hreach.mem
      · exact absurd hnone (hc.next?_ne_none hj hmem)
      · exact absurd hnone (hc.next?_ne_none hj hold)
    | inside _ hreach hstep hfails =>
      obtain ⟨rfl, rfl⟩ | hold := mem_parts_insertAt_cons hj hpart hreach.mem
      · obtain rfl := Option.some.inj (hstep.symm.trans hnext)
        have hfound := ih hconforms (hj.of_mem_parts hmem) hat hfails
        rw [List.append_assoc] at hfound
        rw [position?_cons, hnext]
        exact hfound
      · exact absurd hfails (hc.not_fails_part hj hold hstep)

/-- Nothing conforms with a member whose key is not offered where it stands. -/
theorem not_conforms_insertAt (hat : j.at? path = some (.object members)) (hq : schema.position? p path = some q)
    (hnone : schema.next? q (.key key) = none) : ¬ schema.Conforms p (Json.insertAt key value path j) := by
  intro hc
  have hmem : (.key key, value) ∈ (Json.insertAt key value [] (.object members)).parts := mem_parts_insertAt.mpr (.inl rfl)
  obtain ⟨found, hfound⟩ : ∃ found, (Json.insertAt key value [] (.object members)).part? (.key key) = some found := by
    refine Option.isSome_iff_exists.mp (List.lookup_isSome_iff.mpr ⟨_, hmem, beq_self_eq_true _⟩)
  obtain ⟨r, hr, _⟩ := hc _ found ((Json.at?_concat (Json.at?_insertAt hat) _).trans hfound)
  rw [position?_concat hq, hnone] at hr
  cases hr

end Schema

end EntityGraph
