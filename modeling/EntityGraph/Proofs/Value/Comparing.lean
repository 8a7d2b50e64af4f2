import EntityGraph.Graph.Evaluation
import Mathlib.Logic.ExistsUnique

/-!
# Comparing values

Equality and order of values are computed apart (`Value.looseEq`, `Value.compare?`), each with its own treatment of an integer
beside a floating-point number. On two strings and on two numbers they agree, and so do the operators built from them; other
values have no order (`Comparison.holds_coherent`). The operators on texts ask whether one is a part, the beginning or the end of
the other.
-/

namespace EntityGraph

/-! ## Floating-point numbers -/

namespace Binary64

theorem magnitude_ofMagnitude (negative : Bool) {m : Nat} (h : m < Nat.pow 2 63) : (ofMagnitude negative m).magnitude = m := by
  have hpow : Nat.pow 2 63 = 9223372036854775808 := rfl
  rw [hpow] at h
  simp only [magnitude, ofMagnitude, UInt64.toNat_ofNat', hpow]
  cases negative with
  | false => simp; omega
  | true => simp; omega

/-- Rounding gives a number or an infinity. -/
theorem isNaN_ofRatio (negative : Bool) (num den : Nat) : (ofRatio negative num den).isNaN = false := by
  have hbound : infiniteMagnitude < Nat.pow 2 63 := by decide
  have hle : ∀ m ≤ infiniteMagnitude, (ofMagnitude negative m).isNaN = false := by
    intro m hm
    rw [isNaN, magnitude_ofMagnitude negative (Nat.lt_of_le_of_lt hm hbound)]
    exact decide_eq_false (Nat.not_lt.mpr hm)
  unfold ofRatio
  split
  · exact hle 0 (Nat.zero_le _)
  · exact hle _ (Nat.min_le_left ..)

theorem isNaN_ofInt (n : Int) : (ofInt n).isNaN = false := isNaN_ofRatio ..

theorem compare?_swap (x y : Binary64) : (x.compare? y).map Ordering.swap = y.compare? x := by
  unfold compare?
  rw [Bool.or_comm]
  split
  · rfl
  · rw [Option.map_some, ← Std.OrientedOrd.eq_swap]

theorem numEq_comm (x y : Binary64) : x.numEq y = y.numEq x := by
  unfold numEq
  rw [← compare?_swap x y]
  cases x.compare? y with
  | none => rfl
  | some order => cases order <;> rfl

/-- All numbers but the NaNs have an order. -/
theorem isSome_compare?_iff {x y : Binary64} : (x.compare? y).isSome ↔ x.isNaN = false ∧ y.isNaN = false := by
  unfold compare?
  cases x.isNaN <;> cases y.isNaN <;> simp

end Binary64

/-! ## Values -/

namespace Value

/-- An integer or a floating-point number other than NaN. -/
def IsNumber : Value → Prop
  | .int _ => True
  | .float x => x.isNaN = false
  | _ => False

/-- Two strings or two numbers. -/
def Comparable (a b : Value) : Prop := (∃ s t, a = .string s ∧ b = .string t) ∨ a.IsNumber ∧ b.IsNumber

theorem IsNumber.isNull_eq_false {a : Value} (h : a.IsNumber) : a.isNull = false := by
  cases a with
  | null => exact h.elim
  | _ => rfl

theorem Comparable.isNull_eq_false {a b : Value} (h : a.Comparable b) : a.isNull = false ∧ b.isNull = false := by
  rcases h with ⟨s, t, rfl, rfl⟩ | ⟨ha, hb⟩
  · exact ⟨rfl, rfl⟩
  · exact ⟨ha.isNull_eq_false, hb.isNull_eq_false⟩

/-- Comparable values have an order, and no others. -/
theorem isSome_compare?_iff {a b : Value} : (a.compare? b).isSome ↔ a.Comparable b := by
  cases a <;> cases b <;>
    simp [compare?, Comparable, IsNumber, Binary64.isSome_compare?_iff, Binary64.isNaN_ofInt]

theorem compare?_swap (a b : Value) : (a.compare? b).map Ordering.swap = b.compare? a := by
  cases a <;> cases b <;>
    simp [compare?, Binary64.compare?_swap, ← Std.OrientedOrd.eq_swap]

/-- Comparable values are equal, as filters see it, exactly when none comes before the other. -/
theorem looseEq_eq {a b : Value} (h : a.Comparable b) : a.looseEq b = (a.compare? b == some .eq) := by
  rcases h with ⟨s, t, rfl, rfl⟩ | ⟨ha, hb⟩
  · have heq : compare s t = .eq ↔ s = t := Std.LawfulEqOrd.compare_eq_iff_eq
    simp only [looseEq, same, compare?]
    rw [Bool.eq_iff_iff]
    simp [heq]
  · cases a with
    | int m =>
      cases b with
      | int n =>
        have heq : compare m.toInt n.toInt = .eq ↔ m = n := Std.LawfulEqOrd.compare_eq_iff_eq.trans Int64.toInt_inj
        simp only [looseEq, same, compare?]
        rw [Bool.eq_iff_iff]
        simp [heq]
      | float y => rfl
      | _ => exact hb.elim
    | float x =>
      cases b with
      | int n => exact Binary64.numEq_comm ..
      | float y => rfl
      | _ => exact hb.elim
    | _ => exact ha.elim

end Value

/-! ## Operators -/

namespace Comparison

/-- The operators that ask for an order. -/
def orderings : List Comparison := [.lt, .lte, .gt, .gte]

/-- The operators of equality and order. -/
def relations : List Comparison := .eq :: .neq :: orderings

/-- The operator that says the same of two values in the other order. -/
def converse : Comparison → Comparison
  | .lt => .gt
  | .lte => .gte
  | .gt => .lt
  | .gte => .lte
  | op => op

/-- What the operators of equality and order say of two values with the given order. -/
def accepts : Comparison → Ordering → Bool
  | .eq, order => order == .eq
  | .neq, order => order != .eq
  | .lt, order => order == .lt
  | .lte, order => order != .gt
  | .gt, order => order == .gt
  | .gte, order => order != .lt
  | _, _ => false

/-- The operators of which exactly one holds of two values with an order. -/
def exclusives : List Comparison := [.lt, .eq, .gt]

/-- The one of them that holds. -/
def ofOrder : Ordering → Comparison
  | .lt => .lt
  | .eq => .eq
  | .gt => .gt

theorem ofOrder_mem_exclusives (order : Ordering) : ofOrder order ∈ exclusives := by
  cases order <;> decide

theorem mem_relations_of_mem_exclusives {op : Comparison} (h : op ∈ exclusives) : op ∈ relations := by
  revert op
  decide

theorem accepts_exclusive_iff {op : Comparison} (h : op ∈ exclusives) {order : Ordering} :
    op.accepts order ↔ op = ofOrder order := by
  simp only [exclusives, List.mem_cons, List.not_mem_nil, or_false] at h
  rcases h with rfl | rfl | rfl <;> cases order <;> decide

theorem accepts_converse {op : Comparison} (h : op ∈ relations) (order : Ordering) :
    op.converse.accepts order.swap = op.accepts order := by
  simp only [relations, orderings, List.mem_cons, List.not_mem_nil, or_false] at h
  rcases h with rfl | rfl | rfl | rfl | rfl | rfl <;> cases order <;> rfl

theorem converse_mem_relations {op : Comparison} (h : op ∈ relations) : op.converse ∈ relations := by
  simp only [relations, orderings, List.mem_cons, List.not_mem_nil, or_false] at h
  rcases h with rfl | rfl | rfl | rfl | rfl | rfl <;> decide

variable {a b : Value}

/-- On comparable values the operators depend on the order of the values alone. -/
theorem holds_eq_accepts {order : Ordering} (h : a.compare? b = some order) {op : Comparison} (hop : op ∈ relations) :
    op.holds a b = op.accepts order := by
  have hcomparable : a.Comparable b := Value.isSome_compare?_iff.mp (by rw [h]; rfl)
  have heq : a.looseEq b = (order == .eq) := by rw [Value.looseEq_eq hcomparable, h]; cases order <;> rfl
  obtain ⟨ha, hb⟩ := hcomparable.isNull_eq_false
  unfold holds
  rw [ha, hb, Bool.or_false, if_neg Bool.false_ne_true]
  simp only [relations, orderings, List.mem_cons, List.not_mem_nil, or_false] at hop
  rcases hop with rfl | rfl | rfl | rfl | rfl | rfl <;> simp only [heq, h] <;> cases order <;> rfl

/-- Values without an order satisfy no operator that asks for one. -/
theorem holds_ordering_eq_false (h : a.compare? b = none) {op : Comparison} (hop : op ∈ orderings) : op.holds a b = false := by
  unfold holds
  simp only [orderings, List.mem_cons, List.not_mem_nil, or_false] at hop
  split
  · rfl
  · rcases hop with rfl | rfl | rfl | rfl <;> simp [h]

theorem holds_null (h : a.isNull ∨ b.isNull) (op : Comparison) : op.holds a b = false := by
  unfold holds
  rw [if_pos (by simpa using h)]

/-! ### Parts of texts -/

theorem hasInfix_iff {part text : List Char} : hasInfix part text ↔ part <:+: text := by
  induction text with
  | nil => rw [hasInfix, List.isEmpty_iff, List.infix_nil]
  | cons c cs ih => rw [hasInfix, Bool.or_eq_true, List.isPrefixOf_iff_prefix, ih, List.infix_cons_iff]

/-- One text contains another if it has the characters of the other somewhere in a row; other values contain nothing. -/
theorem holds_contains_iff :
    Comparison.contains.holds a b ↔ ∃ s t, a = .string s ∧ b = .string t ∧ t.toList <:+: s.toList := by
  cases a <;> cases b <;> simp [holds, Value.isNull, Value.string?, hasInfix_iff]

theorem holds_startsWith_iff :
    Comparison.startsWith.holds a b ↔ ∃ s t, a = .string s ∧ b = .string t ∧ t.toList <+: s.toList := by
  cases a <;> cases b <;> simp [holds, Value.isNull, Value.string?]

theorem holds_endsWith_iff :
    Comparison.endsWith.holds a b ↔ ∃ s t, a = .string s ∧ b = .string t ∧ t.toList <:+ s.toList := by
  cases a <;> cases b <;> simp [holds, Value.isNull, Value.string?]

/-! ### Equality and order -/

/-- On two strings, and on two numbers of whichever type, exactly one of less, equal and greater holds, the other operators are
made of these, and exchanging the values exchanges the operators. Of all other values none is less or greater than, or at most or
at least, another one; and every operator is false of null. -/
theorem holds_coherent (a b : Value) :
    (a.Comparable b →
      (∃! op, op ∈ exclusives ∧ op.holds a b) ∧
      Comparison.lte.holds a b = (Comparison.lt.holds a b || Comparison.eq.holds a b) ∧
      Comparison.gte.holds a b = (Comparison.gt.holds a b || Comparison.eq.holds a b) ∧
      Comparison.neq.holds a b = !Comparison.eq.holds a b ∧
      ∀ op ∈ relations, op.converse.holds b a = op.holds a b) ∧
    (¬a.Comparable b → ∀ op ∈ orderings, op.holds a b = false) ∧
    (a.isNull ∨ b.isNull → ∀ op : Comparison, op.holds a b = false) := by
  refine ⟨fun hcomparable => ?_, fun hother op hop => ?_, holds_null⟩
  · obtain ⟨order, horder⟩ := Option.isSome_iff_exists.mp (Value.isSome_compare?_iff.mpr hcomparable)
    have hback : b.compare? a = some order.swap := by rw [← Value.compare?_swap, horder, Option.map_some]
    have hholds : ∀ op ∈ relations, op.holds a b = op.accepts order := fun op hop => holds_eq_accepts horder hop
    refine ⟨?_, ?_, ?_, ?_, fun op hop => ?_⟩
    · have hexclusive : ∀ op ∈ exclusives, (op.holds a b ↔ op = ofOrder order) := by
        intro op hop
        rw [hholds op (mem_relations_of_mem_exclusives hop)]
        exact accepts_exclusive_iff hop
      have hmem := ofOrder_mem_exclusives order
      exact ⟨ofOrder order, ⟨hmem, (hexclusive _ hmem).mpr rfl⟩, fun op hop => (hexclusive op hop.1).mp hop.2⟩
    · rw [hholds .lte (by decide), hholds .lt (by decide), hholds .eq (by decide)]
      cases order <;> rfl
    · rw [hholds .gte (by decide), hholds .gt (by decide), hholds .eq (by decide)]
      cases order <;> rfl
    · rw [hholds .neq (by decide), hholds .eq (by decide)]
      rfl
    · rw [holds_eq_accepts hback (converse_mem_relations hop), accepts_converse hop, hholds op hop]
  · have hnone : a.compare? b = none := Option.not_isSome_iff_eq_none.mp (hother ∘ Value.isSome_compare?_iff.mp)
    exact holds_ordering_eq_false hnone hop

/-- The integer `2^53 + 1` is no floating-point number. Beside one it is rounded, and so equals `2^53` as a floating-point number,
and is neither less nor greater. Truth values have no order, and null is not even different from null. -/
theorem integer_equals_rounded : (Value.int 9007199254740993).Comparable (.float (.ofNat (Nat.pow 2 53))) ∧
    (∀ op ∈ exclusives, op.holds (.int 9007199254740993) (.float (.ofNat (Nat.pow 2 53))) → op = .eq) ∧
    Comparison.lte.holds (.float (.ofNat (Nat.pow 2 53))) (.int 9007199254740993) ∧
    ¬(Value.bool false).Comparable (.bool true) ∧ Comparison.lte.holds (.bool false) (.bool true) = false ∧
    Comparison.neq.holds .null .null = false := by
  have hcomparable : (Value.int 9007199254740993).Comparable (.float (.ofNat (Nat.pow 2 53))) :=
    Or.inr ⟨trivial, Binary64.isNaN_ofRatio ..⟩
  have hbools : ¬(Value.bool false).Comparable (.bool true) := by
    rintro (⟨s, t, hs, -⟩ | ⟨h, -⟩)
    · cases hs
    · exact h
  have heq : Comparison.eq.holds (.int 9007199254740993) (.float (.ofNat (Nat.pow 2 53))) := by decide +kernel
  obtain ⟨hone, -, hgte, -, hconverse⟩ := (holds_coherent _ _).1 hcomparable
  refine ⟨hcomparable, fun op hop hholds => ?_, ?_, hbools, ?_, ?_⟩
  · exact hone.unique ⟨hop, hholds⟩ ⟨by decide, heq⟩
  · have hsame := hconverse .gte (by decide)
    rw [hgte, heq, Bool.or_true] at hsame
    exact hsame
  · exact (holds_coherent _ _).2.1 hbools .lte (by decide)
  · exact (holds_coherent _ _).2.2 (Or.inl rfl) .neq

end Comparison

end EntityGraph
