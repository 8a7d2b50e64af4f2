import EntityGraph.Json.Token
import EntityGraph.Json.Writer
import EntityGraph.Proofs.Number.Decimal

/-!
# Reading written numbers

An integer that fits 64 bits is read back from its digits (`Numeral.toJson?_int`). A floating-point number shows a fraction or an
exponent, so that it is read as one, whatever its value (`Numeral.toJson?_float`).
-/

namespace EntityGraph

/-- A finite number whose JSON text is read as the number. -/
structure Binary64.ReadsBack (x : Binary64) : Prop where
  finite : x.isFinite
  text : (Json.Numeral.read? (Json.floatText x).toList).bind Json.Numeral.toFloat? = some x

theorem Json.floatText_eq {x : Binary64} (h : x.ReadsBack) : floatText x = numberLayout.render x := if_pos h.finite

theorem Json.fitsInt64_iff {n : Int} : fitsInt64 n ↔ Int64.minValue.toInt ≤ n ∧ n ≤ Int64.maxValue.toInt := by
  rw [fitsInt64, Bool.and_eq_true, decide_eq_true_eq, decide_eq_true_eq]

namespace Json.Numeral

/-! ## Digits -/

/-- The number that a decimal digit stands for. -/
def digitValue (c : Char) : Nat := c.toNat - '0'.toNat

theorem readDigits_all {ds : List Char} (h : ∀ c ∈ ds, c.isDigit) : readDigits ds = (ds.map digitValue, []) := by
  induction ds with
  | nil => rfl
  | cons d ds ih =>
    rw [List.forall_mem_cons] at h
    rw [readDigits, digit?, if_pos h.1]
    simp only [ih h.2]
    rfl

/-- Digits are read up to the first character that is none. -/
theorem exists_readDigits (cs : List Char) :
    ∃ ds, (∀ c ∈ ds, c.isDigit) ∧ cs = ds ++ (readDigits cs).2 := by
  induction cs with
  | nil => exact ⟨[], by simp, rfl⟩
  | cons c cs ih =>
    obtain ⟨ds, hds, heq⟩ := ih
    unfold readDigits digit?
    by_cases hc : c.isDigit
    · rw [if_pos hc]
      refine ⟨c :: ds, List.forall_mem_cons.mpr ⟨hc, hds⟩, ?_⟩
      rw [List.cons_append, ← heq]
    · rw [if_neg hc]
      exact ⟨[], by simp, rfl⟩

theorem ofDigits_map_digitValue (ds : List Char) : ofDigits (ds.map digitValue) = Nat.ofDigitChars 10 ds 0 := by
  rw [ofDigits, List.foldl_map, Nat.ofDigitChars_eq_foldl]
  rfl

theorem isDigit_toDigits (n : Nat) : ∀ c ∈ Nat.toDigits 10 n, c.isDigit :=
  fun _ => Nat.isDigit_of_mem_toDigits (by decide) (by decide)

/-- A number is written without leading zeros. -/
theorem head?_toDigits {n : Nat} (h : 0 < n) : (Nat.toDigits 10 n).head? ≠ some '0' := by
  induction n using Nat.strongRecOn with
  | ind n ih =>
    rw [Nat.toDigits_eq_if (by decide)]
    split
    · rw [List.head?_cons, ne_eq, Option.some_inj, Nat.digitChar_eq_zero]
      omega
    · rw [List.head?_append_of_ne_nil _ Nat.toDigits_ne_nil]
      exact ih (n / 10) (by omega) (by omega)

/-- Of several digits the first is not zero. -/
theorem toDigits_ne_zero_cons (n : Nat) (d : Nat) (ds : List Nat) : (Nat.toDigits 10 n).map digitValue ≠ 0 :: d :: ds := by
  intro heq
  rcases Nat.eq_zero_or_pos n with rfl | hpos
  · rw [Nat.toDigits_zero] at heq
    cases heq
  · cases hdigits : Nat.toDigits 10 n with
    | nil => exact Nat.toDigits_ne_nil hdigits
    | cons c cs =>
      have hc : c.isDigit := isDigit_toDigits n c (by rw [hdigits]; exact List.mem_cons_self)
      have hhead := head?_toDigits hpos
      rw [hdigits, List.head?_cons, ne_eq, Option.some_inj] at hhead
      rw [hdigits, List.map_cons, List.cons.injEq] at heq
      refine hhead (Char.toNat_inj.mp ?_)
      have hle : '0'.toNat ≤ c.toNat := (Char.isDigit_iff_toNat.mp hc).1
      have hzero : c.toNat - '0'.toNat = 0 := heq.1
      omega

/-! ## Integers -/

theorem readUnsigned?_toDigits (negative : Bool) (n : Nat) :
    readUnsigned? negative (Nat.toDigits 10 n) = some ⟨negative, (Nat.toDigits 10 n).map digitValue, [], none⟩ := by
  have hread := readDigits_all (isDigit_toDigits n)
  have hne : (Nat.toDigits 10 n).map digitValue ≠ [] := by simp [Nat.toDigits_ne_nil]
  unfold readUnsigned?
  rw [hread]
  split
  · next h => exact absurd (Prod.mk.inj h).1 hne
  · next h => exact absurd (Prod.mk.inj h).1 (toDigits_ne_zero_cons n _ _)
  · next h => cases (Prod.mk.inj h).2
  · next h =>
    obtain ⟨rfl, rfl⟩ := Prod.mk.inj h
    rfl

/-- An integer is read digit by digit. -/
theorem read?_int (n : Int) : read? (toString n).toList =
    some ⟨decide (n < 0), (Nat.toDigits 10 n.natAbs).map digitValue, [], none⟩ := by
  rw [toList_toString_int, Nat.toString_eq_ofList_toDigits, String.toList_ofList]
  split
  · next hn => rw [read?, readUnsigned?_toDigits, decide_eq_true hn]
  · next hn =>
    rw [decide_eq_false hn, ← readUnsigned?_toDigits]
    unfold read?
    split
    · next cs heq =>
      have hminus : '-'.isDigit := isDigit_toDigits n.natAbs '-' (by rw [heq]; exact List.mem_cons_self)
      cases hminus
    · rfl

/-- An integer that fits 64 bits, with a sign or without, is read as itself. -/
theorem toJson?_int {n : Int} (hmin : Int64.minValue.toInt ≤ n) (hmax : n < UInt64.size) :
    (read? (toString n).toList).bind toJson? = some (.int n) := by
  rw [read?_int, Option.bind_some]
  unfold toJson?
  simp only [ofDigits_map_digitValue, Nat.ofDigitChars_ten_toDigits, List.isEmpty_nil, Option.isNone_none, Bool.and_self,
    if_true]
  by_cases hn : n < 0
  · have hback : -(n.natAbs : Int) = n := by omega
    have hle : n ≤ Int64.maxValue.toInt := Int.le_trans (Int.le_of_lt hn) (by decide)
    have hfits : fitsInt64 n := fitsInt64_iff.mpr ⟨hmin, hle⟩
    have hpos : 0 < n.natAbs := by omega
    rw [decide_eq_true hn, decide_eq_true hpos, hback, hfits]
    rfl
  · have hback : (n.natAbs : Int) = n := by omega
    have hlt : n.natAbs < UInt64.size := by omega
    rw [decide_eq_false hn, decide_eq_true hlt, hback]
    rfl

/-! ## Floating-point numbers -/

theorem eq_of_readEnd? {numeral result : Numeral} {cs : List Char} (h : readEnd? numeral cs = some result)
    (hexponent : result.exponent = none) : cs = [] ∧ result = numeral := by
  cases cs with
  | nil => exact ⟨rfl, (Option.some.inj h).symm⟩
  | cons c cs =>
    rw [readEnd?] at h
    split at h
    · obtain ⟨e, -, rfl⟩ := Option.map_eq_some_iff.mp h
      cases hexponent
    · cases h

/-- A number without sign, fraction and exponent is written with digits alone. -/
theorem isDigit_of_readUnsigned? {negative : Bool} {cs : List Char} {numeral : Numeral}
    (h : readUnsigned? negative cs = some numeral) (hfraction : numeral.fraction = []) (hexponent : numeral.exponent = none) :
    ∀ c ∈ cs, c.isDigit := by
  obtain ⟨ds, hds, heq⟩ := exists_readDigits cs
  unfold readUnsigned? at h
  split at h
  · cases h
  · cases h
  · split at h
    · cases h
    · next hne _ =>
      obtain ⟨-, rfl⟩ := eq_of_readEnd? h hexponent
      exact (hne hfraction).elim
  · next hread =>
    obtain ⟨rfl, -⟩ := eq_of_readEnd? h hexponent
    rw [hread, List.append_nil] at heq
    rwa [heq]

theorem isDigit_or_sign_of_read? {cs : List Char} {numeral : Numeral} (h : read? cs = some numeral)
    (hfraction : numeral.fraction = []) (hexponent : numeral.exponent = none) : ∀ c ∈ cs, c.isDigit ∨ c = '-' := by
  unfold read? at h
  split at h
  · intro c hc
    rcases List.mem_cons.mp hc with rfl | hc
    · exact Or.inr rfl
    · exact Or.inl (isDigit_of_readUnsigned? h hfraction hexponent c hc)
  · exact fun c hc => Or.inl (isDigit_of_readUnsigned? h hfraction hexponent c hc)

/-- A floating-point number that reads back is no integer, also if its value is one. -/
theorem toJson?_float {x : Binary64} (h : x.ReadsBack) : (read? (floatText x).toList).bind toJson? = some (.float x) := by
  obtain ⟨numeral, hread, hvalue⟩ := Option.bind_eq_some_iff.mp h.text
  have hshown : (numeral.fraction.isEmpty && numeral.exponent.isNone) = false := by
    by_contra hboth
    rw [Bool.not_eq_false, Bool.and_eq_true, List.isEmpty_iff, Option.isNone_iff_eq_none] at hboth
    have hdigits := isDigit_or_sign_of_read? hread hboth.1 hboth.2
    rw [floatText_eq h] at hdigits
    rcases numberLayout.point_or_exponent x with hpoint | hmark
    · exact absurd (hdigits '.' hpoint) (by decide)
    · exact absurd (hdigits 'e' hmark) (by decide)
  rw [hread, Option.bind_some]
  unfold toJson?
  simp only [hshown, Bool.false_eq_true, if_false, hvalue, Option.map_some]

end Json.Numeral

end EntityGraph
