import EntityGraph.Number.Decimal
import Mathlib.Data.List.Basic

/-!
# What the text of a number is made of

Integers are written with digits and a sign. Finite floating-point numbers have a point or an exponent beside them, in every
layout (`DecimalNotation.point_or_exponent`), and so no text is both.
-/

namespace EntityGraph

/-! ## Integers -/

theorem isDigit_of_mem_toString {n : Nat} {c : Char} (h : c ∈ (toString n).toList) : c.isDigit := by
  rw [Nat.toString_eq_ofList_toDigits, String.toList_ofList] at h
  exact Nat.isDigit_of_mem_toDigits (by decide) (by decide) h

/-- An integer is written as its absolute value, with a sign in front if it is negative. -/
theorem toList_toString_int (n : Int) :
    (toString n).toList = if n < 0 then '-' :: (toString n.natAbs).toList else (toString n.natAbs).toList := by
  have hrepr : toString n = n.repr := rfl
  rw [hrepr, Int.repr_eq_if]
  by_cases hn : n < 0
  · rw [if_neg (by omega), if_pos hn, String.toList_append, show (-n).toNat = n.natAbs by omega]
    rfl
  · rw [if_pos (by omega), if_neg hn, show n.toNat = n.natAbs by omega]
    rfl

/-- A numeral has digits, and the sign of a negative number. -/
theorem isDigit_or_sign {n : Int} {c : Char} (h : c ∈ (toString n).toList) : c.isDigit ∨ c = '-' := by
  rw [toList_toString_int] at h
  split at h
  · rcases List.mem_cons.mp h with rfl | h
    · exact Or.inr rfl
    · exact Or.inl (isDigit_of_mem_toString h)
  · exact Or.inl (isDigit_of_mem_toString h)

/-! ## Floating-point numbers -/

namespace DecimalNotation

/-- The characters of a written number. -/
def IsNumberChar (c : Char) : Prop := c.isDigit ∨ c ∈ ['-', '+', '.', 'e']

theorem isNumberChar_of_isDigit {cs : List Char} (h : ∀ c ∈ cs, c.isDigit) : ∀ c ∈ cs, IsNumberChar c :=
  fun c hc => Or.inl (h c hc)

theorem isNumberChar_of_subset {cs : List Char} (h : cs ⊆ ['-', '+', '.', 'e', '0']) : ∀ c ∈ cs, IsNumberChar c := by
  have hall : ∀ c ∈ ['-', '+', '.', 'e', '0'], IsNumberChar c := by simp [IsNumberChar]
  exact fun c hc => hall c (h hc)

/-- Without an exponent there is a point. -/
theorem point_mem_plain (digits : List Char) (exponent : Int) : '.' ∈ plain digits exponent := by
  unfold plain
  split
  · simp
  · dsimp only
    split <;> simp

theorem mark_mem_scientific (layout : DecimalNotation) (digits : List Char) (leading : Int) :
    'e' ∈ layout.scientific digits leading := by
  simp [scientific]

section

variable {digits : List Char} (h : ∀ c ∈ digits, c.isDigit)
include h

theorem isNumberChar_plain (exponent : Int) : ∀ c ∈ plain digits exponent, IsNumberChar c := by
  have hzeros : ∀ n, ∀ c ∈ List.replicate n '0', IsNumberChar c :=
    fun n => isNumberChar_of_subset (List.Subset.trans (List.replicate_subset_singleton n '0') (by decide))
  have hpoint : IsNumberChar '.' := Or.inr (by decide)
  unfold plain
  split
  · simp only [List.forall_mem_append]
    exact ⟨⟨isNumberChar_of_isDigit h, hzeros _⟩, isNumberChar_of_subset (by decide)⟩
  · dsimp only
    split
    · rw [List.forall_mem_append, List.forall_mem_cons]
      exact ⟨isNumberChar_of_isDigit fun c hc => h c (List.mem_of_mem_take hc), hpoint,
        isNumberChar_of_isDigit fun c hc => h c (List.mem_of_mem_drop hc)⟩
    · simp only [List.cons_append, List.forall_mem_cons, List.forall_mem_append]
      exact ⟨Or.inl rfl, hpoint, hzeros _, isNumberChar_of_isDigit h⟩

theorem isNumberChar_scientific (layout : DecimalNotation) (leading : Int) :
    ∀ c ∈ layout.scientific digits leading, IsNumberChar c := by
  have hfraction : ∀ c ∈ (if digits.length ≤ 1 then [] else '.' :: digits.drop 1), IsNumberChar c := by
    split
    · exact fun c hc => nomatch hc
    · rw [List.forall_mem_cons]
      exact ⟨Or.inr (by decide), isNumberChar_of_isDigit fun c hc => h c (List.mem_of_mem_drop hc)⟩
  have hsign : ∀ c ∈ (if leading < 0 then ['-'] else if layout.exponentPlus then ['+'] else []), IsNumberChar c := by
    split
    · exact isNumberChar_of_subset (by decide)
    · split
      · exact isNumberChar_of_subset (by decide)
      · exact fun c hc => nomatch hc
  simp only [scientific, List.forall_mem_append, List.forall_mem_cons]
  exact ⟨⟨⟨isNumberChar_of_isDigit fun c hc => h c (List.mem_of_mem_take hc), hfraction⟩, Or.inr (by decide), hsign⟩,
    isNumberChar_of_isDigit fun c hc => isDigit_of_mem_toString hc⟩

end

variable (layout : DecimalNotation) (x : Binary64)

/-- The text of a number is digits in one of the two layouts, with a sign in front if it is negative. -/
theorem exists_body : ∃ digits body, (∀ c ∈ digits, c.isDigit) ∧
    (layout.render x).toList = (if x.isNegative then ['-'] else []) ++ body ∧
    ((∃ exponent, body = plain digits exponent) ∨ ∃ leading, body = layout.scientific digits leading) := by
  unfold render
  dsimp only
  by_cases hzero : x.magnitude = 0
  · rw [if_pos hzero, String.toList_ofList]
    exact ⟨['0'], ['0', '.', '0'], List.forall_mem_singleton.mpr rfl, rfl, Or.inl ⟨0, rfl⟩⟩
  · rw [if_neg hzero, String.toList_ofList]
    refine ⟨(toString (x.shortest layout.tie).digits).toList, _, fun c => isDigit_of_mem_toString, rfl, ?_⟩
    split
    · exact Or.inl ⟨_, rfl⟩
    · exact Or.inr ⟨_, rfl⟩

theorem isNumberChar_render : ∀ c ∈ (layout.render x).toList, IsNumberChar c := by
  obtain ⟨digits, body, hdigits, htext, hbody⟩ := layout.exists_body x
  rw [htext, List.forall_mem_append]
  constructor
  · split
    · exact isNumberChar_of_subset (by decide)
    · exact fun c hc => nomatch hc
  · rcases hbody with ⟨exponent, rfl⟩ | ⟨leading, rfl⟩
    · exact isNumberChar_plain hdigits exponent
    · exact isNumberChar_scientific hdigits layout leading

/-- A floating-point number shows a fraction or an exponent. -/
theorem point_or_exponent : '.' ∈ (layout.render x).toList ∨ 'e' ∈ (layout.render x).toList := by
  obtain ⟨digits, body, -, htext, hbody⟩ := layout.exists_body x
  rw [htext, List.mem_append, List.mem_append]
  rcases hbody with ⟨exponent, rfl⟩ | ⟨leading, rfl⟩
  · exact Or.inl (Or.inr (point_mem_plain digits exponent))
  · exact Or.inr (Or.inr (mark_mem_scientific layout digits leading))

end DecimalNotation

end EntityGraph
