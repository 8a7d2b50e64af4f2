import EntityGraph.Json.Token
import EntityGraph.Json.Writer
import Mathlib.Data.List.Forall2

/-!
# Reading written strings

Every character of a string is written in one form and is read back from it, whatever follows (`Token.readPieces?_encode`,
`Token.joinPieces?_eq`). Control characters without a short form are written as units, none of which is half of a pair.
-/

namespace EntityGraph.Json.Token

/-- A piece of a written string that stands for a character: the character, or the unit of a control character. -/
def Piece.StandsFor (piece : Piece) (c : Char) : Prop := piece = .char c ∨ piece = .unit c.toNat ∧ c.toNat < 0x20

theorem hexDigit?_digitChar : ∀ d < 16, hexDigit? (Nat.digitChar d) = some d := by decide

section

variable {c : Char} (rest : List Char)

theorem readPieces?_escaped {d : Char} (hc : c ≠ 'u') (hd : unescape? c = some d) :
    readPieces? ('\\' :: c :: rest) = (readPieces? rest).map fun (pieces, rest) => (.char d :: pieces, rest) := by
  rw [readPieces?]
  · rw [hd]
    cases readPieces? rest <;> rfl
  · exact fun _ _ _ _ _ h _ => hc h

theorem readPieces?_unit {n : Nat} (hn : n < 0x20) :
    readPieces? (['\\', 'u', '0', '0', Nat.digitChar (n / 16), Nat.digitChar (n % 16)] ++ rest) =
      (readPieces? rest).map fun (pieces, rest) => (.unit n :: pieces, rest) := by
  have hzero : hexDigit? '0' = some 0 := rfl
  have hunit : unit? '0' '0' (Nat.digitChar (n / 16)) (Nat.digitChar (n % 16)) = some n := by
    rw [unit?, hzero, hexDigit?_digitChar (n / 16) (by omega), hexDigit?_digitChar (n % 16) (by omega)]
    show some (((0 * 16 + 0) * 16 + n / 16) * 16 + n % 16) = some n
    rw [show ((0 * 16 + 0) * 16 + n / 16) * 16 + n % 16 = n by omega]
  simp only [List.cons_append, List.nil_append]
  rw [readPieces?, hunit]
  cases readPieces? rest <;> rfl

theorem readPieces?_plain (hquote : c ≠ '"') (hslash : c ≠ '\\') (hcontrol : ¬c.toNat < 0x20) :
    readPieces? (c :: rest) = (readPieces? rest).map fun (pieces, rest) => (.char c :: pieces, rest) := by
  rw [readPieces?]
  · rw [if_neg (not_or.mpr ⟨hslash, hcontrol⟩)]
    cases readPieces? rest <;> rfl
  · exact hquote
  · exact fun _ _ _ _ _ h _ => hslash h
  · exact fun _ _ h _ => hslash h

end

/-- A written character is read as one piece. -/
theorem readPieces?_encodeChar (c : Char) : ∃ piece : Piece, piece.StandsFor c ∧
    ∀ rest, readPieces? (encodeChar c ++ rest) = (readPieces? rest).map fun (pieces, rest) => (piece :: pieces, rest) := by
  unfold encodeChar
  by_cases hshort : c ∈ ['"', '\\', '\x08', '\x0c', '\n', '\r', '\t']
  · refine ⟨.char c, Or.inl rfl, fun rest => ?_⟩
    simp only [List.mem_cons, List.not_mem_nil, or_false] at hshort
    rcases hshort with rfl | rfl | rfl | rfl | rfl | rfl | rfl <;> exact readPieces?_escaped rest (by decide) rfl
  · simp only [List.mem_cons, List.not_mem_nil, or_false, not_or] at hshort
    obtain ⟨hquote, hslash, hb, hf, hn, hr, ht⟩ := hshort
    rw [if_neg hquote, if_neg hslash, if_neg hb, if_neg hf, if_neg hn, if_neg hr, if_neg ht]
    split
    · next hcontrol => exact ⟨.unit c.toNat, Or.inr ⟨rfl, hcontrol⟩, fun rest => readPieces?_unit rest hcontrol⟩
    · next hcontrol => exact ⟨.char c, Or.inl rfl, fun rest => readPieces?_plain rest hquote hslash hcontrol⟩

theorem readPieces?_encode (cs rest : List Char) : ∃ pieces : List Piece, List.Forall₂ Piece.StandsFor pieces cs ∧
    readPieces? (cs.flatMap encodeChar ++ '"' :: rest) = some (pieces, rest) := by
  induction cs with
  | nil => exact ⟨[], .nil, by rw [List.flatMap_nil, List.nil_append, readPieces?]⟩
  | cons c cs ih =>
    obtain ⟨pieces, hstand, hread⟩ := ih
    obtain ⟨piece, hpiece, hchar⟩ := readPieces?_encodeChar c
    refine ⟨piece :: pieces, .cons hpiece hstand, ?_⟩
    rw [List.flatMap_cons, List.append_assoc, hchar, hread, Option.map_some]

/-- A unit below those of the pairs stands for a character on its own, also before another unit. -/
theorem joinPieces?_unit {n : Nat} (hn : n < 0xd800) (rest : List Piece) :
    joinPieces? (.unit n :: rest) = (joinPieces? rest).map (Char.ofNat n :: ·) := by
  have hhigh : ¬(0xd800 ≤ n ∧ n < 0xdc00) := by omega
  have hlow : ¬(0xdc00 ≤ n ∧ n < 0xe000) := by omega
  have hpair : ¬(0xd800 ≤ n ∧ n < 0xe000) := by omega
  cases rest with
  | nil => simp [joinPieces?, hpair]
  | cons next rest =>
    cases next with
    | char c => simp [joinPieces?, hpair]
    | unit low => simp only [joinPieces?, hhigh, hlow, if_false]

/-- Pieces that stand for characters are put together to these. -/
theorem joinPieces?_eq {pieces : List Piece} {cs : List Char} (h : List.Forall₂ Piece.StandsFor pieces cs) :
    joinPieces? pieces = some cs := by
  induction h with
  | nil => rw [joinPieces?]
  | @cons piece c pieces cs hpiece _ ih =>
    rcases hpiece with rfl | ⟨rfl, hcontrol⟩
    · rw [joinPieces?, ih, Option.map_some]
    · rw [joinPieces?_unit (by omega), ih, Option.map_some, Char.ofNat_toNat]

end EntityGraph.Json.Token
