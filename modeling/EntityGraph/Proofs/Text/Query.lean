import EntityGraph.Proofs.Text.Literal
import Mathlib.Data.List.Basic

/-!
# Literals in query text

A query is read as a sequence of `Piece`s: the characters outside of literals, and the literals as wholes (`Literal.pieces?`). A
literal that was written for a string is one piece wherever it stands, and what comes before and after it is read as it would be
without it (`Literal.pieces?_render`).
-/

namespace EntityGraph.Text.Literal

/-! ## Escaping -/

/-- A backslash in front of every occurrence of a character. -/
def escape (special : Char) (cs : List Char) : List Char := cs.flatMap fun c => if c = special then ['\\', c] else [c]

/-- Backslashes are escaped first. The other way round the backslashes in front of marks would be escaped again. -/
theorem encode_eq_escape (cs : List Char) : encode cs = escape mark (escape '\\' cs) := by
  induction cs with
  | nil => rfl
  | cons c cs ih =>
    have hcons : escape '\\' (c :: cs) = (if c = '\\' then ['\\', c] else [c]) ++ escape '\\' cs := rfl
    have happend : ∀ l, escape mark (l ++ escape '\\' cs) = escape mark l ++ encode cs := by
      intro l
      rw [ih]
      exact List.flatMap_append
    rw [hcons, happend, encode]
    by_cases hmark : c = mark
    · subst hmark
      rfl
    · by_cases hslash : c = '\\'
      · subst hslash
        rfl
      · rw [if_neg (not_or.mpr ⟨hmark, hslash⟩), if_neg hslash]
        simp [escape, hmark]

/-! ## Reading -/

/-- Reads a literal from its opening mark on. -/
def readMarked? : List Char → Option (List Char × List Char)
  | [] => none
  | c :: cs => if c = mark then read? cs else none

theorem readMarked?_render (s : String) (rest : List Char) : readMarked? ((render s).toList ++ rest) = some (s.toList, rest) := by
  rw [render, String.toList_ofList, List.append_assoc, List.cons_append, List.singleton_append, readMarked?, if_pos rfl]
  exact read?_encode s.toList rest

/-- A literal that is closed is read alike whatever comes after it. -/
theorem read?_eq_some {cs s rest : List Char} (h : read? cs = some (s, rest)) :
    ∃ text, cs = text ++ mark :: rest ∧ ∀ after, read? (text ++ mark :: after) = some (s, after) := by
  fun_induction read? cs generalizing s with
  | case1 => cases h
  | case2 c cs ih =>
    obtain ⟨⟨t, rest'⟩, hread, heq⟩ := Option.map_eq_some_iff.mp h
    obtain ⟨rfl, rfl⟩ := Prod.mk.inj heq
    obtain ⟨text, rfl, hafter⟩ := ih hread
    refine ⟨'\\' :: c :: text, rfl, fun after => ?_⟩
    rw [List.cons_append, List.cons_append, read?_escaped, hafter, Option.map_some]
  | case3 cs =>
    obtain ⟨rfl, rfl⟩ := Prod.mk.inj (Option.some.inj h)
    exact ⟨[], rfl, read?_mark⟩
  | case4 c cs hpair hmark ih =>
    obtain ⟨⟨t, rest'⟩, hread, heq⟩ := Option.map_eq_some_iff.mp h
    obtain ⟨rfl, rfl⟩ := Prod.mk.inj heq
    have hslash : c ≠ '\\' := by
      intro hc
      cases cs with
      | nil => cases hread
      | cons d ds => exact hpair d ds hc rfl
    obtain ⟨text, rfl, hafter⟩ := ih hread
    refine ⟨c :: text, rfl, fun after => ?_⟩
    rw [List.cons_append, read?_plain (not_or.mpr ⟨hmark, hslash⟩), hafter, Option.map_some]

theorem length_lt_of_read? {cs s rest : List Char} (h : read? cs = some (s, rest)) : rest.length < cs.length := by
  obtain ⟨text, rfl, -⟩ := read?_eq_some h
  simp
  omega

/-! ## Queries -/

/-- A piece of a query. -/
inductive Piece
  /-- A character that stands in no literal. -/
  | char (c : Char)
  | literal (s : List Char)
deriving DecidableEq, Repr

/-- The pieces of a query, if all of its literals are closed. -/
def pieces? : List Char → Option (List Piece)
  | [] => some []
  | c :: cs =>
    if c = mark then
      match h : read? cs with
      | none => none
      | some (s, rest) =>
        have : rest.length < cs.length := length_lt_of_read? h
        (pieces? rest).map (.literal s :: ·)
    else (pieces? cs).map (.char c :: ·)
termination_by cs => cs.length

theorem pieces?_nil : pieces? [] = some [] := by rw [pieces?]

theorem pieces?_char {c : Char} (hc : c ≠ mark) (cs : List Char) : pieces? (c :: cs) = (pieces? cs).map (.char c :: ·) := by
  rw [pieces?, if_neg hc]

theorem pieces?_literal {cs s rest : List Char} (h : read? cs = some (s, rest)) :
    pieces? (mark :: cs) = (pieces? rest).map (.literal s :: ·) := by
  rw [pieces?, if_pos rfl]
  split
  · next hnone => cases hnone.symm.trans h
  · next hsome =>
    obtain ⟨rfl, rfl⟩ := Prod.mk.inj (Option.some.inj (hsome.symm.trans h))
    rfl

/-- A text with all literals closed is read alike whatever comes after it. -/
theorem pieces?_append {before : List Char} {ps : List Piece} (h : pieces? before = some ps) (after : List Char) :
    pieces? (before ++ after) = (pieces? after).map (ps ++ ·) := by
  fun_induction pieces? before generalizing ps with
  | case1 =>
    obtain rfl := Option.some.inj h
    simp
  | case2 cs hnone => cases h
  | case3 cs s rest hread _ ih =>
    obtain ⟨qs, hqs, rfl⟩ := Option.map_eq_some_iff.mp h
    obtain ⟨text, rfl, hafter⟩ := read?_eq_some hread
    rw [List.cons_append, List.append_assoc, List.cons_append, pieces?_literal (hafter _), ih hqs, Option.map_map]
    rfl
  | case4 c cs hc ih =>
    obtain ⟨qs, hqs, rfl⟩ := Option.map_eq_some_iff.mp h
    rw [List.cons_append, pieces?_char hc, ih hqs, Option.map_map]
    rfl

theorem pieces?_render (s : String) : pieces? (render s).toList = some [.literal s.toList] := by
  rw [render, String.toList_ofList, List.cons_append, pieces?_literal (read?_encode s.toList []), pieces?_nil, Option.map_some]

/-- A text without marks has no literals. -/
theorem pieces?_plain {cs : List Char} (h : mark ∉ cs) : pieces? cs = some (cs.map .char) := by
  induction cs with
  | nil => exact pieces?_nil
  | cons c cs ih =>
    rw [List.mem_cons, not_or] at h
    rw [pieces?_char (Ne.symm h.1), ih h.2, Option.map_some, List.map_cons]

end EntityGraph.Text.Literal
