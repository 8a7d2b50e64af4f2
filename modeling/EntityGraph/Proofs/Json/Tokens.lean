import EntityGraph.Proofs.Collections
import EntityGraph.Proofs.Json.Numerals
import EntityGraph.Proofs.Json.Strings

/-!
# The tokens of a written value

The text of a value is cut into its tokens (`Json.scan?_compact`): a token for each bracket, separator, key and value without
parts. Words and numerals end where a separator, a bracket or the end of the text comes.
-/

namespace EntityGraph.Json

/-! ## Tokens -/

mutual

/-- The tokens of the text of a value. -/
def tokens : Json → List Token
  | .null => [.word (some .null)]
  | .bool b => [.word (some (.bool b))]
  | .int n => [.word (some (.int n))]
  | .float x => [.word (some (.float x))]
  | .string s => [.text (some s)]
  | .list items => .openList :: [Token.comma].intercalate (itemTokens items) ++ [.closeList]
  | .object members => .openObject :: [Token.comma].intercalate (memberTokens members) ++ [.closeObject]

def itemTokens : List Json → List (List Token)
  | [] => []
  | j :: js => j.tokens :: itemTokens js

def memberTokens : List (String × Json) → List (List Token)
  | [] => []
  | (key, j) :: rest => (.text (some key) :: .colon :: j.tokens) :: memberTokens rest

end

mutual

/-- A value whose numbers are read back: every integer fits 64 bits, with a sign or without. -/
def Readable : Json → Prop
  | .int n => Int64.minValue.toInt ≤ n ∧ n < UInt64.size
  | .float x => x.ReadsBack
  | .list items => ItemsReadable items
  | .object members => MembersReadable members
  | _ => True

def ItemsReadable : List Json → Prop
  | [] => True
  | j :: js => j.Readable ∧ ItemsReadable js

def MembersReadable : List (String × Json) → Prop
  | [] => True
  | (_, j) :: rest => j.Readable ∧ MembersReadable rest

end

namespace Token

/-! ## Scanning one token -/

/-- A text before which a word or numeral ends. -/
def Stops (rest : List Char) : Prop := ∀ c ∈ rest.head?, isWordChar c = false

/-- A text is cut into the given tokens, if what follows lets a word at its end be over. -/
def Scans (text : List Char) (tokens : List Token) : Prop :=
  ∀ rest, Stops rest → scan? (text ++ rest) = (scan? rest).map (tokens ++ ·)

/-- The characters that are tokens on their own. -/
def brackets : List Char := ['[', ']', '{', '}', ',', ':']

theorem mem_brackets_iff {c : Char} : c ∈ brackets ↔ ∃ token, ofBracket? c = some token := by
  unfold ofBracket? brackets
  simp only [List.mem_cons, List.not_mem_nil, or_false]
  constructor
  · rintro (rfl | rfl | rfl | rfl | rfl | rfl) <;> exact ⟨_, rfl⟩
  · rintro ⟨token, h⟩
    by_contra hc
    simp only [not_or] at hc
    simp [hc] at h

theorem mem_blanks_iff {c : Char} : isBlank c ↔ c ∈ [' ', '\n', '\t', '\r'] := by
  simp [isBlank, or_assoc]

/-- No character of a word is a blank, a quote or a bracket. -/
theorem not_mem_of_isWordChar {c : Char} (h : isWordChar c) : c ∉ '"' :: [' ', '\n', '\t', '\r'] ++ brackets := by
  intro hc
  have hnone : ('"' :: [' ', '\n', '\t', '\r'] ++ brackets).all fun c => !isWordChar c := by decide
  have hword := List.all_eq_true.mp hnone c hc
  rw [h] at hword
  cases hword

/-- A character that is a token on its own is one whatever follows. -/
theorem scan?_bracket {c : Char} {token : Token} (h : ofBracket? c = some token) (rest : List Char) :
    scan? (c :: rest) = (scan? rest).map (token :: ·) := by
  have hc : c ∈ brackets := mem_brackets_iff.mpr ⟨token, h⟩
  have hblank : ∀ c ∈ brackets, isBlank c = false ∧ c ≠ '"' := by simp [brackets, isBlank]
  rw [scan?, (hblank c hc).1, if_neg Bool.false_ne_true, if_neg (hblank c hc).2, h]

theorem scans_word {word : List Char} {token : Token} (hne : word ≠ []) (hword : ∀ c ∈ word, isWordChar c)
    (htoken : ofWord? word = some token) : Scans word [token] := by
  intro rest hrest
  cases word with
  | nil => exact absurd rfl hne
  | cons c cs =>
    rw [List.forall_mem_cons] at hword
    have hc := not_mem_of_isWordChar hword.1
    rw [List.cons_append, List.mem_cons, List.mem_append, not_or, not_or, ← mem_blanks_iff, mem_brackets_iff] at hc
    obtain ⟨hquote, hblank, hbracket⟩ := hc
    have hnone : ofBracket? c = none := Option.eq_none_iff_forall_ne_some.mpr fun t ht => hbracket ⟨t, ht⟩
    obtain ⟨htake, hdrop⟩ := takeWhile_append_stop hword.2 hrest
    rw [List.cons_append, scan?, if_neg hblank, if_neg hquote, hnone]
    simp only [htake, hdrop, htoken]
    cases scan? rest <;> rfl

theorem scan?_string (s : String) (rest : List Char) :
    scan? ((stringText s).toList ++ rest) = (scan? rest).map (.text (some s) :: ·) := by
  obtain ⟨pieces, hstand, hread⟩ := readPieces?_encode s.toList rest
  rw [stringText, String.toList_ofList, List.cons_append, List.cons_append, List.append_assoc, List.singleton_append, scan?,
    if_neg (by decide), if_pos rfl]
  split
  · next hnone => cases hnone.symm.trans hread
  · next hsome =>
    obtain ⟨rfl, rfl⟩ := Prod.mk.inj (Option.some.inj (hsome.symm.trans hread))
    rw [joinPieces?_eq hstand, Option.map_some, String.ofList_toList]

/-! ## Scanning several tokens -/

theorem stops_append {text rest : List Char} (ht : Stops text) (hr : Stops rest) : Stops (text ++ rest) := by
  cases text with
  | nil => exact hr
  | cons c cs => exact ht

theorem scans_nil : Scans [] [] := by
  intro rest _
  simp

variable {text text' : List Char} {tokens tokens' : List Token}

theorem Scans.append (h : Scans text tokens) (h' : Scans text' tokens') (hstops : Stops text') :
    Scans (text ++ text') (tokens ++ tokens') := by
  intro rest hrest
  rw [List.append_assoc, h _ (stops_append hstops hrest), h' rest hrest, Option.map_map]
  congr 1
  funext ts
  exact (List.append_assoc ..).symm

theorem Scans.bracket {c : Char} {token : Token} (hc : ofBracket? c = some token) (h : Scans text tokens) :
    Scans (c :: text) (token :: tokens) := by
  intro rest hrest
  rw [List.cons_append, scan?_bracket hc, h rest hrest, Option.map_map]
  rfl

theorem Scans.string (s : String) (h : Scans text tokens) : Scans ((stringText s).toList ++ text) (.text (some s) :: tokens) := by
  intro rest hrest
  rw [List.append_assoc, scan?_string, h rest hrest, Option.map_map]
  rfl

/-- Texts with commas between them. -/
theorem scans_intercalate {texts : List (List Char)} {parts : List (List Token)} (h : List.Forall₂ Scans texts parts) :
    Scans ([','].intercalate texts) ([Token.comma].intercalate parts) := by
  induction h with
  | nil => exact scans_nil
  | @cons text tokens texts parts hfirst hrest ih =>
    cases hrest with
    | nil => rwa [List.intercalate_singleton, List.intercalate_singleton]
    | cons hsecond hrest =>
      rw [List.intercalate_cons_cons, List.intercalate_cons_cons, List.append_assoc, List.append_assoc]
      exact hfirst.append (ih.bracket rfl) (by simp [Stops]; decide)

/-- Parts between brackets. -/
theorem Scans.enclosed {left right : Char} {opening closing : Token} (hopening : ofBracket? left = some opening)
    (hclosing : ofBracket? right = some closing) (h : Scans text tokens) :
    Scans (left :: text ++ [right]) (opening :: tokens ++ [closing]) := by
  have hstops : Stops [right] := by
    intro c hc
    obtain rfl : right = c := Option.some.inj hc
    have hmem : right ∈ brackets := mem_brackets_iff.mpr ⟨closing, hclosing⟩
    exact Bool.not_eq_true _ ▸ fun hword => not_mem_of_isWordChar hword (List.mem_append_right _ hmem)
  exact (h.append (scans_nil.bracket hclosing) hstops).bracket hopening

end Token

/-! ## Values -/

theorem Token.isWordChar_of_isNumberChar {c : Char} (h : DecimalNotation.IsNumberChar c) : isWordChar c := by
  rcases h with hd | hmark
  · simp [isWordChar, Char.isAlphanum, hd]
  · have hall : ∀ c ∈ ['-', '+', '.', 'e'], isWordChar c := by simp [isWordChar]
    exact hall c hmark

/-- A numeral is one token. -/
theorem Token.scans_numeral {word : List Char} {j : Json} (hread : (Numeral.read? word).bind Numeral.toJson? = some j)
    (hword : ∀ c ∈ word, DecimalNotation.IsNumberChar c) : Token.Scans word [.word (some j)] := by
  obtain ⟨numeral, hnumeral, hvalue⟩ := Option.bind_eq_some_iff.mp hread
  have hletter : ∀ c ∈ ['n', 't', 'f'], ¬DecimalNotation.IsNumberChar c := by simp [DecimalNotation.IsNumberChar]
  have hne : ∀ c ∈ ['n', 't', 'f'], ∀ cs, word ≠ c :: cs := by
    rintro c hc cs rfl
    exact hletter c hc (hword c List.mem_cons_self)
  refine scans_word ?_ (fun c hc => isWordChar_of_isNumberChar (hword c hc)) ?_
  · rintro rfl
    cases hnumeral
  · rw [ofWord?, if_neg (hne 'n' (by decide) _), if_neg (hne 't' (by decide) _), if_neg (hne 'f' (by decide) _), hnumeral,
      Option.map_some, hvalue]

mutual

theorem scans_compact (j : Json) (h : j.Readable) : Token.Scans j.compact.toList j.tokens := by
  match j with
  | .null => exact Token.scans_word (by decide) (List.all_eq_true.mp (by decide)) rfl
  | .bool b => cases b <;> exact Token.scans_word (by decide) (List.all_eq_true.mp (by decide)) rfl
  | .int n =>
    refine Token.scans_numeral (Numeral.toJson?_int h.1 h.2) fun c hc => ?_
    rcases isDigit_or_sign hc with hd | rfl
    · exact Or.inl hd
    · exact Or.inr (by decide)
  | .float x =>
    refine Token.scans_numeral (Numeral.toJson?_float h) ?_
    change ∀ c ∈ (floatText x).toList, _
    rw [floatText_eq h]
    exact numberLayout.isNumberChar_render x
  | .string s =>
    have hstring := Token.scans_nil.string s
    rwa [List.append_nil] at hstring
  | .list items =>
    have hitems : Token.Scans ('[' :: _ ++ [']']) _ := (Token.scans_intercalate (scans_compactItems items h)).enclosed rfl rfl
    rw [compact, String.toList_append, String.toList_append, String.toList_intercalate]
    exact hitems
  | .object members =>
    have hmembers : Token.Scans ('\x7b' :: _ ++ ['\x7d']) _ :=
      (Token.scans_intercalate (scans_compactMembers members h)).enclosed rfl rfl
    rw [compact, String.toList_append, String.toList_append, String.toList_intercalate]
    exact hmembers

theorem scans_compactItems (items : List Json) (h : ItemsReadable items) :
    List.Forall₂ Token.Scans ((compactItems items).map String.toList) (itemTokens items) := by
  match items with
  | [] => exact .nil
  | j :: js => exact .cons (scans_compact j h.1) (scans_compactItems js h.2)

theorem scans_compactMembers (members : List (String × Json)) (h : MembersReadable members) :
    List.Forall₂ Token.Scans ((compactMembers members).map String.toList) (memberTokens members) := by
  match members with
  | [] => exact .nil
  | (key, j) :: rest =>
    refine .cons ?_ (scans_compactMembers rest h.2)
    have hvalue := (scans_compact j h.1).bracket (c := ':') rfl
    rw [String.toList_append, String.toList_append, List.append_assoc]
    exact hvalue.string key

end

/-- The text of a value is cut into the value's tokens. -/
theorem scan?_compact {j : Json} (h : j.Readable) : Token.scan? j.compact.toList = some j.tokens := by
  have hscan := scans_compact j h [] (by simp [Token.Stops])
  rw [List.append_nil] at hscan
  rw [hscan, Token.scan?, Option.map_some, List.append_nil]

end EntityGraph.Json
