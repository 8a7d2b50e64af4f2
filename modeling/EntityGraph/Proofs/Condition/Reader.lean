import EntityGraph.Condition.Text
import EntityGraph.Proofs.Collections
import EntityGraph.Proofs.Number.Decimal
import EntityGraph.Proofs.Text.Literal
import Mathlib.Data.List.Basic
import Std.Data.String.ToInt

/-!
# Reading conditions back

`Reader.parse?` reads the text of a condition, without looking ahead further than to the word or mark that tells the forms apart.
A parenthesis with a single member is read as a disjunction, and `true` and `false` as the truth values. This module has the
readers and what they make of names, operators, values and lists; the conditions themselves are in
`EntityGraph.Proofs.Condition.Unambiguous`.
-/

namespace EntityGraph

/-- The values that a text stands for exactly: all but the floating-point numbers. -/
def Value.Exact : Value → Prop
  | .float _ => False
  | _ => True

namespace Condition.Reader

/-! ## The readers -/

/-- Takes a given text off the front. -/
def expect? (text : String) (cs : List Char) : Option (List Char) := text.toList.isPrefixOf? cs

/-- Takes a name off the front, as long as it goes on. -/
def name? (cs : List Char) : Option (String × List Char) :=
  let word := cs.takeWhile Variable.isSubsequent
  if Variable.isName word then some (String.ofList word, cs.dropWhile Variable.isSubsequent) else none

/-- Takes one item or more off the front, with a text between them, but no more of them than a bound. -/
def items? {α : Type} (separator : String) (item? : List Char → Option (α × List Char)) :
    Nat → List Char → Option (List α × List Char)
  | 0, _ => none
  | bound + 1, cs => do
    let (item, cs) ← item? cs
    match expect? separator cs with
    | some cs => do
      let (items, cs) ← items? separator item? bound cs
      return (item :: items, cs)
    | none => return ([item], cs)

/-- Takes one item or more off the front. As each takes a character at least, the length of the text bounds their number. -/
def list? {α : Type} (separator : String) (item? : List Char → Option (α × List Char)) (cs : List Char) :
    Option (List α × List Char) := items? separator item? cs.length cs

/-- The operator of a comparison and the blank after it. -/
def operator? (cs : List Char) : Option (Comparison × List Char) :=
  Comparison.all.findSome? fun op => (expect? (op.symbol ++ " ") cs).map fun cs => (op, cs)

/-- The characters of values that are no strings. -/
def isScalarChar (c : Char) : Bool := Variable.isSubsequent c || c == '-'

/-- The value that a word or a numeral stands for. -/
def scalar? (word : String) : Option Value :=
  if word = "NULL" then some .null
  else if word = "true" then some (.bool .true)
  else if word = "false" then some (.bool .false)
  else word.toInt?.map fun n => .int (Int64.ofInt n)

def value? (cs : List Char) : Option (Value × List Char) :=
  match cs.head? with
  | some '\x27' => (Text.Literal.read? cs.tail).map fun (s, cs) => (.string (String.ofList s), cs)
  | _ => (scalar? (String.ofList (cs.takeWhile isScalarChar))).map fun value => (value, cs.dropWhile isScalarChar)

/-- What is asked of an attribute of a variable, after the dot. -/
def attribute? (subject : Variable) (cs : List Char) : Option (Condition × List Char) := do
  let (attr, cs) ← name? cs
  match expect? " IS NULL" cs, expect? " IN [" cs with
  | some cs, _ => return (.isNull subject attr, cs)
  | none, some cs =>
    match expect? "]" cs with
    | some cs => return (.isIn subject attr [], cs)
    | none => do
      let (values, cs) ← list? ", " value? cs
      return (.isIn subject attr values, ← expect? "]" cs)
  | none, none => do
    let (op, cs) ← operator? (← expect? " " cs)
    let (value, cs) ← value? cs
    return (.compare subject attr op value, cs)

def pattern? (cs : List Char) : Option (EdgePattern × List Char) := do
  let (root, cs) ← name? (← expect? "(" cs)
  match expect? ")-[:" cs with
  | some cs => do
    let (label, cs) ← name? cs
    let (related, cs) ← name? (← expect? "]->(" cs)
    return (⟨⟨root⟩, ⟨related⟩, label, .outgoing⟩, ← expect? ")" cs)
  | none => do
    let (label, cs) ← name? (← expect? ")<-[:" cs)
    let (related, cs) ← name? (← expect? "]-(" cs)
    return (⟨⟨root⟩, ⟨related⟩, label, .incoming⟩, ← expect? ")" cs)

/-- The quantifier whose function has a name. -/
def quantifier? (name : String) : Option Quantifier := Quantifier.every.find? fun q => q.function == name

section Nested

/-! The readers of the forms with conditions inside take the reader of those conditions. -/

variable (condition? : List Char → Option (Condition × List Char))

/-- A quantified condition, after its opening parenthesis. The related variable has to be the same in all three places. -/
def quantified? (quantifier : Quantifier) (cs : List Char) : Option (Condition × List Char) := do
  let (related, cs) ← name? cs
  let (pattern, cs) ← pattern? (← expect? " IN [" cs)
  if pattern.related.name ≠ related then none
  let (predicate, cs) ← condition? (← expect? (" | " ++ related ++ "] WHERE ") cs)
  return (.quantified quantifier pattern predicate, ← expect? ")" cs)

/-- A conjunction or disjunction, after its opening parenthesis. -/
def group? (cs : List Char) : Option (Condition × List Char) := do
  let (first, cs) ← condition? cs
  match expect? ")" cs, expect? " AND " cs with
  | some cs, _ => return (.or [first], cs)
  | none, some cs => do
    let (others, cs) ← list? " AND " condition? cs
    return (.and (first :: others), ← expect? ")" cs)
  | none, none => do
    let cs ← expect? " OR " cs
    let (others, cs) ← list? " OR " condition? cs
    return (.or (first :: others), ← expect? ")" cs)

/-- A condition that begins with a word which is neither a variable nor a quantifier's function, after the word. -/
def word? (word : String) (cs : List Char) : Option (Condition × List Char) :=
  if word = "true" then some (.true, cs)
  else if word = "false" then some (.false, cs)
  else if word = "NOT" then do
    let (condition, cs) ← condition? (← expect? " (" cs)
    return (.not condition, ← expect? ")" cs)
  else none

/-- A condition, with a reader for the conditions inside. -/
def step? (cs : List Char) : Option (Condition × List Char) :=
  match expect? "(" cs with
  | some cs => group? condition? cs
  | none => do
    let (word, cs) ← name? cs
    match expect? "." cs, expect? "(" cs with
    | some cs, _ => attribute? ⟨word⟩ cs
    | none, some cs => do quantified? condition? (← quantifier? word) cs
    | none, none => word? condition? word cs

end Nested

/-- A condition with no more than a number of conditions around each other. -/
def condition? : Nat → List Char → Option (Condition × List Char)
  | 0, _ => none
  | depth + 1, cs => step? (condition? depth) cs

/-- The condition that a text is, if it is one. -/
def parse? (text : String) : Option Condition :=
  match condition? text.toList.length text.toList with
  | some (condition, []) => some condition
  | _ => none

/-! ## What the readers of words make of a text -/

variable {rest : List Char}

/-- The characters that may come after a value or a condition. -/
def isEnd (c : Char) : Bool := c == ' ' || c == ',' || c == ']' || c == ')'

/-- A text that goes on, if it does, with a character that may come after a value or a condition. -/
def Ends (rest : List Char) : Prop := ∀ c ∈ rest.head?, isEnd c

theorem Ends.append (text : String) (h : text.toList.head?.any isEnd) (rest : List Char) : Ends (text.toList ++ rest) := by
  intro d hd
  cases htext : text.toList with
  | nil => simp [htext] at h
  | cons c cs =>
    rw [htext] at h hd
    obtain rfl : c = d := Option.some.inj hd
    exact h

theorem expect?_append (text : String) (rest : List Char) : expect? text (text.toList ++ rest) = some rest :=
  List.isPrefixOf?_eq_some_iff_append_eq.mpr rfl

/-- A text is not taken off another one that begins with a different character. -/
theorem expect?_eq_none {text : String} {c : Char} (htext : text.toList.head? = some c) {cs : List Char}
    (hcs : cs.head? ≠ some c) : expect? text cs = none := by
  cases h : expect? text cs with
  | none => rfl
  | some rest =>
    have happ : text.toList ++ rest = cs := List.isPrefixOf?_eq_some_iff_append_eq.mp h
    rw [← happ, List.head?_append, htext] at hcs
    exact absurd rfl hcs

theorem isSubsequent_of_isName {word : List Char} (h : Variable.isName word) : ∀ c ∈ word, Variable.isSubsequent c := by
  cases word with
  | nil => simp
  | cons c cs =>
    rw [Variable.isName, Bool.and_eq_true, List.all_eq_true] at h
    intro d hd
    rcases List.mem_cons.mp hd with rfl | hd
    · have hi := h.1
      simp only [Variable.isInitial, Bool.or_eq_true] at hi
      rcases hi with ha | hu
      · simp [Variable.isSubsequent, Char.isAlphanum, ha]
      · simp [Variable.isSubsequent, hu]
    · exact h.2 d hd

/-- A name is read to its end. -/
theorem name?_append {name : String} (h : Variable.isName name.toList) (rest : List Char)
    (hrest : ∀ c ∈ rest.head?, Variable.isSubsequent c = .false) : name? (name.toList ++ rest) = some (name, rest) := by
  obtain ⟨htake, hdrop⟩ := takeWhile_append_stop (isSubsequent_of_isName h) hrest
  simp only [name?, htake, hdrop, h, if_true, String.ofList_toList]

theorem operator?_append (op : Comparison) (rest : List Char) :
    operator? (op.symbol.toList ++ (" ".toList ++ rest)) = some (op, rest) := by
  cases op <;> rfl

theorem quantifier?_function (q : Quantifier) : quantifier? q.function = some q := by
  cases q <;> rfl

theorem isName_function (q : Quantifier) : Variable.isName q.function.toList := by
  cases q <;> rfl

/-! ## What the reader of values makes of a text -/

theorem isScalarChar_of_isEnd {c : Char} (h : isEnd c) : isScalarChar c = .false := by
  simp only [isEnd, Bool.or_eq_true, beq_iff_eq] at h
  rcases h with ((rfl | rfl) | rfl) | rfl <;> decide

theorem isSubsequent_of_isEnd {c : Char} (h : isEnd c) : Variable.isSubsequent c = .false :=
  (Bool.or_eq_false_iff.mp (isScalarChar_of_isEnd h)).1

theorem numeral_ne_empty (n : Int) : toString n ≠ "" := by
  have hrepr : toString n = n.repr := rfl
  rw [hrepr, Int.repr_eq_if]
  split
  · exact Nat.repr_ne_empty
  · simp

theorem isScalarChar_of_numeral {n : Int} {c : Char} (h : c ∈ (toString n).toList) : isScalarChar c := by
  rcases isDigit_or_sign h with hd | rfl
  · simp [isScalarChar, Variable.isSubsequent, Char.isAlphanum, hd]
  · rfl

/-- No numeral is one of the words, all of which have letters. -/
theorem scalar?_numeral (n : Int64) : scalar? (toString n.toInt) = some (.int n) := by
  have hne : ∀ (word : String) (c : Char), c ∈ word.toList → ¬(c.isDigit ∨ c = '-') → toString n.toInt ≠ word := by
    rintro _ c hc hletter rfl
    exact hletter (isDigit_or_sign hc)
  have hread : (toString n.toInt).toInt? = some n.toInt := Int.toInt?_repr _
  rw [scalar?, if_neg (hne "NULL" 'N' (by decide) (by decide)), if_neg (hne "true" 't' (by decide) (by decide)),
    if_neg (hne "false" 'f' (by decide) (by decide)), hread, Option.map_some, Int64.ofInt_toInt]

/-- A value that is no string is read to its end: its text is a run of the characters of such values. -/
theorem value?_scalar {word : String} {value : Value} (hne : word ≠ "") (hword : ∀ c ∈ word.toList, isScalarChar c)
    (hvalue : scalar? word = some value) (hrest : ∀ c ∈ rest.head?, isScalarChar c = .false) :
    value? (word.toList ++ rest) = some (value, rest) := by
  obtain ⟨htake, hdrop⟩ := takeWhile_append_stop hword hrest
  obtain ⟨c, cs, hcs⟩ : ∃ c cs, word.toList = c :: cs := by
    refine List.exists_cons_of_ne_nil fun hnil => hne ?_
    rw [← String.toList_inj, hnil]
    rfl
  have hc : isScalarChar c := hword c (by simp [hcs])
  have hmark : c ≠ '\x27' := by
    rintro rfl
    exact absurd hc (by decide)
  rw [value?]
  split
  case h_1 hhead =>
    rw [hcs] at hhead
    exact absurd (Option.some.inj hhead) hmark
  case h_2 => rw [htake, hdrop, String.ofList_toList, hvalue, Option.map_some]

theorem value?_string (s : String) (rest : List Char) :
    value? ((Text.Literal.render s).toList ++ rest) = some (.string s, rest) := by
  have hread := Text.Literal.read?_encode s.toList rest
  simp only [Text.Literal.render, String.toList_ofList, List.cons_append, List.append_assoc, List.nil_append]
  show (Text.Literal.read? (Text.Literal.encode s.toList ++ Text.Literal.mark :: rest)).map _ = _
  rw [hread, Option.map_some]
  exact congrArg (fun t => some (Value.string t, rest)) String.ofList_toList

/-- Every value but a floating-point number is read back from its text. -/
theorem value?_append {value : Value} (hv : value.Exact) (hrest : Ends rest) :
    value? (value.render.toList ++ rest) = some (value, rest) := by
  have hstop : ∀ c ∈ rest.head?, isScalarChar c = .false := fun c hc => isScalarChar_of_isEnd (hrest c hc)
  match value with
  | .null => exact value?_scalar (by decide) (List.all_eq_true.mp (by decide)) rfl hstop
  | .bool .true => exact value?_scalar (by decide) (List.all_eq_true.mp (by decide)) rfl hstop
  | .bool .false => exact value?_scalar (by decide) (List.all_eq_true.mp (by decide)) rfl hstop
  | .int n =>
    exact value?_scalar (numeral_ne_empty n.toInt) (fun c => isScalarChar_of_numeral) (scalar?_numeral n) hstop
  | .string s => exact value?_string s rest

/-- The text of a value begins with the mark of a string or with a character of the other values. -/
theorem exists_render_eq_cons {value : Value} (hv : value.Exact) :
    ∃ c cs, value.render.toList = c :: cs ∧ (c = Text.Literal.mark ∨ isScalarChar c) := by
  have hscalar : ∀ word : String, word ≠ "" → (∀ c ∈ word.toList, isScalarChar c) →
      ∃ c cs, word.toList = c :: cs ∧ (c = Text.Literal.mark ∨ isScalarChar c) := by
    intro word hne hword
    obtain ⟨c, cs, hcs⟩ := List.exists_cons_of_ne_nil (mt String.toList_eq_nil_iff.mp hne)
    exact ⟨c, cs, hcs, Or.inr (hword c (by simp [hcs]))⟩
  match value with
  | .null => exact hscalar "NULL" (by decide) (List.all_eq_true.mp (by decide))
  | .bool .true => exact hscalar "true" (by decide) (List.all_eq_true.mp (by decide))
  | .bool .false => exact hscalar "false" (by decide) (List.all_eq_true.mp (by decide))
  | .int n => exact hscalar _ (numeral_ne_empty n.toInt) fun c => isScalarChar_of_numeral
  | .string s => exact ⟨Text.Literal.mark, _, String.toList_ofList, Or.inl rfl⟩

/-! ## Lists -/

theorem head?_intercalate (separator : List Char) {part : List Char} (parts : List (List Char)) (h : part ≠ []) :
    (separator.intercalate (part :: parts)).head? = part.head? := by
  obtain ⟨c, cs, rfl⟩ := List.exists_cons_of_ne_nil h
  cases parts with
  | nil => rw [List.intercalate_singleton]
  | cons b parts =>
    rw [List.intercalate_cons_cons]
    rfl

theorem length_le_length_intercalate (separator : List Char) {part : List Char} {parts : List (List Char)} (h : part ∈ parts) :
    part.length ≤ (separator.intercalate parts).length := by
  match parts with
  | [a] =>
    obtain rfl : part = a := by simpa using h
    exact Nat.le_of_eq (congrArg List.length List.intercalate_singleton.symm)
  | a :: b :: parts =>
    rw [List.intercalate_cons_cons, List.length_append, List.length_append]
    rcases List.mem_cons.mp h with rfl | hm
    · omega
    · have := length_le_length_intercalate separator hm
      omega

theorem length_parts_le (separator : List Char) {parts : List (List Char)} (h : ∀ part ∈ parts, part ≠ []) :
    parts.length ≤ (separator.intercalate parts).length := by
  match parts with
  | [] => simp
  | [a] =>
    have := List.length_pos_iff.mpr (h a (by simp))
    rwa [List.intercalate_singleton]
  | a :: b :: parts =>
    have := List.length_pos_iff.mpr (h a (by simp))
    have := length_parts_le separator fun part hp => h part (List.mem_cons_of_mem a hp)
    rw [List.intercalate_cons_cons, List.length_append, List.length_append, List.length_cons]
    omega

section

variable {α β : Type} {separator : String} {item? : List Char → Option (β × List Char)} {text : α → List Char}
  {value : α → β} (hseparator : separator.toList.head?.any isEnd) (hrest : Ends rest) (hend : expect? separator rest = none)
include hseparator hrest hend

/-- Items that are read back one by one are read back as a list, with the text between them that the list was written with. -/
theorem items?_append : ∀ (l : List α) (bound : Nat), l ≠ [] → l.length ≤ bound →
    (∀ a ∈ l, ∀ rest, Ends rest → item? (text a ++ rest) = some (value a, rest)) →
    items? separator item? bound (separator.toList.intercalate (l.map text) ++ rest) = some (l.map value, rest)
  | [a], bound + 1, _, _, hread => by
    have hfirst := hread a (by simp) rest hrest
    rw [List.map_singleton, List.intercalate_singleton, items?, hfirst]
    simp [hend]
  | a :: b :: l, bound + 1, _, hbound, hread => by
    have hothers := items?_append (b :: l) bound (by simp) (by simpa using hbound) fun x hx =>
      hread x (List.mem_cons_of_mem a hx)
    have hfirst := fun cs => hread a (by simp) (separator.toList ++ cs) (Ends.append separator hseparator cs)
    rw [List.map_cons, List.map_cons, List.intercalate_cons_cons, List.append_assoc, List.append_assoc, ← List.map_cons,
      items?, hfirst]
    simp only [Option.bind_eq_bind, Option.bind_some, expect?_append, hothers]
    rfl

theorem list?_append {l : List α} (hl : l ≠ []) (htext : ∀ a ∈ l, text a ≠ [])
    (hread : ∀ a ∈ l, ∀ rest, Ends rest → item? (text a ++ rest) = some (value a, rest)) :
    list? separator item? (separator.toList.intercalate (l.map text) ++ rest) = some (l.map value, rest) := by
  refine items?_append hseparator hrest hend l _ hl ?_ hread
  have hparts : ∀ part ∈ l.map text, part ≠ [] := by simpa using htext
  have hle := length_parts_le separator.toList hparts
  rw [List.length_map] at hle
  rw [List.length_append]
  omega

end

end Condition.Reader

end EntityGraph
