import EntityGraph.Proofs.Condition.Unambiguous
import EntityGraph.Proofs.Number.Decimal
import EntityGraph.Proofs.Text.Query

/-!
# Strings in the text of conditions

The strings that a condition compares with are the literals of its text, and nothing else in the text depends on them: it reads
as the text of the condition's outline, which has an empty string in place of each (`Condition.reads`). That is so as long as no
name in the condition has a quote.
-/

namespace EntityGraph

open Text.Literal

/-! ## Texts and their outlines -/

namespace Text.Literal

/-- The piece with the content of a literal taken out. -/
def Piece.outline : Piece → Piece
  | .char c => .char c
  | .literal _ => .literal []

def Piece.literal? : Piece → Option (List Char)
  | .char _ => none
  | .literal s => some s

/-- A text has the given strings as its literals, and is otherwise read as an outline that has empty literals in their place. -/
def Reads (text outline : String) (strings : List String) : Prop :=
  ∃ ps, pieces? text.toList = some ps ∧ ps.filterMap Piece.literal? = strings.map String.toList ∧
    pieces? outline.toList = some (ps.map Piece.outline)

/-- A text without quotes. -/
def Unmarked (text : String) : Prop := mark ∉ text.toList

instance (text : String) : Decidable (Unmarked text) := inferInstanceAs (Decidable (mark ∉ text.toList))

@[simp] theorem unmarked_append {s t : String} : Unmarked (s ++ t) ↔ Unmarked s ∧ Unmarked t := by
  simp [Unmarked]

theorem Unmarked.reads {text : String} (h : Unmarked text) : Reads text text [] := by
  have hread := pieces?_plain h
  refine ⟨_, hread, ?_, ?_⟩
  · rw [List.filterMap_map, List.map_nil]
    exact List.filterMap_eq_nil_iff.mpr fun _ _ => rfl
  · rw [hread, List.map_map]
    rfl

theorem reads_literal (s : String) : Reads (render s) (render "") [s] :=
  ⟨_, pieces?_render s, rfl, pieces?_render ""⟩

variable {t o t' o' : String} {ss ss' : List String}

theorem Reads.append (h : Reads t o ss) (h' : Reads t' o' ss') : Reads (t ++ t') (o ++ o') (ss ++ ss') := by
  obtain ⟨ps, hps, hss, hout⟩ := h
  obtain ⟨ps', hps', hss', hout'⟩ := h'
  refine ⟨ps ++ ps', ?_, ?_, ?_⟩
  · rw [String.toList_append, pieces?_append hps, hps', Option.map_some]
  · rw [List.filterMap_append, hss, hss', List.map_append]
  · rw [String.toList_append, pieces?_append hout, hout', Option.map_some, List.map_append]

theorem Reads.between (h : Reads t o ss) {before after : String} (hbefore : Unmarked before) (hafter : Unmarked after) :
    Reads (before ++ t ++ after) (before ++ o ++ after) ss := by
  have hreads := (hbefore.reads.append h).append hafter.reads
  rwa [List.nil_append, List.append_nil] at hreads

/-- Texts with a text between them that has no quotes. -/
theorem reads_intercalate {α : Type} {separator : String} (hseparator : Unmarked separator) {text outline : α → String}
    {strings : α → List String} {parts : List α} (h : ∀ a ∈ parts, Reads (text a) (outline a) (strings a)) :
    Reads (separator.intercalate (parts.map text)) (separator.intercalate (parts.map outline)) (parts.flatMap strings) := by
  induction parts with
  | nil =>
    rw [List.map_nil, List.map_nil, String.intercalate_nil]
    exact Unmarked.reads (by decide)
  | cons a parts ih =>
    rw [List.forall_mem_cons] at h
    cases parts with
    | nil => simpa using h.1
    | cons b parts =>
      simp only [List.map_cons, List.flatMap_cons, String.intercalate_cons_cons] at ih ⊢
      have hfirst := h.1.append hseparator.reads
      rw [List.append_nil] at hfirst
      exact hfirst.append (ih h.2)

end Text.Literal

/-! ## Values -/

namespace Value

/-- The value with an empty string in place of a string. -/
def outline : Value → Value
  | .string _ => .string ""
  | value => value

theorem unmarked_floatText (x : Binary64) : Unmarked (floatText x) := by
  unfold floatText
  split
  · decide
  · split
    · exact fun h => absurd (numberLayout.isNumberChar_render x mark h) (by unfold DecimalNotation.IsNumberChar; decide)
    · split <;> decide

theorem unmarked_int (n : Int) : Unmarked (toString n) := by
  intro h
  rcases isDigit_or_sign h with hd | hd
  · exact absurd hd (by decide)
  · exact absurd hd (by decide)

theorem reads (value : Value) : Reads value.render value.outline.render value.string?.toList := by
  cases value with
  | null => exact Unmarked.reads (by decide)
  | bool b => cases b <;> exact Unmarked.reads (by decide)
  | int n => exact (unmarked_int n.toInt).reads
  | float x => exact (unmarked_floatText x).reads
  | string s => exact reads_literal s

end Value

/-! ## Conditions -/

namespace Condition

mutual

/-- The names of the variables, attributes and labels in a condition. -/
def names : Condition → List String
  | .true => []
  | .false => []
  | .compare v attr _ _ => [v.name, attr]
  | .isIn v attr _ => [v.name, attr]
  | .isNull v attr => [v.name, attr]
  | .and conditions => namesIn conditions
  | .or conditions => namesIn conditions
  | .not condition => condition.names
  | .quantified _ pattern predicate => [pattern.root.name, pattern.related.name, pattern.label] ++ predicate.names

def namesIn : List Condition → List String
  | [] => []
  | c :: cs => c.names ++ namesIn cs

end

mutual

/-- The strings among the values in a condition, in the order of its text. -/
def strings : Condition → List String
  | .compare _ _ _ value => value.string?.toList
  | .isIn _ _ values => values.flatMap fun value => value.string?.toList
  | .and conditions => stringsIn conditions
  | .or conditions => stringsIn conditions
  | .not condition => condition.strings
  | .quantified _ _ predicate => predicate.strings
  | _ => []

def stringsIn : List Condition → List String
  | [] => []
  | c :: cs => c.strings ++ stringsIn cs

end

mutual

/-- The condition with an empty string in place of every string. -/
def outline : Condition → Condition
  | .compare v attr op value => .compare v attr op value.outline
  | .isIn v attr values => .isIn v attr (values.map Value.outline)
  | .and conditions => .and (outlineAll conditions)
  | .or conditions => .or (outlineAll conditions)
  | .not condition => .not condition.outline
  | .quantified quantifier pattern predicate => .quantified quantifier pattern predicate.outline
  | condition => condition

def outlineAll : List Condition → List Condition
  | [] => []
  | c :: cs => c.outline :: outlineAll cs

end

theorem outlineAll_eq_map (cs : List Condition) : outlineAll cs = cs.map outline := by
  induction cs with
  | nil => rfl
  | cons c cs ih => rw [outlineAll, ih, List.map_cons]

theorem stringsIn_eq_flatMap (cs : List Condition) : stringsIn cs = cs.flatMap strings := by
  induction cs with
  | nil => rfl
  | cons c cs ih => rw [stringsIn, ih, List.flatMap_cons]

theorem reads_joined {word empty : String} (hword : Unmarked word) (hempty : Unmarked empty) {cs : List Condition}
    (h : ∀ c ∈ cs, Reads c.render c.outline.render c.strings) :
    Reads (joined word empty (renderAll cs)) (joined word empty (renderAll (outlineAll cs))) (stringsIn cs) := by
  rw [outlineAll_eq_map, stringsIn_eq_flatMap, renderAll_eq_map, renderAll_eq_map, List.map_map]
  unfold joined
  rw [List.isEmpty_map, List.isEmpty_map]
  split
  · next hnone =>
    obtain rfl := List.isEmpty_iff.mp hnone
    exact hempty.reads
  · exact (reads_intercalate hword h).between (by decide) (by decide)

theorem unmarked_symbol (op : Comparison) : Unmarked op.symbol := by
  cases op <;> decide

theorem unmarked_function (quantifier : Quantifier) : Unmarked quantifier.function := by
  cases quantifier <;> decide

theorem unmarked_pattern {pattern : EdgePattern}
    (h : ∀ name ∈ [pattern.root.name, pattern.related.name, pattern.label], Unmarked name) : Unmarked pattern.render := by
  simp only [List.forall_mem_cons] at h
  obtain ⟨hroot, hrelated, hlabel, -⟩ := h
  unfold EdgePattern.render
  cases pattern.direction <;> simp only [unmarked_append, hroot, hrelated, hlabel, and_true] <;> decide

mutual

/-- The strings of a condition are the literals of its text, and the rest of the text is that of the outline. -/
theorem reads (c : Condition) (h : ∀ name ∈ c.names, Unmarked name) : Reads c.render c.outline.render c.strings := by
  match c with
  | .true => exact Unmarked.reads (by decide)
  | .false => exact Unmarked.reads (by decide)
  | .compare v attr op value =>
    simp only [names, List.forall_mem_cons] at h
    have hbefore : Unmarked (v.name ++ "." ++ attr ++ " " ++ op.symbol ++ " ") := by
      simp only [unmarked_append, h.1, h.2.1, unmarked_symbol, true_and]
      decide
    exact hbefore.reads.append value.reads
  | .isIn v attr values =>
    simp only [names, List.forall_mem_cons] at h
    have hbefore : Unmarked (v.name ++ "." ++ attr ++ " IN [") := by
      simp only [unmarked_append, h.1, h.2.1, true_and]
      decide
    have hseparator : Unmarked ", " := by decide
    have hvalues := reads_intercalate hseparator fun (value : Value) (_ : value ∈ values) => value.reads
    rw [render, outline, render, List.map_map]
    exact hvalues.between hbefore (by decide)
  | .isNull v attr =>
    simp only [names, List.forall_mem_cons] at h
    have htext : Unmarked (v.name ++ "." ++ attr ++ " IS NULL") := by
      simp only [unmarked_append, h.1, h.2.1, true_and]
      decide
    exact htext.reads
  | .and cs => exact reads_joined (by decide) (by decide) (readsAll cs h)
  | .or cs => exact reads_joined (by decide) (by decide) (readsAll cs h)
  | .not c => exact (reads c h).between (by decide) (by decide)
  | .quantified quantifier pattern predicate =>
    rw [names, List.forall_mem_append] at h
    have hrelated : Unmarked pattern.related.name := h.1 _ (by simp)
    have hbefore : Unmarked (quantifier.function ++ "(" ++ pattern.related.name ++ " IN [" ++ pattern.render ++ " | " ++
        pattern.related.name ++ "] WHERE ") := by
      simp only [unmarked_append, hrelated, unmarked_function, unmarked_pattern h.1, true_and, and_true]
      decide
    exact (reads predicate h.2).between hbefore (by decide)

theorem readsAll (cs : List Condition) (h : ∀ name ∈ namesIn cs, Unmarked name) :
    ∀ c ∈ cs, Reads c.render c.outline.render c.strings := by
  match cs with
  | [] => exact fun c hc => nomatch hc
  | c :: cs =>
    rw [namesIn, List.forall_mem_append] at h
    rw [List.forall_mem_cons]
    exact ⟨reads c h.1, readsAll cs h.2⟩

end

end Condition

/-! ## No string breaks out of its literal -/

/-- A string is written between quotes, with the backslashes in it escaped and then the quotes. A reader for which a backslash
takes the next character as it is reads the string back and stops at the end of its text, whatever comes after. So different
strings have different texts, and between a text with all literals closed and any other text the string is one literal and
changes neither. In a condition whose names have no quotes, the strings are the literals of the text, and the rest of it reads as
if they were empty. -/
theorem Value.string_literal_closed (s : String) (after : List Char) :
    (Value.string s).render.toList = mark :: escape mark (escape '\\' s.toList) ++ [mark] ∧
    readMarked? ((Value.string s).render.toList ++ after) = some (s.toList, after) ∧
    (∀ t, t ≠ s → (Value.string t).render ≠ (Value.string s).render) ∧
    (∀ before ps, pieces? before = some ps →
      pieces? (before ++ ((Value.string s).render.toList ++ after)) = (pieces? after).map fun qs => ps ++ .literal s.toList :: qs) ∧
    ∀ c : Condition, (∀ name ∈ c.names, Unmarked name) → ∃ ps,
      pieces? (c.render.toList ++ after) = (pieces? after).map (ps ++ ·) ∧
      ps.filterMap Piece.literal? = c.strings.map String.toList ∧
      pieces? c.outline.render.toList = some (ps.map Piece.outline) := by
  refine ⟨?_, readMarked?_render s after, fun t hne htext => hne ?_, fun before ps hbefore => ?_, fun c hnames => ?_⟩
  · rw [Value.render, Text.Literal.render, String.toList_ofList, encode_eq_escape]
  · have ht := readMarked?_render t []
    have hs := readMarked?_render s []
    rw [Value.render, Value.render] at htext
    rw [htext, hs] at ht
    exact String.toList_inj.mp (Prod.mk.inj (Option.some.inj ht)).1.symm
  · rw [pieces?_append hbefore, Value.render, pieces?_append (pieces?_render s), Option.map_map]
    rfl
  · obtain ⟨ps, hps, hstrings, houtline⟩ := c.reads hnames
    exact ⟨ps, pieces?_append hps after, hstrings, houtline⟩

/-- A string of backslashes and quotes, the last of them a backslash, that goes on like a query. -/
def Example.hostile : String := "\\\x27 OR n.title = \x27\\"

/-- The condition with it has that one literal, and before another text that begins with a quote, too. -/
theorem hostile_string_closed :
    (∀ name ∈ (Condition.compare ⟨"n"⟩ "title" .eq (.string Example.hostile)).names, Unmarked name) ∧
    ∃ ps, pieces? ((Condition.compare ⟨"n"⟩ "title" .eq (.string Example.hostile)).render.toList ++ "\x27\x27".toList) =
        some (ps ++ [.literal []]) ∧
      ps.filterMap Piece.literal? = [Example.hostile.toList] ∧
      pieces? "n.title = \x27\x27".toList = some (ps.map Piece.outline) := by
  have hnames : ∀ name ∈ (Condition.compare ⟨"n"⟩ "title" .eq (.string Example.hostile)).names, Unmarked name := by decide
  obtain ⟨-, -, -, -, hconditions⟩ := Value.string_literal_closed "" "\x27\x27".toList
  obtain ⟨ps, hps, hstrings, houtline⟩ := hconditions _ hnames
  have hempty : pieces? "\x27\x27".toList = some [.literal []] := pieces?_render ""
  rw [hempty] at hps
  exact ⟨hnames, ps, hps, hstrings, houtline⟩

end EntityGraph
