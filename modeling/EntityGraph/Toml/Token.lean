import EntityGraph.Json.Token

/-!
# TOML tokens

`Token.scan?` cuts a text of settings into tokens: ends of lines, marks, quoted texts, and words, which are keys, numbers and the
like. Comments and blanks are left out. Each step takes at least one character off the text, which is why the scan ends.
-/

namespace EntityGraph.Toml

/-- A token of the format. -/
inductive Token
  | lineEnd
  /-- A bracket, a brace, a comma or an equals sign. -/
  | mark (c : Char)
  /-- A run of characters that need no quotes, dots included. -/
  | word (chars : List Char)
  /-- A quoted text; one that may have several lines is no key. -/
  | quoted (chars : List Char) (lines : Bool)
deriving DecidableEq, Repr

/-- How a text is quoted: whether a backslash has a meaning in it, and whether it may have several lines, as its quotes are
threefold. -/
structure Quoting where
  escapes : Bool
  lines : Bool
deriving DecidableEq, Repr

/-- The character that opens and closes a text. -/
def Quoting.quote (q : Quoting) : Char := if q.escapes then '"' else '\x27'

namespace Token

def isMark (c : Char) : Bool := c = '[' || c = ']' || c = '{' || c = '}' || c = ',' || c = '='

/-- The characters that need no quotes in a key, a number, a date or a word such as `true`. -/
def isWordChar (c : Char) : Bool := c.isAlphanum || c = '_' || c = '-' || c = '+' || c = '.' || c = ':'

def isBlank (c : Char) : Bool := c = ' ' || c = '\t'

def isBlankOrLineEnd (c : Char) : Bool := isBlank c || c = '\n' || c = '\r'

/-- The control characters but for the tab, which are allowed at the ends of lines only. -/
def isControl (c : Char) : Bool := (c.toNat < 0x20 && c != '\t') || c = '\x7f'

/-! ## Quoted texts -/

/-- The character whose number hexadecimal digits write. -/
def ofHex? (digits : List Char) : Option Char := do
  let n ← digits.foldlM (fun n c => return n * 16 + (← Json.Token.hexDigit? c)) 0
  if n < 0xd800 ∨ (0xe000 ≤ n ∧ n < 0x110000) then some (Char.ofNat n) else none

/-- Reads what follows a backslash: the characters it stands for, and the rest of the text. At the end of a line it stands for
nothing, and takes the blanks and ends of lines after it away. -/
def readEscape? (q : Quoting) : List Char → Option (List Char × List Char)
  | 'u' :: a :: b :: c :: d :: rest => (ofHex? [a, b, c, d]).map fun x => ([x], rest)
  | 'U' :: a :: b :: c :: d :: e :: f :: g :: h :: rest => (ofHex? [a, b, c, d, e, f, g, h]).map fun x => ([x], rest)
  | [] => none
  | c :: rest =>
    if q.lines ∧ ((c :: rest).dropWhile isBlank).head?.any (fun c => c = '\n' || c = '\r') then
      some ([], rest.dropWhile isBlankOrLineEnd)
    else if c = '/' then none
    else (Json.Token.unescape? c).map fun c => ([c], rest)

/-- What is left after a backslash is shorter than what it was read from. -/
theorem readEscape?_length {q : Quoting} {cs : List Char} {r : List Char × List Char} (h : readEscape? q cs = some r) :
    r.2.length < cs.length := by
  unfold readEscape? at h
  split at h
  · obtain ⟨_, _, rfl⟩ := Option.map_eq_some_iff.mp h
    simp only [List.length_cons]
    omega
  · obtain ⟨_, _, rfl⟩ := Option.map_eq_some_iff.mp h
    simp only [List.length_cons]
    omega
  · simp at h
  · split at h
    · obtain rfl := Option.some.inj h
      exact Nat.lt_succ_of_le (List.dropWhile_suffix _).length_le
    · split at h
      · simp at h
      · obtain ⟨_, _, rfl⟩ := Option.map_eq_some_iff.mp h
        simp

/-- Reads a text after its opening quotes: its characters, and the rest after the closing quotes. A text with threefold quotes
may end with quotes of its own. -/
def readQuoted? (q : Quoting) : List Char → Option (List Char × List Char)
  | [] => none
  | c :: cs =>
    if c = q.quote ∧ ¬q.lines then some ([], cs)
    else if c = q.quote ∧ cs.take 2 = List.replicate 2 q.quote ∧ (cs.drop 2).head? ≠ some q.quote then some ([], cs.drop 2)
    else if c = '\\' ∧ q.escapes then
      match h : readEscape? q cs with
      | none => none
      | some (chars, rest) =>
        have : rest.length < cs.length := readEscape?_length h
        (readQuoted? q rest).map fun (text, rest) => (chars ++ text, rest)
    else if c = '\r' ∧ q.lines then
      if cs.head? = some '\n' then readQuoted? q cs else none
    else if isControl c ∧ ¬(c = '\n' ∧ q.lines) then none
    else (readQuoted? q cs).map fun (text, rest) => (c :: text, rest)
termination_by cs => cs.length

/-- What is left after the closing quotes is shorter than what the text was read from. -/
theorem readQuoted?_length {q : Quoting} {cs : List Char} {r : List Char × List Char} (h : readQuoted? q cs = some r) :
    r.2.length < cs.length := by
  fun_induction readQuoted? q cs generalizing r <;> simp_all <;> grind

/-- The token of a text in threefold quotes. An end of line right after the opening ones does not count. -/
def ofLines : List Char → Token
  | '\n' :: text => .quoted text true
  | text => .quoted text true

/-- Reads a text from its opening quotes on. -/
def readText? (escapes : Bool) (cs : List Char) : Option (Token × List Char) :=
  if cs.take 3 = List.replicate 3 (Quoting.mk escapes true).quote then
    (readQuoted? ⟨escapes, true⟩ (cs.drop 3)).map fun (text, rest) => (ofLines text, rest)
  else (readQuoted? ⟨escapes, false⟩ (cs.drop 1)).map fun (text, rest) => (.quoted text false, rest)

theorem readText?_length {escapes : Bool} {cs : List Char} {r : Token × List Char} (h : readText? escapes cs = some r) :
    r.2.length < cs.length := by
  unfold readText? at h
  split at h <;>
  · obtain ⟨_, hr, rfl⟩ := Option.map_eq_some_iff.mp h
    have := readQuoted?_length hr
    simp only [List.length_drop] at this
    simp only
    omega

/-! ## Scanning -/

/-- The tokens of a text, or nothing if a part of it is no token. -/
def scan? : List Char → Option (List Token)
  | [] => some []
  | c :: cs =>
    if isBlank c then scan? cs
    else if c = '\n' then (scan? cs).map (.lineEnd :: ·)
    else if c = '\r' then if cs.head? = some '\n' then scan? cs else none
    else if c = '#' then
      have : (cs.dropWhile fun c => !isControl c).length ≤ cs.length := (List.dropWhile_suffix _).length_le
      scan? (cs.dropWhile fun c => !isControl c)
    else if isMark c then (scan? cs).map (.mark c :: ·)
    else if c = '"' ∨ c = '\x27' then
      match h : readText? (c = '"') (c :: cs) with
      | none => none
      | some (token, rest) =>
        have : rest.length < cs.length + 1 := readText?_length h
        (scan? rest).map (token :: ·)
    else if isWordChar c then
      have : (cs.dropWhile isWordChar).length ≤ cs.length := (List.dropWhile_suffix _).length_le
      (scan? (cs.dropWhile isWordChar)).map (.word (c :: cs.takeWhile isWordChar) :: ·)
    else none
termination_by cs => cs.length
decreasing_by all_goals simp only [List.length_cons]; omega

end Token

end EntityGraph.Toml
