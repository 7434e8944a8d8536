import Whispee.Lib.Json
import Mathlib.Data.List.TakeDrop
import Mathlib.Algebra.Field.Rat

/-!
# The text of a JSON document

`write` gives the text of a document as `JSON.stringify` spaces and escapes it, `read` accepts the
JSON grammar. How a number is written is a parameter, since the digits of a fraction are a matter
of floating point; numerals are read as what they say. `read_write` is the round trip for the
documents whose numbers are written so that they read back, which whole numbers are.
-/

namespace Json

/-! ## Strings -/

/-- The four digits of a `\u` escape. -/
def hex4 (n : Nat) : List Char :=
  [Nat.digitChar (n / 4096 % 16), Nat.digitChar (n / 256 % 16), Nat.digitChar (n / 16 % 16),
    Nat.digitChar (n % 16)]

def escape (c : Char) : List Char :=
  if c = '"' then ['\\', '"']
  else if c = '\\' then ['\\', '\\']
  else if c = '\x08' then ['\\', 'b']
  else if c = '\x0C' then ['\\', 'f']
  else if c = '\n' then ['\\', 'n']
  else if c = '\r' then ['\\', 'r']
  else if c = '\t' then ['\\', 't']
  else if c.toNat < 32 then '\\' :: 'u' :: hex4 c.toNat
  else [c]

def writeString (s : List Char) : List Char := '"' :: (s.flatMap escape ++ ['"'])

def hexValue? (c : Char) : Option Nat :=
  if '0' ≤ c ∧ c ≤ '9' then some (c.toNat - 48)
  else if 'a' ≤ c ∧ c ≤ 'f' then some (c.toNat - 87)
  else if 'A' ≤ c ∧ c ≤ 'F' then some (c.toNat - 55)
  else none

def readHex4 (a b c d : Char) : Option Nat := do
  some (4096 * (← hexValue? a) + 256 * (← hexValue? b) + 16 * (← hexValue? c) + (← hexValue? d))

def unescape (c : Char) : Option Char :=
  if c = '"' ∨ c = '\\' ∨ c = '/' then some c
  else if c = 'b' then some '\x08'
  else if c = 'f' then some '\x0C'
  else if c = 'n' then some '\n'
  else if c = 'r' then some '\r'
  else if c = 't' then some '\t'
  else none

/-- What stands between the quotes: characters, and the code units of the `\u` escapes. -/
def readUnits : List Char → Option (List (Char ⊕ Nat) × List Char)
  | [] => none
  | '"' :: rest => some ([], rest)
  | '\\' :: 'u' :: a :: b :: c :: d :: rest => do
    let unit ← readHex4 a b c d
    let (units, rest) ← readUnits rest
    some (.inr unit :: units, rest)
  | '\\' :: c :: rest => do
    let char ← unescape c
    let (units, rest) ← readUnits rest
    some (.inl char :: units, rest)
  | c :: rest => do
    if c.toNat < 32 then none
    let (units, rest) ← readUnits rest
    some (.inl c :: units, rest)

/-- A surrogate alone, which a string of characters cannot hold, reads as the replacement
character. -/
def charOfUnit (unit : Nat) : Char :=
  if 0xD800 ≤ unit ∧ unit < 0xE000 then '\uFFFD' else Char.ofNat unit

/-- Two escapes may be the halves of one character. -/
def joinUnits : List (Char ⊕ Nat) → List Char
  | [] => []
  | .inl c :: units => c :: joinUnits units
  | .inr high :: .inr low :: units =>
    if 0xD800 ≤ high ∧ high < 0xDC00 ∧ 0xDC00 ≤ low ∧ low < 0xE000 then
      Char.ofNat (0x10000 + 1024 * (high - 0xD800) + (low - 0xDC00)) :: joinUnits units
    else charOfUnit high :: joinUnits (.inr low :: units)
  | .inr unit :: units => charOfUnit unit :: joinUnits units

/-- A string, of which the first quote is read. -/
def readString (cs : List Char) : Option (List Char × List Char) :=
  (readUnits cs).map fun (units, rest) => (joinUnits units, rest)

/-- How a character is written: as itself or a short escape, or with the digits of its code. -/
def unitOf (c : Char) : Char ⊕ Nat :=
  if c.toNat < 32 ∧ c ∉ ['\x08', '\x0C', '\n', '\r', '\t'] then .inr c.toNat else .inl c

theorem readHex4_hex4 : ∀ n < 32, readHex4 (Nat.digitChar (n / 4096 % 16))
    (Nat.digitChar (n / 256 % 16)) (Nat.digitChar (n / 16 % 16)) (Nat.digitChar (n % 16))
      = some n := by
  decide

theorem readUnits_escape (c : Char) (rest : List Char) :
    readUnits (escape c ++ rest) =
      (readUnits rest).map fun (units, rest) => (unitOf c :: units, rest) := by
  by_cases hshort : c ∈ ['"', '\\', '\x08', '\x0C', '\n', '\r', '\t']
  · simp only [List.mem_cons, List.not_mem_nil, or_false] at hshort
    rcases hshort with rfl | rfl | rfl | rfl | rfl | rfl | rfl <;>
      cases h : readUnits rest <;> simp [escape, readUnits, unescape, h, unitOf]
  simp only [List.mem_cons, List.not_mem_nil, or_false, not_or] at hshort
  obtain ⟨hquote, hslash, hb, hf, hn, hr, ht⟩ := hshort
  by_cases hcontrol : c.toNat < 32
  · have hunit : unitOf c = .inr c.toNat := by simp [unitOf, hcontrol, hb, hf, hn, hr, ht]
    rw [escape, if_neg hquote, if_neg hslash, if_neg hb, if_neg hf, if_neg hn, if_neg hr,
      if_neg ht, if_pos hcontrol, hunit, hex4]
    simp only [List.cons_append, List.nil_append, readUnits, readHex4_hex4 _ hcontrol]
    cases readUnits rest <;> rfl
  · have hunit : unitOf c = .inl c := by simp [unitOf, hcontrol]
    rw [escape, if_neg hquote, if_neg hslash, if_neg hb, if_neg hf, if_neg hn, if_neg hr,
      if_neg ht, if_neg hcontrol, hunit, List.singleton_append]
    rw [readUnits, if_neg hcontrol]
    · cases readUnits rest <;> rfl
    · exact hquote
    · exact fun _ _ _ _ _ h => absurd h hslash
    · exact fun _ _ h => absurd h hslash

theorem readUnits_flatMap_escape (s rest : List Char) :
    readUnits (s.flatMap escape ++ '"' :: rest) = some (s.map unitOf, rest) := by
  induction s with
  | nil => rfl
  | cons c s ih => rw [List.flatMap_cons, List.append_assoc, readUnits_escape, ih]; rfl

theorem joinUnits_map_unitOf (s : List Char) : joinUnits (s.map unitOf) = s := by
  induction s with
  | nil => rfl
  | cons c s ih =>
    rw [List.map_cons, unitOf]
    split
    · rename_i hcontrol
      have hchar : charOfUnit c.toNat = c := by
        rw [charOfUnit, if_neg (by omega), Char.ofNat_toNat]
      -- a control character is no half of a pair
      cases hunits : s.map unitOf with
      | nil => rw [hunits] at ih; rw [joinUnits, hchar, ih]; simp
      | cons unit units =>
        rw [hunits] at ih
        cases unit with
        | inl c' => rw [joinUnits, hchar, ih]; simp
        | inr low => rw [joinUnits, if_neg (by omega), hchar, ih]
    · rw [joinUnits, ih]

theorem readString_writeString (s rest : List Char) :
    readString (s.flatMap escape ++ '"' :: rest) = some (s, rest) := by
  rw [readString, readUnits_flatMap_escape, Option.map_some]
  exact congrArg (fun s => some (s, rest)) (joinUnits_map_unitOf s)

/-! ## Numbers -/

/-- The number some digits say. -/
def ofDigits (digits : List Char) : Nat := Nat.ofDigitChars 10 digits 0

/-- The digits after a point, or none. -/
def readFraction : List Char → Option (List Char × List Char)
  | '.' :: cs => if cs.takeWhile Char.isDigit = [] then none else some (cs.span Char.isDigit)
  | cs => some ([], cs)

/-- The power of ten after an `e`, or zero. -/
def readExponent : List Char → Option (Int × List Char)
  | c :: cs =>
    if c = 'e' ∨ c = 'E' then
      let (sign, cs) : Int × List Char := match cs with
        | '-' :: cs => (-1, cs)
        | '+' :: cs => (1, cs)
        | cs => (1, cs)
      if cs.takeWhile Char.isDigit = [] then none
      else some (sign * ofDigits (cs.takeWhile Char.isDigit), cs.dropWhile Char.isDigit)
    else some (0, c :: cs)
  | [] => some (0, [])

/-- A numeral without its sign. Nothing comes before a point or an exponent but a zero, or digits
of which the first is another. -/
def readUnsigned (cs : List Char) : Option (Rat × List Char) := do
  let whole := cs.takeWhile Char.isDigit
  if whole = [] ∨ (whole.head? = some '0' ∧ whole ≠ ['0']) then none
  let (fraction, cs) ← readFraction (cs.dropWhile Char.isDigit)
  let (exponent, cs) ← readExponent cs
  some (ofDigits (whole ++ fraction) / 10 ^ fraction.length * (10 : Rat) ^ exponent, cs)

def readNumber : List Char → Option (Rat × List Char)
  | '-' :: cs => (readUnsigned cs).map fun (q, cs) => (-q, cs)
  | cs => readUnsigned cs

/-- The text goes on with something that is no part of a numeral. -/
def EndsNumeral (rest : List Char) : Prop :=
  ∀ c ∈ rest.head?, c.isDigit = false ∧ c ≠ '.' ∧ c ≠ 'e' ∧ c ≠ 'E'

/-- A number is written so that it reads back. -/
def Numeral (number : Rat → List Char) (q : Rat) : Prop :=
  ∀ rest, EndsNumeral rest → readNumber (number q ++ rest) = some (q, rest)

theorem head_toDigits (n : Nat) : (Nat.toDigits 10 n).head? = some '0' → n = 0 := by
  induction n using Nat.strongRecOn with
  | ind n ih =>
    intro h
    by_cases hn : n < 10
    · rw [Nat.toDigits_of_lt_base hn] at h
      have hdigit : ∀ n < 10, [Nat.digitChar n].head? = some '0' → n = 0 := by decide
      exact hdigit n hn h
    · have hle : 10 ≤ n := Nat.le_of_not_lt hn
      rw [Nat.toDigits_of_base_le (by decide) hle,
        List.head?_append_of_ne_nil _ Nat.toDigits_ne_nil] at h
      have := ih (n / 10) (by omega) h
      omega

theorem EndsNumeral.takeWhile (h : EndsNumeral rest) : rest.takeWhile Char.isDigit = [] := by
  cases rest with
  | nil => rfl
  | cons c rest => exact List.takeWhile_cons_of_neg (by simp [(h c rfl).1])

theorem EndsNumeral.dropWhile (h : EndsNumeral rest) : rest.dropWhile Char.isDigit = rest := by
  cases rest with
  | nil => rfl
  | cons c rest => exact List.dropWhile_cons_of_neg (by simp [(h c rfl).1])

theorem EndsNumeral.readFraction (h : EndsNumeral rest) : readFraction rest = some ([], rest) := by
  cases rest with
  | nil => rfl
  | cons c rest => rw [Json.readFraction]; exact fun _ hc => (h c rfl).2.1 (List.cons.inj hc).1

theorem EndsNumeral.readExponent (h : EndsNumeral rest) : readExponent rest = some (0, rest) := by
  cases rest with
  | nil => rfl
  | cons c rest =>
    obtain ⟨_, _, he, hE⟩ := h c rfl
    rw [Json.readExponent.eq_def]
    exact if_neg (not_or.2 ⟨he, hE⟩)

theorem readNumber_toDigits (n : Nat) (h : EndsNumeral rest) :
    readNumber (Nat.toDigits 10 n ++ rest) = some ((n : Rat), rest) := by
  have hdigits : ∀ c ∈ Nat.toDigits 10 n, c.isDigit := fun c =>
    Nat.isDigit_of_mem_toDigits (by decide) (by decide)
  have htake : (Nat.toDigits 10 n ++ rest).takeWhile Char.isDigit = Nat.toDigits 10 n := by
    rw [List.takeWhile_append_of_pos hdigits, h.takeWhile, List.append_nil]
  have hdrop : (Nat.toDigits 10 n ++ rest).dropWhile Char.isDigit = rest := by
    rw [List.dropWhile_append_of_pos hdigits, h.dropWhile]
  have hform : ¬ (Nat.toDigits 10 n = [] ∨
      ((Nat.toDigits 10 n).head? = some '0' ∧ Nat.toDigits 10 n ≠ ['0'])) := by
    rintro (hnil | ⟨hhead, hne⟩)
    · exact Nat.toDigits_ne_nil hnil
    · rw [head_toDigits n hhead] at hne
      exact hne rfl
  have hunsigned : readUnsigned (Nat.toDigits 10 n ++ rest) = some ((n : Rat), rest) := by
    rw [readUnsigned, htake, hdrop, if_neg hform, h.readFraction]
    simp [h.readExponent, ofDigits]
  rw [readNumber, hunsigned]
  intro cs hcs
  have hminus : '-' ∈ Nat.toDigits 10 n := by
    cases hd : Nat.toDigits 10 n with
    | nil => exact absurd hd Nat.toDigits_ne_nil
    | cons c ds =>
      rw [hd] at hcs
      rw [← (List.cons.inj hcs).1]
      exact .head _
  exact absurd (hdigits '-' hminus) (by decide)

/-! ## Documents -/

section Write

variable (number : Rat → List Char)

mutual
def write : Document → List Char
  | .null => ['n', 'u', 'l', 'l']
  | .bool true => ['t', 'r', 'u', 'e']
  | .bool false => ['f', 'a', 'l', 's', 'e']
  | .num q => number q
  | .str s => writeString s.toList
  | .arr items => '[' :: (writeItems items ++ [']'])
  | .obj members => '\x7b' :: (writeMembers members ++ ['\x7d'])

def writeItems : List Document → List Char
  | [] => []
  | [item] => write item
  | item :: item' :: items => write item ++ ',' :: writeItems (item' :: items)

def writeMembers : List (String × Document) → List Char
  | [] => []
  | [(key, value)] => writeString key.toList ++ ':' :: write value
  | (key, value) :: member :: members =>
    writeString key.toList ++ ':' :: (write value ++ ',' :: writeMembers (member :: members))
end

mutual
/-- The numbers of a document are written so that they read back. -/
def Document.Numerals : Document → Prop
  | .num q => Numeral number q
  | .arr items => Document.ItemsNumerals items
  | .obj members => Document.MembersNumerals members
  | .null | .bool _ | .str _ => True

def Document.ItemsNumerals : List Document → Prop
  | [] => True
  | item :: items => item.Numerals ∧ Document.ItemsNumerals items

def Document.MembersNumerals : List (String × Document) → Prop
  | [] => True
  | (_, value) :: members => value.Numerals ∧ Document.MembersNumerals members
end

end Write

def skipSpace (cs : List Char) : List Char := cs.dropWhile (· ∈ [' ', '\n', '\r', '\t'])

mutual
/-- Each call reads a character at least, so that as much fuel as there is text is enough. -/
def readValue : Nat → List Char → Option (Document × List Char)
  | 0, _ => none
  | fuel + 1, cs =>
    match skipSpace cs with
    | 'n' :: 'u' :: 'l' :: 'l' :: cs => some (.null, cs)
    | 't' :: 'r' :: 'u' :: 'e' :: cs => some (.bool true, cs)
    | 'f' :: 'a' :: 'l' :: 's' :: 'e' :: cs => some (.bool false, cs)
    | '"' :: cs => (readString cs).map fun (s, cs) => (.str (String.ofList s), cs)
    | '[' :: cs =>
      match skipSpace cs with
      | ']' :: cs => some (.arr [], cs)
      | cs => (readItems fuel cs).map fun (items, cs) => (.arr items, cs)
    | '\x7b' :: cs =>
      match skipSpace cs with
      | '\x7d' :: cs => some (.obj [], cs)
      | cs => (readMembers fuel cs).map fun (members, cs) => (.obj members, cs)
    | cs => (readNumber cs).map fun (q, cs) => (.num q, cs)

def readItems : Nat → List Char → Option (List Document × List Char)
  | 0, _ => none
  | fuel + 1, cs => do
    let (item, cs) ← readValue fuel cs
    match skipSpace cs with
    | ',' :: cs =>
      let (items, cs) ← readItems fuel cs
      some (item :: items, cs)
    | ']' :: cs => some ([item], cs)
    | _ => none

def readMembers : Nat → List Char → Option (List (String × Document) × List Char)
  | 0, _ => none
  | fuel + 1, cs =>
    match skipSpace cs with
    | '"' :: cs => do
      let (key, cs) ← readString cs
      match skipSpace cs with
      | ':' :: cs =>
        let (value, cs) ← readValue fuel cs
        match skipSpace cs with
        | ',' :: cs =>
          let (members, cs) ← readMembers fuel cs
          some ((String.ofList key, value) :: members, cs)
        | '\x7d' :: cs => some ([(String.ofList key, value)], cs)
        | _ => none
      | _ => none
    | _ => none
end

def read (cs : List Char) : Option Document := do
  let (document, cs) ← readValue cs.length cs
  if skipSpace cs = [] then some document else none

/-! ## Reading what is written -/

theorem skipSpace_cons (h : c ∉ [' ', '\n', '\r', '\t']) : skipSpace (c :: cs) = c :: cs :=
  List.dropWhile_cons_of_neg (by simpa using h)

theorem endsNumeral_cons (h : c ∈ [',', ':', ']', '\x7d']) : EndsNumeral (c :: cs) := by
  intro d hd
  cases hd
  simp only [List.mem_cons, List.not_mem_nil, or_false] at h
  rcases h with rfl | rfl | rfl | rfl <;> decide

theorem readUnsigned_start (h : readUnsigned cs = some r) :
    ∃ c cs', cs = c :: cs' ∧ c.isDigit := by
  cases cs with
  | nil => simp [readUnsigned] at h
  | cons c cs =>
    refine ⟨c, cs, rfl, ?_⟩
    by_contra hc
    simp [readUnsigned, hc] at h

theorem readNumber_start (h : readNumber cs = some r) :
    ∃ c cs', cs = c :: cs' ∧ (c = '-' ∨ c.isDigit) := by
  unfold readNumber at h
  split at h
  · exact ⟨_, _, rfl, .inl rfl⟩
  · obtain ⟨c, cs', rfl, hc⟩ := readUnsigned_start h
    exact ⟨c, cs', rfl, .inr hc⟩

theorem not_mem_of_numeral (hc : c = '-' ∨ c.isDigit) (chars : List Char)
    (hchars : (chars.all fun x => x != '-' && !x.isDigit) = true) : c ∉ chars := by
  intro hmem
  have hnot := List.all_eq_true.1 hchars c hmem
  rw [Bool.and_eq_true, bne_iff_ne, Bool.not_eq_true'] at hnot
  rcases hc with rfl | hc
  · exact hnot.1 rfl
  · rw [hnot.2] at hc
    cases hc

theorem readValue_number (h : readNumber cs = some (q, rest)) :
    readValue (fuel + 1) cs = some (.num q, rest) := by
  obtain ⟨c, cs, rfl, hc⟩ := readNumber_start h
  have hother := not_mem_of_numeral hc
    [' ', '\n', '\r', '\t', 'n', 't', 'f', '"', '[', '\x7b'] (by decide)
  simp only [List.mem_cons, List.not_mem_nil, or_false, not_or] at hother
  rw [readValue, skipSpace_cons (by simp [hother])]
  split <;> rename_i heq
  case h_7 => rw [h]; rfl
  all_goals
    obtain ⟨rfl, _⟩ := List.cons.inj heq
    simp at hother

theorem readValue_quote : readValue (fuel + 1) ('"' :: cs) =
    (readString cs).map fun (s, cs) => (.str (String.ofList s), cs) := rfl

theorem readValue_bracket (h : c ∉ [' ', '\n', '\r', '\t', ']']) :
    readValue (fuel + 1) ('[' :: c :: cs) =
      (readItems fuel (c :: cs)).map fun (items, cs) => (.arr items, cs) := by
  simp only [List.mem_cons, List.not_mem_nil, or_false, not_or] at h
  change (match skipSpace (c :: cs) with
    | ']' :: cs => some (Document.arr [], cs)
    | cs => (readItems fuel cs).map fun (items, cs) => (Document.arr items, cs)) = _
  rw [skipSpace_cons (by simp [h])]
  split
  · rename_i heq
    exact absurd (List.cons.inj heq).1 h.2.2.2.2
  · rfl

theorem readValue_brace : readValue (fuel + 1) ('\x7b' :: '"' :: cs) =
    (readMembers fuel ('"' :: cs)).map fun (members, cs) => (.obj members, cs) := rfl

theorem readItems_of_readValue (h : readValue fuel cs = some (item, ',' :: rest)) :
    readItems (fuel + 1) cs =
      (readItems fuel rest).map fun (items, cs) => (item :: items, cs) := by
  rw [readItems, h]
  change (readItems fuel rest).bind _ = _
  cases readItems fuel rest <;> rfl

theorem readItems_last (h : readValue fuel cs = some (item, ']' :: rest)) :
    readItems (fuel + 1) cs = some ([item], rest) := by
  rw [readItems, h]
  rfl

theorem readMembers_of_readValue (hkey : readString cs = some (key, ':' :: cs'))
    (h : readValue fuel cs' = some (value, ',' :: rest)) :
    readMembers (fuel + 1) ('"' :: cs) =
      (readMembers fuel rest).map fun (members, cs) =>
        ((String.ofList key, value) :: members, cs) := by
  change (readString cs).bind _ = _
  rw [hkey]
  change (readValue fuel cs').bind _ = _
  rw [h]
  change (readMembers fuel rest).bind _ = _
  cases readMembers fuel rest <;> rfl

theorem readMembers_last (hkey : readString cs = some (key, ':' :: cs'))
    (h : readValue fuel cs' = some (value, '\x7d' :: rest)) :
    readMembers (fuel + 1) ('"' :: cs) = some ([(String.ofList key, value)], rest) := by
  change (readString cs).bind _ = _
  rw [hkey]
  change (readValue fuel cs').bind _ = _
  rw [h]
  rfl

section RoundTrip

variable {number : Rat → List Char}

theorem writeString_append (s rest : List Char) :
    writeString s ++ rest = '"' :: (s.flatMap escape ++ '"' :: rest) := by
  rw [writeString, List.cons_append, List.append_assoc]
  rfl

/-- A document's text begins with neither a space nor the end of an array. -/
theorem write_start {d : Document} (h : d.Numerals number) :
    ∃ c cs, write number d = c :: cs ∧ c ∉ [' ', '\n', '\r', '\t', ']'] := by
  cases d with
  | num q =>
    have hread := h [] (fun c hc => by cases hc)
    rw [List.append_nil] at hread
    obtain ⟨c, cs, heq, hc⟩ := readNumber_start hread
    exact ⟨c, cs, heq, not_mem_of_numeral hc _ (by decide)⟩
  | bool b => cases b <;> exact ⟨_, _, rfl, by decide⟩
  | _ => exact ⟨_, _, rfl, by decide⟩

theorem writeItems_start (h : Document.ItemsNumerals number (item :: items)) :
    ∃ c cs, writeItems number (item :: items) = c :: cs ∧ c ∉ [' ', '\n', '\r', '\t', ']'] := by
  obtain ⟨c, cs, heq, hc⟩ := write_start h.1
  cases items with
  | nil => exact ⟨c, cs, heq, hc⟩
  | cons item' items => exact ⟨c, _, by rw [writeItems, heq, List.cons_append], hc⟩

theorem writeMembers_start (member : String × Document) (members : List (String × Document)) :
    ∃ cs, writeMembers number (member :: members) = '"' :: cs := by
  obtain ⟨key, value⟩ := member
  cases members with
  | nil => exact ⟨_, rfl⟩
  | cons member members => exact ⟨_, rfl⟩

mutual
theorem readValue_write : ∀ (d : Document), d.Numerals number → ∀ {fuel rest},
    (write number d).length ≤ fuel → EndsNumeral rest →
      readValue fuel (write number d ++ rest) = some (d, rest)
  | d, h, 0, rest, hf, _ => by
    obtain ⟨c, cs, heq, _⟩ := write_start h
    rw [heq, List.length_cons] at hf
    omega
  | .null, _, fuel + 1, _, _, _ => rfl
  | .bool true, _, fuel + 1, _, _, _ => rfl
  | .bool false, _, fuel + 1, _, _, _ => rfl
  | .num q, h, fuel + 1, rest, _, hr => readValue_number (h rest hr)
  | .str s, _, fuel + 1, rest, _, _ => by
    rw [write, writeString_append, readValue_quote, readString_writeString]
    exact congrArg (fun s => some (Document.str s, rest)) s.ofList_toList
  | .arr [], _, fuel + 1, _, _, _ => rfl
  | .arr (item :: items), h, fuel + 1, rest, hf, _ => by
    obtain ⟨c, cs, heq, hc⟩ :=
      writeItems_start (show Document.ItemsNumerals number (item :: items) from h)
    rw [write, List.length_cons, List.length_append] at hf
    have hread : readItems fuel (writeItems number (item :: items) ++ ']' :: rest) = _ :=
      readItems_write (item :: items) (List.cons_ne_nil _ _) h (Nat.le_of_succ_le_succ hf)
    rw [write, List.cons_append, List.append_assoc]
    change readValue _ ('[' :: (_ ++ ']' :: rest)) = _
    rw [heq, List.cons_append] at hread ⊢
    rw [readValue_bracket hc, hread, Option.map_some]
  | .obj [], _, fuel + 1, _, _, _ => rfl
  | .obj (member :: members), h, fuel + 1, rest, hf, _ => by
    obtain ⟨cs, heq⟩ : ∃ cs, writeMembers number (member :: members) = '"' :: cs :=
      writeMembers_start member members
    rw [write, List.length_cons, List.length_append] at hf
    have hread : readMembers fuel (writeMembers number (member :: members) ++ '\x7d' :: rest) = _ :=
      readMembers_write (member :: members) (List.cons_ne_nil _ _) h (Nat.le_of_succ_le_succ hf)
    rw [write, List.cons_append, List.append_assoc]
    change readValue _ ('\x7b' :: (_ ++ '\x7d' :: rest)) = _
    rw [heq, List.cons_append] at hread ⊢
    rw [readValue_brace, hread, Option.map_some]

theorem readItems_write : ∀ (items : List Document), items ≠ [] →
    Document.ItemsNumerals number items → ∀ {fuel rest},
    (writeItems number items).length < fuel →
      readItems fuel (writeItems number items ++ ']' :: rest) = some (items, rest)
  | _, _, _, 0, _, hf => absurd hf (Nat.not_lt_zero _)
  | [item], _, h, fuel + 1, rest, hf =>
    readItems_last (readValue_write item h.1 (Nat.le_of_lt_succ hf) (endsNumeral_cons (by decide)))
  | item :: item' :: items, _, h, fuel + 1, rest, hf => by
    rw [writeItems, List.length_append, List.length_cons] at hf
    have hitem : readValue fuel (write number item ++
        ',' :: (writeItems number (item' :: items) ++ ']' :: rest)) = _ :=
      readValue_write item h.1 (by omega) (endsNumeral_cons (by decide))
    rw [writeItems, List.append_assoc, List.cons_append, readItems_of_readValue hitem,
      readItems_write (item' :: items) (List.cons_ne_nil _ _) h.2 (by omega), Option.map_some]

theorem readMembers_write : ∀ (members : List (String × Document)), members ≠ [] →
    Document.MembersNumerals number members → ∀ {fuel rest},
    (writeMembers number members).length < fuel →
      readMembers fuel (writeMembers number members ++ '\x7d' :: rest) = some (members, rest)
  | _, _, _, 0, _, hf => absurd hf (Nat.not_lt_zero _)
  | [(key, value)], _, h, fuel + 1, rest, hf => by
    rw [writeMembers, List.length_append, List.length_cons] at hf
    have hvalue : readValue fuel (write number value ++ '\x7d' :: rest) = _ :=
      readValue_write value h.1 (by omega) (endsNumeral_cons (by decide))
    rw [writeMembers, List.append_assoc, List.cons_append, writeString_append,
      readMembers_last (readString_writeString _ _) hvalue, String.ofList_toList]
  | (key, value) :: member :: members, _, h, fuel + 1, rest, hf => by
    rw [writeMembers, List.length_append, List.length_cons, List.length_append,
      List.length_cons] at hf
    have hvalue : readValue fuel (write number value ++
        ',' :: (writeMembers number (member :: members) ++ '\x7d' :: rest)) = _ :=
      readValue_write value h.1 (by omega) (endsNumeral_cons (by decide))
    rw [writeMembers, List.append_assoc, List.cons_append, List.append_assoc, List.cons_append,
      writeString_append, readMembers_of_readValue (readString_writeString _ _) hvalue,
      readMembers_write (member :: members) (List.cons_ne_nil _ _) h.2 (by omega),
      Option.map_some, String.ofList_toList]
end

/-- A text that is written is read as what it was written for. -/
theorem read_write {d : Document} (h : d.Numerals number) : read (write number d) = some d := by
  have hread : readValue _ (write number d ++ []) = some (d, []) :=
    readValue_write d h (Nat.le_refl _) (fun c hc => by cases hc)
  rw [List.append_nil] at hread
  rw [read, hread]
  rfl

/-! ## Values -/

/-- A value whose text says it, with the numbers written so that they read back. -/
def Value.Spoken (number : Rat → List Char) (value : Value) : Prop :=
  ∃ document, stringify value = some document ∧ document.Numerals number ∧ parse document = value

theorem Value.Spoken.throughText {value : Value} (h : value.Spoken number) :
    ∃ document, stringify value = some document ∧ read (write number document) = some document ∧
      parse document = value := by
  obtain ⟨document, hstringify, hnumerals, hparse⟩ := h
  exact ⟨document, hstringify, read_write hnumerals, hparse⟩

theorem spoken_null : Value.Spoken number .null := ⟨.null, rfl, trivial, rfl⟩

theorem spoken_bool (b : Bool) : Value.Spoken number (.bool b) := ⟨.bool b, rfl, trivial, rfl⟩

theorem spoken_str (s : String) : Value.Spoken number (.str s) := ⟨.str s, rfl, trivial, rfl⟩

theorem spoken_num (h : Numeral number q) : Value.Spoken number (.num (.finite q)) :=
  ⟨.num q, rfl, h, rfl⟩

theorem spoken_arr {items : List Value} (h : ∀ item ∈ items, item.Spoken number) :
    Value.Spoken number (.arr items) := by
  refine ⟨.arr (stringifyItems items), rfl, ?_⟩
  induction items with
  | nil => exact ⟨trivial, rfl⟩
  | cons item items ih =>
    obtain ⟨⟨document, hstringify, hnumerals, hparse⟩, hitems⟩ := List.forall_mem_cons.1 h
    obtain ⟨hrest, hback⟩ := ih hitems
    rw [stringifyItems, hstringify, Option.getD_some]
    refine ⟨⟨hnumerals, hrest⟩, ?_⟩
    rw [parse, parseItems, hparse]
    exact congrArg _ (congrArg _ (Value.arr.inj hback))

theorem spoken_obj {members : List (String × Value)} (hnodup : (members.map Prod.fst).Nodup)
    (h : ∀ member ∈ members, member.2.Spoken number) : Value.Spoken number (.obj members) := by
  refine ⟨.obj (stringifyMembers members), rfl, ?_⟩
  have hmembers : Document.MembersNumerals number (stringifyMembers members) ∧
      (stringifyMembers members).map Prod.fst = members.map Prod.fst ∧
      (stringifyMembers members).map (fun m => (m.1, parse m.2)) = members := by
    clear hnodup
    induction members with
    | nil => exact ⟨trivial, rfl, rfl⟩
    | cons member members ih =>
      obtain ⟨key, value⟩ := member
      obtain ⟨⟨document, hstringify, hnumerals, hparse⟩, hrest⟩ := List.forall_mem_cons.1 h
      obtain ⟨hnumerals', hkeys, hback⟩ := ih hrest
      have hcons : stringifyMembers ((key, value) :: members) =
          (key, document) :: stringifyMembers members := by
        rw [stringifyMembers, show stringify value = some document from hstringify]
      rw [hcons]
      refine ⟨⟨hnumerals, hnumerals'⟩, ?_, ?_⟩
      · rw [List.map_cons, List.map_cons, hkeys]
      · rw [List.map_cons, hback, hparse]
  obtain ⟨hnumerals, hkeys, hback⟩ := hmembers
  refine ⟨hnumerals, ?_⟩
  rw [parse, parseMembers_eq (hkeys ▸ hnodup) fun _ _ h => (List.not_mem_nil h).elim,
    List.nil_append, hback]

end RoundTrip

example : readString "\\u00e9\\ud83d\\ude00\\ud83d/\", 1".toList =
    some ("é😀\uFFFD/".toList, ", 1".toList) := by decide +kernel

example : readNumber "-15.25e-1x".toList = some (-61 / 40, ['x']) := by decide +kernel

end Json
