import Mathlib.Algebra.BigOperators.Group.List.Basic
import Mathlib.Algebra.Group.Int.Defs

/-!
# Byte strings

What the wire formats share: byte strings, the big-endian length prefixes in front of their
fields, and the lowercase hexadecimal form of an identifier.
-/

namespace Whispee

abbrev Bytes := List UInt8

/-- `str::as_bytes`. -/
def asBytes (s : String) : Bytes := s.toUTF8.data.toList

/-- `str::from_utf8`. -/
def fromUtf8 (bytes : Bytes) : Option String := String.fromUTF8? ⟨bytes.toArray⟩

@[simp] theorem fromUtf8_asBytes (s : String) : fromUtf8 (asBytes s) = some s := by
  simp only [fromUtf8, asBytes, Array.toArray_toList, String.fromUTF8?]
  exact dif_pos s.isValidUTF8

theorem asBytes_of_fromUtf8 (h : fromUtf8 raw = some value) : asBytes value = raw := by
  unfold fromUtf8 String.fromUTF8? at h
  split at h
  · cases h
    rfl
  · cases h

theorem asBytes_append (s t : String) : asBytes (s ++ t) = asBytes s ++ asBytes t := by
  simp [asBytes, String.toUTF8_eq_toByteArray]

theorem asBytes_injective : Function.Injective asBytes := fun s s' h => by
  have hdecoded := congrArg fromUtf8 h
  rw [fromUtf8_asBytes, fromUtf8_asBytes] at hdecoded
  exact Option.some.inj hdecoded

theorem asBytes_ofList (cs : List Char) :
    asBytes (String.ofList cs) = cs.flatMap String.utf8EncodeChar := by
  rw [asBytes, String.toUTF8_eq_toByteArray, String.toByteArray_ofList, List.utf8Encode,
    List.toList_data_toByteArray]

theorem utf8EncodeChar_of_ascii {c : Char} (h : c.toNat ≤ 127) :
    String.utf8EncodeChar c = [UInt8.ofNat c.toNat] := by
  have hsmall : c.val.toNat ≤ 0x7f := h
  unfold String.utf8EncodeChar
  dsimp only
  rw [if_pos hsmall]
  rfl

/-- The ranges of the bytes that may follow the first byte of a character, or none for a byte that
begins no character. -/
def continuations (first : UInt8) : Option (List (UInt8 × UInt8)) :=
  let any := (0x80, 0xBF)
  if first < 0x80 then some []
  else if first < 0xC2 then none
  else if first < 0xE0 then some [any]
  else if first = 0xE0 then some [(0xA0, 0xBF), any]
  else if first = 0xED then some [(0x80, 0x9F), any]
  else if first < 0xF0 then some [any, any]
  else if first = 0xF0 then some [(0x90, 0xBF), any, any]
  else if first < 0xF4 then some [any, any, any]
  else if first = 0xF4 then some [(0x80, 0x8F), any, any]
  else none

/-- How many of the bytes fall one after the other in the ranges. -/
def countInRanges : List (UInt8 × UInt8) → Bytes → Nat
  | (low, high) :: ranges, b :: bytes =>
    if low ≤ b ∧ b ≤ high then countInRanges ranges bytes + 1 else 0
  | _, _ => 0

/-- Each character, and one replacement character for each longest beginning of none. -/
def replaceInvalid : Nat → Bytes → String
  | fuel + 1, first :: rest =>
    match continuations first with
    | none => "\uFFFD" ++ replaceInvalid fuel rest
    | some ranges =>
      let n := countInRanges ranges rest
      let char := if n = ranges.length then fromUtf8 (first :: rest.take n) else none
      char.getD "\uFFFD" ++ replaceInvalid fuel (rest.drop n)
  | _, _ => ""

/-- `String::from_utf8_lossy`. -/
def fromUtf8Lossy (bytes : Bytes) : String :=
  (fromUtf8 bytes).getD (replaceInvalid bytes.length bytes)

@[simp] theorem fromUtf8Lossy_asBytes (s : String) : fromUtf8Lossy (asBytes s) = s := by
  rw [fromUtf8Lossy, fromUtf8_asBytes]
  rfl

example : fromUtf8Lossy [0x61, 0xE2, 0x82, 0x62, 0xFF] = "a\uFFFDb\uFFFD" := by decide +kernel

/-- `(n as u16).to_be_bytes()`. -/
def u16ToBeBytes (n : Nat) : Bytes := [UInt8.ofNat (n / 256), UInt8.ofNat n]

/-- `u16::from_be_bytes([high, low])`. -/
def u16FromBeBytes (high low : UInt8) : Nat := 256 * high.toNat + low.toNat

theorem u16FromBeBytes_u16ToBeBytes (h : n < 65536) :
    u16FromBeBytes (UInt8.ofNat (n / 256)) (UInt8.ofNat n) = n := by
  simp only [u16FromBeBytes, UInt8.toNat_ofNat']
  omega

/-- `to_be_bytes` of an integer of `width` bytes. -/
def toBeBytes : Nat → Nat → Bytes
  | 0, _ => []
  | width + 1, n => toBeBytes width (n / 256) ++ [UInt8.ofNat n]

@[simp] theorem length_toBeBytes : (toBeBytes width n).length = width := by
  induction width generalizing n with
  | zero => rfl
  | succ width ih => simp [toBeBytes, ih]

/-- `from_be_bytes`, of an integer of any width. -/
def fromBeBytes (bytes : Bytes) : Nat := bytes.foldl (256 * · + ·.toNat) 0

theorem fromBeBytes_toBeBytes (h : n < 256 ^ width) : fromBeBytes (toBeBytes width n) = n := by
  induction width generalizing n with
  | zero => exact (Nat.lt_one_iff.1 h).symm
  | succ width ih =>
    have high : n / 256 < 256 ^ width := Nat.div_lt_of_lt_mul (Nat.pow_succ' ▸ h)
    rw [toBeBytes, fromBeBytes, List.foldl_append]
    change 256 * fromBeBytes (toBeBytes width (n / 256)) + (UInt8.ofNat n).toNat = n
    rw [ih high, UInt8.toNat_ofNat', Nat.div_add_mod]

def hexDigit (n : Nat) : Char :=
  if n < 10 then Char.ofNat (48 + n) else Char.ofNat (87 + n)

/-- The two lowercase hexadecimal digits of each byte. -/
def toHex (bytes : Bytes) : String :=
  String.ofList (bytes.flatMap fun b => [hexDigit (b.toNat / 16), hexDigit (b.toNat % 16)])

/-- The value of a hexadecimal digit of either case. -/
def hexValue (c : Char) : Option Nat :=
  if '0' ≤ c ∧ c ≤ '9' then some (c.toNat - 48)
  else if 'a' ≤ c ∧ c ≤ 'f' then some (c.toNat - 87)
  else if 'A' ≤ c ∧ c ≤ 'F' then some (c.toNat - 55)
  else none

def fromHexDigits : List Char → Option Bytes
  | [] => some []
  | [_] => none
  | high :: low :: digits => do
    let high ← hexValue high
    let low ← hexValue low
    let bytes ← fromHexDigits digits
    some (UInt8.ofNat (16 * high + low) :: bytes)

/-- `hex::decode`. -/
def fromHex (text : String) : Option Bytes := fromHexDigits text.toList

theorem hexValue_hexDigit : ∀ n < 16, hexValue (hexDigit n) = some n := by decide

@[simp] theorem fromHex_toHex (bytes : Bytes) : fromHex (toHex bytes) = some bytes := by
  rw [fromHex, toHex, String.toList_ofList]
  induction bytes with
  | nil => rfl
  | cons b bytes ih =>
    have hb := b.toNat_lt
    rw [List.flatMap_cons, List.cons_append, List.cons_append, List.nil_append, fromHexDigits,
      hexValue_hexDigit _ (by omega), hexValue_hexDigit _ (by omega), ih]
    change some (UInt8.ofNat _ :: bytes) = _
    rw [Nat.div_add_mod, UInt8.ofNat_toNat]
example : fromHex "0aFf" = some [10, 255] ∧ fromHex "0a0" = none := by decide

end Whispee
