import Mathlib.Data.List.Basic

/-!
# Base64

The encoding of a byte string in the standard alphabet with padding, and the forgiving decoder
browsers expose: white space is skipped, up to two padding signs are dropped from a text whose
length is a multiple of four, and left-over bits are discarded. `decode_encode` is the round trip.
-/

namespace Base64

/-! ## The alphabet -/

def signOf (sextet : Nat) : Char :=
  if sextet < 26 then Char.ofNat (65 + sextet)
  else if sextet < 52 then Char.ofNat (71 + sextet)
  else if sextet < 62 then Char.ofNat (sextet - 4)
  else if sextet = 62 then '+' else '/'

def sextetOf (sign : Char) : Option Nat :=
  if 'A' ≤ sign ∧ sign ≤ 'Z' then some (sign.toNat - 65)
  else if 'a' ≤ sign ∧ sign ≤ 'z' then some (sign.toNat - 71)
  else if '0' ≤ sign ∧ sign ≤ '9' then some (sign.toNat + 4)
  else if sign = '+' then some 62
  else if sign = '/' then some 63
  else none

theorem sextetOf_signOf : ∀ n < 64, sextetOf (signOf n) = some n := by decide

/-- The ASCII white space a decoder skips. -/
def isBlank (sign : Char) : Bool := sign ∈ ['\t', '\n', '\x0c', '\r', ' ']

theorem signOf_ne : ∀ n < 64, signOf n ≠ '=' ∧ isBlank (signOf n) = false := by decide

/-! ## Sextets -/

/-- The sextets of a byte string; the bits missing from the last one are zero. -/
def sextets : List UInt8 → List Nat
  | [] => []
  | [a] => [a.toNat / 4, a.toNat % 4 * 16]
  | [a, b] => [a.toNat / 4, a.toNat % 4 * 16 + b.toNat / 16, b.toNat % 16 * 4]
  | a :: b :: c :: bytes =>
    a.toNat / 4 :: (a.toNat % 4 * 16 + b.toNat / 16) :: (b.toNat % 16 * 4 + c.toNat / 64) ::
      c.toNat % 64 :: sextets bytes

/-- The bytes a run of sextets holds in full. -/
def bytesOf : List Nat → List UInt8
  | a :: b :: c :: d :: rest =>
    UInt8.ofNat (a * 4 + b / 16) :: UInt8.ofNat (b % 16 * 16 + c / 4) ::
      UInt8.ofNat (c % 4 * 64 + d) :: bytesOf rest
  | [a, b, c] => [UInt8.ofNat (a * 4 + b / 16), UInt8.ofNat (b % 16 * 16 + c / 4)]
  | [a, b] => [UInt8.ofNat (a * 4 + b / 16)]
  | _ => []

theorem ofNat_eq_of_toNat_eq {b : UInt8} (h : n = b.toNat) : UInt8.ofNat n = b := by
  rw [h, UInt8.ofNat_toNat]

theorem bytesOf_sextets (bytes : List UInt8) : bytesOf (sextets bytes) = bytes := by
  fun_induction sextets bytes with
  | case1 => rfl
  | case2 a => simp only [bytesOf]; rw [ofNat_eq_of_toNat_eq]; omega
  | case3 a b =>
    have := b.toNat_lt
    simp only [bytesOf]
    rw [ofNat_eq_of_toNat_eq (b := a) (by omega), ofNat_eq_of_toNat_eq (b := b) (by omega)]
  | case4 a b c bytes ih =>
    have := b.toNat_lt
    have := c.toNat_lt
    simp only [bytesOf, ih]
    rw [ofNat_eq_of_toNat_eq (b := a) (by omega), ofNat_eq_of_toNat_eq (b := b) (by omega),
      ofNat_eq_of_toNat_eq (b := c) (by omega)]

theorem sextets_lt (bytes : List UInt8) : ∀ n ∈ sextets bytes, n < 64 := by
  fun_induction sextets bytes with
  | case1 => simp
  | case2 a =>
    have := a.toNat_lt
    simp only [List.mem_cons, List.not_mem_nil, or_false]
    rintro n (h | h) <;> omega
  | case3 a b =>
    have := a.toNat_lt
    have := b.toNat_lt
    simp only [List.mem_cons, List.not_mem_nil, or_false]
    rintro n (h | h | h) <;> omega
  | case4 a b c bytes ih =>
    have := a.toNat_lt
    have := b.toNat_lt
    have := c.toNat_lt
    simp only [List.mem_cons]
    rintro n (h | h | h | h | h)
    all_goals first | omega | exact ih n h

/-! ## The two directions -/

/-- How many padding signs follow a byte string of this length. -/
def padding (length : Nat) : Nat := (3 - length % 3) % 3

theorem sextets_length (bytes : List UInt8) :
    ((sextets bytes).length + padding bytes.length) % 4 = 0 := by
  fun_induction sextets bytes with
  | case1 => rfl
  | case2 => simp [padding]
  | case3 => simp [padding]
  | case4 a b c bytes ih =>
    simp only [padding, List.length_cons] at ih ⊢
    omega

def encode (bytes : List UInt8) : String :=
  String.ofList ((sextets bytes).map signOf ++ List.replicate (padding bytes.length) '=')

/-- Drops one or two padding signs from the end. -/
def dropPadding (signs : List Char) : List Char :=
  match signs.reverse with
  | '=' :: '=' :: rest => rest.reverse
  | '=' :: rest => rest.reverse
  | _ => signs

def decode (text : String) : Option (List UInt8) :=
  let signs := text.toList.filter (!isBlank ·)
  let signs := if signs.length % 4 = 0 then dropPadding signs else signs
  if signs.length % 4 = 1 then none else (signs.mapM sextetOf).map bytesOf

theorem dropPadding_append {signs : List Char} (h : ∀ s ∈ signs, s ≠ '=') (hk : k ≤ 2) :
    dropPadding (signs ++ List.replicate k '=') = signs := by
  have head : ∀ rest, signs.reverse ≠ '=' :: rest := fun rest hr =>
    h '=' (List.mem_reverse.1 (hr ▸ List.mem_cons_self)) rfl
  unfold dropPadding
  match k, hk with
  | 0, _ =>
    simp only [List.replicate_zero, List.append_nil]
    split
    · exact absurd ‹_› (head _)
    · exact absurd ‹_› (head _)
    · rfl
  | 1, _ =>
    rw [List.replicate_one, List.reverse_append, List.reverse_singleton, List.singleton_append]
    split
    · rename_i heq
      exact absurd (List.cons.inj heq).2 (head _)
    · rename_i heq
      rw [← (List.cons.inj heq).2, List.reverse_reverse]
    · rename_i hne
      exact absurd rfl (hne _)
  | 2, _ => simp [List.reverse_append]

theorem mapM_sextetOf_signOf {ns : List Nat} (h : ∀ n ∈ ns, n < 64) :
    (ns.map signOf).mapM sextetOf = some ns := by
  induction ns with
  | nil => rfl
  | cons n ns ih =>
    simp only [List.mem_cons, forall_eq_or_imp] at h
    simp [sextetOf_signOf n h.1, ih h.2]

theorem filter_signs {bytes : List UInt8} (k : Nat) :
    ((sextets bytes).map signOf ++ List.replicate k '=').filter (!isBlank ·)
      = (sextets bytes).map signOf ++ List.replicate k '=' := by
  refine List.filter_eq_self.2 fun sign hs => ?_
  rw [List.mem_append] at hs
  rcases hs with hs | hs
  · obtain ⟨n, hn, rfl⟩ := List.mem_map.1 hs
    simp [(signOf_ne n (sextets_lt bytes n hn)).2]
  · rw [List.eq_of_mem_replicate hs]
    decide

/-- Decoding an encoded byte string gives it back. -/
@[simp] theorem decode_encode (bytes : List UInt8) : decode (encode bytes) = some bytes := by
  have signs : ∀ s ∈ (sextets bytes).map signOf, s ≠ '=' := by
    intro s hs
    obtain ⟨n, hn, rfl⟩ := List.mem_map.1 hs
    exact (signOf_ne n (sextets_lt bytes n hn)).1
  have pad : padding bytes.length ≤ 2 := by simp only [padding]; omega
  have whole := sextets_length bytes
  have notOne : (sextets bytes).length % 4 ≠ 1 := by omega
  simp only [decode, encode, String.toList_ofList, filter_signs, List.length_append,
    List.length_map, List.length_replicate, whole, if_true, dropPadding_append signs pad]
  rw [if_neg notOne, mapM_sextetOf_signOf (sextets_lt bytes), Option.map_some, bytesOf_sextets]

example : encode [0x4d, 0x61] = "TWE=" := by decide

end Base64
