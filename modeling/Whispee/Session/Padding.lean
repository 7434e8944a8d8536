import Whispee.Bytes
import Mathlib.Data.Rat.Floor
import Mathlib.Order.WithBot
import Mathlib.Order.Bounds.Defs

/-!
# Padding

What `padding.ts` of `apps/web/src/lib` does to the length of a message before it is encrypted,
and to the bytes of an attachment.
-/

namespace Whispee.Session.Padding

/-- A number a caller gives as a ceiling. `⊤` is `Number.POSITIVE_INFINITY`. -/
abbrev Ceiling := WithTop ℚ

/-- First bucket. -/
def FIRST_BUCKET : Nat := 256

/-- End-of-content marker. -/
def MARKER : UInt8 := 0x80

inductive PaddingError where
  | doesNotFit (length : Nat) (ceiling : Ceiling)
  /-- A `RangeError` of the runtime. -/
  | range
  | malformed
  deriving DecidableEq

/-- The loop of `bucket`. -/
def double (length : Nat) (ceiling : Ceiling) (size : Nat) (h : 0 < size) : Nat :=
  if size < length ∧ ((size : ℚ) : Ceiling) < ceiling then
    double length ceiling (size * 2) (Nat.mul_pos h Nat.two_pos)
  else size
termination_by length - size

/-- The bucket reaching at least `length`, never above `ceiling`. -/
def bucket (length : Nat) (ceiling : Ceiling) : Ceiling :=
  min ((double length ceiling FIRST_BUCKET (by decide) : ℚ) : Ceiling) ceiling

/-- `new Uint8Array(size)` leaves out what is after the point of `size`. -/
def newUint8Array : Ceiling → Except PaddingError Bytes
  | ⊤ => .error .range
  | (size : ℚ) => if size ≤ -1 then .error .range else .ok (List.replicate ⌊size⌋₊ 0)

/-- `out.set(body)` -/
def set (out body : Bytes) : Except PaddingError Bytes :=
  if out.length < body.length then .error .range else .ok (body ++ out.drop body.length)

def pad (body : Bytes) (ceiling : Ceiling) : Except PaddingError Bytes :=
  if ceiling < ((body.length + 1 : ℚ) : Ceiling) then .error (.doesNotFit body.length ceiling)
  else do
    let out ← newUint8Array (bucket (body.length + 1) ceiling)
    let out ← set out body
    .ok (out.set body.length MARKER)

/-- How many bytes are left without the zeros after them. -/
def trim (padded : Bytes) : Nat → Nat
  | 0 => 0
  | count + 1 => if padded[count]? = some 0 then trim padded count else count + 1

def unpad (padded : Bytes) : Except PaddingError Bytes :=
  match trim padded padded.length with
  | 0 => .error .malformed
  | count + 1 =>
    if padded[count]? = some MARKER then .ok (padded.take count) else .error .malformed

/-! ## The padding of a body -/

theorem trim_eq_succ_iff : trim padded count = n + 1 ↔
    n < count ∧ padded[n]? ≠ some 0 ∧ ∀ i, n < i → i < count → padded[i]? = some 0 := by
  induction count with
  | zero => exact ⟨nofun, fun h => absurd h.1 (Nat.not_lt_zero n)⟩
  | succ count ih =>
    rw [trim]
    split
    · rename_i hzero
      rw [ih]
      constructor
      · rintro ⟨hn, hother, hzeros⟩
        refine ⟨Nat.lt_succ_of_lt hn, hother, fun i hni hi => ?_⟩
        rcases Nat.lt_succ_iff_lt_or_eq.1 hi with hi | rfl
        · exact hzeros i hni hi
        · exact hzero
      · rintro ⟨hn, hother, hzeros⟩
        refine ⟨?_, hother, fun i hni hi => hzeros i hni (Nat.lt_succ_of_lt hi)⟩
        rcases Nat.lt_succ_iff_lt_or_eq.1 hn with hn | rfl
        · exact hn
        · exact absurd hzero hother
    · rename_i hother
      constructor
      · intro h
        cases h
        exact ⟨Nat.lt_succ_self _, hother, fun i hni hi => absurd hi (Nat.not_lt.2 hni)⟩
      · rintro ⟨hn, _, hzeros⟩
        rcases Nat.lt_succ_iff_lt_or_eq.1 hn with hn | rfl
        · exact absurd (hzeros count hn (Nat.lt_succ_self count)) hother
        · rfl

/-- What `unpad` accepts. -/
theorem unpad_eq_ok_iff : unpad padded = .ok body ↔
    ∃ zeros, padded = body ++ MARKER :: List.replicate zeros 0 := by
  constructor
  · intro h
    unfold unpad at h
    split at h
    · cases h
    · rename_i n htrim
      obtain ⟨hn, -, hzeros⟩ := trim_eq_succ_iff.1 htrim
      split at h
      · rename_i hmarker
        cases h
        obtain ⟨_, hget⟩ := List.getElem?_eq_some_iff.1 hmarker
        have hrest : padded.drop (n + 1) = List.replicate (padded.length - (n + 1)) 0 := by
          refine List.eq_replicate_iff.2 ⟨List.length_drop, fun byte hbyte => ?_⟩
          obtain ⟨i, hi⟩ := List.mem_iff_getElem?.1 hbyte
          rw [List.getElem?_drop] at hi
          obtain ⟨hin, _⟩ := List.getElem?_eq_some_iff.1 hi
          rw [hzeros _ (by omega) hin] at hi
          exact (Option.some.inj hi).symm
        refine ⟨padded.length - (n + 1), ?_⟩
        rw [← hrest, ← hget, ← List.drop_eq_getElem_cons, List.take_append_drop]
      · cases h
  · rintro ⟨zeros, rfl⟩
    have hmarker : (body ++ MARKER :: List.replicate zeros 0)[body.length]? = some MARKER := by
      rw [List.getElem?_append_right (Nat.le_refl _), Nat.sub_self]
      rfl
    have htrim : trim (body ++ MARKER :: List.replicate zeros 0)
        (body ++ MARKER :: List.replicate zeros 0).length = body.length + 1 := by
      refine trim_eq_succ_iff.2 ⟨by simp, by rw [hmarker]; decide, fun i hi hlt => ?_⟩
      rw [List.getElem?_append_right (Nat.le_of_lt hi)]
      obtain ⟨j, hj⟩ : ∃ j, i - body.length = j + 1 := ⟨i - body.length - 1, by omega⟩
      rw [hj, List.getElem?_cons_succ, List.getElem?_replicate, if_pos]
      simp only [List.length_append, List.length_cons, List.length_replicate] at hlt
      omega
    rw [unpad, htrim]
    dsimp only
    rw [if_pos hmarker, List.take_left']
    rfl

/-! ## The sizes -/

/-- The doublings of the first bucket that hold `length` bytes. -/
def Buckets (length : Nat) : Set Nat := {size | ∃ k, size = FIRST_BUCKET * 2 ^ k ∧ length ≤ size}

theorem double_eq (length : Nat) (ceiling : Ceiling) (size : Nat) (h : 0 < size) :
    ∃ k, double length ceiling size h = size * 2 ^ k ∧ (∀ j < k, size * 2 ^ j < length) ∧
      ¬(size * 2 ^ k < length ∧ ((size * 2 ^ k : ℕ) : ℚ) < ceiling) := by
  fun_induction double length ceiling size h with
  | case1 size h hgo ih =>
    obtain ⟨k, heq, hall, hstop⟩ := ih
    have hpow : size * 2 ^ (k + 1) = size * 2 * 2 ^ k := by rw [Nat.pow_succ', Nat.mul_assoc]
    refine ⟨k + 1, by rw [heq, hpow], fun j hj => ?_, by rwa [hpow]⟩
    cases j with
    | zero => rw [Nat.pow_zero, Nat.mul_one]; exact hgo.1
    | succ j =>
      rw [Nat.pow_succ', ← Nat.mul_assoc]
      exact hall j (Nat.lt_of_succ_lt_succ hj)
  | case2 size h hstop => exact ⟨0, (Nat.mul_one _).symm, nofun, by rwa [Nat.pow_zero, Nat.mul_one]⟩

theorem bucket_eq (hb : IsLeast (Buckets length) b) :
    bucket length ceiling = min ((b : ℚ) : Ceiling) ceiling := by
  obtain ⟨k, heq, hall, hstop⟩ := double_eq length ceiling FIRST_BUCKET (by decide)
  obtain ⟨⟨m, rfl, hm⟩, hleast⟩ := hb
  rw [bucket, heq]
  by_cases hholds : length ≤ FIRST_BUCKET * 2 ^ k
  · have hmk : FIRST_BUCKET * 2 ^ m ≤ FIRST_BUCKET * 2 ^ k := hleast ⟨k, rfl, hholds⟩
    have hkm : k ≤ m := Nat.le_of_not_lt fun hlt => Nat.not_lt.2 hm (hall m hlt)
    have hpow : FIRST_BUCKET * 2 ^ k ≤ FIRST_BUCKET * 2 ^ m :=
      Nat.mul_le_mul_left _ (Nat.pow_le_pow_right Nat.two_pos hkm)
    rw [Nat.le_antisymm hmk hpow]
  · -- the loop stopped at the ceiling, which the least bucket is above
    have hceiling : ceiling ≤ ((FIRST_BUCKET * 2 ^ k : ℕ) : ℚ) :=
      not_lt.1 fun hlt => hstop ⟨Nat.lt_of_not_le hholds, hlt⟩
    have hlt : FIRST_BUCKET * 2 ^ k ≤ FIRST_BUCKET * 2 ^ m := by omega
    rw [min_eq_right hceiling, min_eq_right (hceiling.trans _)]
    exact WithTop.coe_le_coe.2 (Nat.cast_le.2 hlt)

theorem exists_isLeast_buckets (length : Nat) : ∃ b, IsLeast (Buckets length) b := by
  obtain ⟨k, -, hall, hstop⟩ := double_eq length ⊤ FIRST_BUCKET (by decide)
  have hholds : length ≤ FIRST_BUCKET * 2 ^ k :=
    Nat.le_of_not_lt fun hlt => hstop ⟨hlt, WithTop.coe_lt_top _⟩
  refine ⟨FIRST_BUCKET * 2 ^ k, ⟨k, rfl, hholds⟩, ?_⟩
  rintro _ ⟨m, rfl, hm⟩
  have hkm : k ≤ m := Nat.le_of_not_lt fun hlt => Nat.not_lt.2 hm (hall m hlt)
  exact Nat.mul_le_mul_left _ (Nat.pow_le_pow_right Nat.two_pos hkm)

theorem isLeast_buckets_mono (hb : IsLeast (Buckets length) b) (hb' : IsLeast (Buckets length') b')
    (h : length ≤ length') : b ≤ b' := by
  obtain ⟨⟨m, hm, hholds⟩, _⟩ := hb'
  exact hb.2 ⟨m, hm, h.trans hholds⟩

/-- Above the first bucket, half a bucket is too small. -/
theorem lt_two_mul_of_isLeast (hb : IsLeast (Buckets length) b) (h : FIRST_BUCKET < b) :
    b < 2 * length := by
  obtain ⟨⟨m, rfl, hm⟩, hleast⟩ := hb
  cases m with
  | zero => rw [Nat.pow_zero, Nat.mul_one] at h; exact absurd h (Nat.lt_irrefl _)
  | succ m =>
    have hhalf : FIRST_BUCKET * 2 ^ m < length := by
      refine Nat.lt_of_not_le fun hholds => ?_
      have := hleast ⟨m, rfl, hholds⟩
      have hpos : 0 < FIRST_BUCKET * 2 ^ m := Nat.mul_pos (by decide) (Nat.two_pow_pos m)
      rw [Nat.pow_succ, ← Nat.mul_assoc] at this
      omega
    rw [Nat.pow_succ, ← Nat.mul_assoc]
    omega

/-- The whole part of the smaller of a bucket and a ceiling. -/
def capped (b : Nat) (ceiling : Ceiling) : Nat := ⌊(min ((b : ℚ) : Ceiling) ceiling).untopD (b : ℚ)⌋₊

theorem capped_mono {b b' : Nat} {ceiling : Ceiling} (h : b ≤ b') :
    capped b ceiling ≤ capped b' ceiling := by
  induction ceiling using WithTop.recTopCoe with
  | top =>
    rw [capped, capped, min_eq_left le_top, min_eq_left le_top]
    exact Nat.floor_mono (Nat.cast_le.2 h)
  | coe c =>
    rw [capped, capped, ← WithTop.coe_min, ← WithTop.coe_min]
    exact Nat.floor_mono (min_le_min_right c (Nat.cast_le.2 h))

theorem capped_le (b : Nat) (ceiling : Ceiling) : capped b ceiling ≤ b := by
  refine (Nat.floor_mono ?_).trans_eq (Nat.floor_natCast b)
  induction ceiling using WithTop.recTopCoe with
  | top => rw [min_eq_left le_top]; exact le_rfl
  | coe c => rw [← WithTop.coe_min]; exact min_le_left _ _

/-- A body that fits is padded to its bucket. -/
theorem pad_eq {body : Bytes} {ceiling : Ceiling} (h : ((body.length + 1 : ℕ) : ℚ) ≤ ceiling)
    (hb : IsLeast (Buckets (body.length + 1)) b) :
    ∃ zeros, pad body ceiling = .ok (body ++ MARKER :: List.replicate zeros 0) ∧
      body.length + 1 + zeros = capped b ceiling := by
  have hb_le : ((body.length + 1 : ℕ) : ℚ) ≤ b := by
    obtain ⟨_, _, hholds⟩ := hb.1
    exact Nat.cast_le.2 hholds
  have hne : min ((b : ℚ) : Ceiling) ceiling ≠ ⊤ :=
    ne_top_of_le_ne_top WithTop.coe_ne_top (min_le_left _ _)
  obtain ⟨q, hq⟩ := WithTop.ne_top_iff_exists.1 hne
  have hle : ((body.length + 1 : ℕ) : ℚ) ≤ q := by
    rw [← WithTop.coe_le_coe, hq]
    exact le_min (WithTop.coe_le_coe.2 hb_le) h
  have hcapped : capped b ceiling = ⌊q⌋₊ := by
    rw [capped, ← hq, WithTop.untopD_coe]
  have hfloor : body.length + 1 ≤ ⌊q⌋₊ := Nat.le_floor hle
  have hnew : newUint8Array q = .ok (List.replicate ⌊q⌋₊ 0) := by
    have hq0 : (0 : ℚ) ≤ q := (Nat.cast_nonneg _).trans hle
    exact if_neg (by linarith)
  have hset : set (List.replicate ⌊q⌋₊ 0) body =
      .ok (body ++ List.replicate (⌊q⌋₊ - body.length) 0) := by
    rw [set, if_neg (by rw [List.length_replicate]; omega), List.drop_replicate]
  refine ⟨⌊q⌋₊ - (body.length + 1), ?_, by omega⟩
  rw [pad, if_neg (not_lt.2 (by exact_mod_cast h)), bucket_eq hb, ← hq, hnew]
  change (set (List.replicate ⌊q⌋₊ 0) body >>= _) = _
  rw [hset]
  obtain ⟨n, hn⟩ : ∃ n, ⌊q⌋₊ - body.length = n + 1 := ⟨⌊q⌋₊ - body.length - 1, by omega⟩
  have hn' : ⌊q⌋₊ - (body.length + 1) = n := by omega
  rw [hn, hn', List.replicate_succ]
  change Except.ok ((body ++ 0 :: List.replicate n 0).set body.length MARKER) = _
  rw [List.set_append_right _ _ (Nat.le_refl _), Nat.sub_self, List.set_cons_zero]

/-- A body that fits under the ceiling comes back. The length it is padded to is that of its
bucket, which grows with the body and is under twice what it holds above the first bucket. What
reads back is a body, the marker, and zeros. -/
theorem pad_unpad {body : Bytes} {ceiling : Ceiling}
    (h : ((body.length + 1 : ℕ) : ℚ) ≤ ceiling) :
    (∃ padded b, pad body ceiling = .ok padded ∧ unpad padded = .ok body ∧
      IsLeast (Buckets (body.length + 1)) b ∧ padded.length = capped b ceiling ∧
      (FIRST_BUCKET < padded.length → padded.length < 2 * (body.length + 1)) ∧
      ∀ body' padded', body'.length ≤ body.length → pad body' ceiling = .ok padded' →
        padded'.length ≤ padded.length) ∧
    ∀ padded body, unpad padded = .ok body ↔
      ∃ zeros, padded = body ++ MARKER :: List.replicate zeros 0 := by
  refine ⟨?_, fun padded body => unpad_eq_ok_iff⟩
  obtain ⟨b, hb⟩ := exists_isLeast_buckets (body.length + 1)
  obtain ⟨zeros, hpad, hsize⟩ := pad_eq h hb
  have hlength : ∀ (body : Bytes) zeros,
      (body ++ MARKER :: List.replicate zeros 0).length = body.length + 1 + zeros := by
    intro body zeros
    rw [List.length_append, List.length_cons, List.length_replicate]
    omega
  refine ⟨_, b, hpad, unpad_eq_ok_iff.2 ⟨zeros, rfl⟩, hb, by rw [hlength, hsize], ?_, ?_⟩
  · intro habove
    rw [hlength, hsize] at habove ⊢
    have hle := capped_le b ceiling
    have := lt_two_mul_of_isLeast hb (Nat.lt_of_lt_of_le habove hle)
    omega
  · intro body' padded' hbody hpad'
    obtain ⟨b', hb'⟩ := exists_isLeast_buckets (body'.length + 1)
    have h' : ((body'.length + 1 : ℕ) : ℚ) ≤ ceiling :=
      (WithTop.coe_le_coe.2 (Nat.cast_le.2 (Nat.succ_le_succ hbody))).trans h
    obtain ⟨zeros', hpadded, hsize'⟩ := pad_eq h' hb'
    cases hpadded.symm.trans hpad'
    rw [hlength, hlength, hsize, hsize']
    exact capped_mono (isLeast_buckets_mono hb' hb (Nat.succ_le_succ hbody))

theorem pad_unpad_markerAndZero :
    ∃ padded, pad [0x80, 0] ((300 : ℚ) : Ceiling) = .ok padded ∧ unpad padded = .ok [0x80, 0] := by
  have hfits : (((([0x80, 0] : Bytes).length + 1 : ℕ) : ℚ) : Ceiling) ≤ ((300 : ℚ) : Ceiling) :=
    WithTop.coe_le_coe.2 (by norm_num)
  obtain ⟨⟨padded, _, hpad, hunpad, _⟩, _⟩ := pad_unpad hfits
  exact ⟨padded, hpad, hunpad⟩

/-! ## Attachments -/

/-- What the server takes at most, which is ciphertext. -/
def SERVER_CEILING : Nat := 25 * 1024 * 1024

/-- AES-GCM appends its authentication tag. -/
def GCM_TAG : Nat := 16

def TOP_BUCKET : Nat := SERVER_CEILING - GCM_TAG

/-- Largest file that can be sent. -/
def MAX_ATTACHMENT_BYTES : Nat := TOP_BUCKET - 1

/-- The files the limit lets through are the ones that pad, and the server takes their
ciphertext. -/
theorem pad_attachment (file : Bytes) :
    if file.length ≤ MAX_ATTACHMENT_BYTES then
      ∃ padded, pad file (TOP_BUCKET : ℚ) = .ok padded ∧ padded.length + GCM_TAG ≤ SERVER_CEILING
    else pad file (TOP_BUCKET : ℚ) = .error (.doesNotFit file.length (TOP_BUCKET : ℚ)) := by
  have htop : TOP_BUCKET = MAX_ATTACHMENT_BYTES + 1 := rfl
  have hserver : TOP_BUCKET + GCM_TAG = SERVER_CEILING := rfl
  split
  · rename_i hfile
    have hfits : (((file.length + 1 : ℕ) : ℚ) : Ceiling) ≤ ((TOP_BUCKET : ℚ) : Ceiling) :=
      WithTop.coe_le_coe.2 (Nat.cast_le.2 (by omega))
    obtain ⟨b, hb⟩ := exists_isLeast_buckets (file.length + 1)
    obtain ⟨zeros, hpad, hsize⟩ := pad_eq hfits hb
    have hcapped : capped b ((TOP_BUCKET : ℚ) : Ceiling) ≤ TOP_BUCKET := by
      rw [capped, ← WithTop.coe_min, WithTop.untopD_coe]
      exact (Nat.floor_mono (min_le_right _ _)).trans_eq (Nat.floor_natCast _)
    refine ⟨_, hpad, ?_⟩
    rw [List.length_append, List.length_cons, List.length_replicate]
    omega
  · rename_i hfile
    have habove : ((TOP_BUCKET : ℚ) : Ceiling) < (((file.length : ℚ) + 1 : ℚ) : Ceiling) :=
      WithTop.coe_lt_coe.2 (by exact_mod_cast (by omega : TOP_BUCKET < file.length + 1))
    rw [pad, if_pos habove]

end Whispee.Session.Padding
