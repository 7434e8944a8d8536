import Mathlib.Algebra.BigOperators.Group.List.Basic
import Mathlib.Algebra.Order.Group.Nat
import Mathlib.Algebra.Ring.Nat

/-!
# Text by its bytes

A text as its characters, addressed by the bytes of its UTF-8 form. An offset inside a character
is no offset of the text: what is asked to cut there has no answer.
-/

namespace Utf8

/-- In bytes. -/
def size (s : List Char) : Nat := (s.map Char.utf8Size).sum

def encode (s : List Char) : List UInt8 := s.flatMap String.utf8EncodeChar

@[simp] theorem size_nil : size [] = 0 := rfl

@[simp] theorem size_cons : size (c :: s) = c.utf8Size + size s := by
  rw [size, List.map_cons, List.sum_cons, size]

@[simp] theorem size_append : size (s ++ t) = size s + size t := by
  rw [size, List.map_append, List.sum_append, size, size]

theorem encode_cons : encode (c :: s) = String.utf8EncodeChar c ++ encode s := rfl

theorem encode_append : encode (s ++ t) = encode s ++ encode t := List.flatMap_append

@[simp] theorem length_encode : (encode s).length = size s := by
  induction s with
  | nil => rfl
  | cons c s ih =>
    rw [encode_cons, List.length_append, String.length_utf8EncodeChar, ih, size_cons]

theorem size_eq_zero_iff : size s = 0 ↔ s = [] := by
  cases s with
  | nil => exact iff_of_true rfl rfl
  | cons c s =>
    have hc := c.utf8Size_pos
    rw [size_cons]
    exact iff_of_false (by omega) (List.cons_ne_nil _ _)

theorem utf8Size_of_ascii {c : Char} (h : c.toNat < 128) : c.utf8Size = 1 :=
  Char.utf8Size_eq_one_iff.2 (UInt32.le_iff_toNat_le.2 (Nat.le_of_lt_succ h))

theorem size_of_ascii (h : ∀ c ∈ s, c.toNat < 128) : size s = s.length := by
  induction s with
  | nil => rfl
  | cons c s ih =>
    rw [size_cons, utf8Size_of_ascii (h c List.mem_cons_self),
      ih fun d hd => h d (List.mem_cons_of_mem _ hd), List.length_cons, Nat.add_comm]

/-! ## Cutting -/

/-- The text before and after an offset. -/
def splitAt? : List Char → Nat → Option (List Char × List Char)
  | s, 0 => some ([], s)
  | [], _ + 1 => none
  | c :: s, n + 1 =>
    if c.utf8Size ≤ n + 1 then (splitAt? s (n + 1 - c.utf8Size)).map fun (a, b) => (c :: a, b)
    else none

theorem splitAt?_cons (h : 0 < n) : splitAt? (c :: s) n =
    if c.utf8Size ≤ n then (splitAt? s (n - c.utf8Size)).map fun (a, b) => (c :: a, b)
    else none := by
  cases n with
  | zero => cases h
  | succ n => rfl

theorem splitAt?_append : splitAt? (a ++ b) (size a) = some (a, b) := by
  induction a with
  | nil => cases b <;> rfl
  | cons c a ih =>
    have hc := c.utf8Size_pos
    rw [List.cons_append, size_cons, splitAt?_cons (by omega), if_pos (Nat.le_add_right ..),
      Nat.add_sub_cancel_left, ih]
    rfl

theorem splitAt?_eq_some_iff : splitAt? s n = some (a, b) ↔ s = a ++ b ∧ size a = n := by
  constructor
  · intro h
    induction s, n using splitAt?.induct generalizing a b with
    | case1 s =>
      cases s <;>
      · cases h
        exact ⟨rfl, rfl⟩
    | case2 => cases h
    | case3 c s n hle ih =>
      rw [splitAt?, if_pos hle] at h
      obtain ⟨⟨a', b'⟩, hsplit, h⟩ := Option.map_eq_some_iff.1 h
      cases h
      obtain ⟨rfl, hsize⟩ := ih hsplit
      refine ⟨rfl, ?_⟩
      rw [size_cons, hsize]
      omega
    | case4 c s n hle =>
      rw [splitAt?, if_neg hle] at h
      cases h
  · rintro ⟨rfl, rfl⟩
    exact splitAt?_append

/-- `n` is the end of some of its first characters. -/
def Boundary (s : List Char) (n : Nat) : Prop := ∃ a b, s = a ++ b ∧ size a = n

theorem boundary_iff : Boundary s n ↔ (splitAt? s n).isSome = true := by
  rw [Option.isSome_iff_exists]
  exact ⟨fun ⟨a, b, h⟩ => ⟨(a, b), splitAt?_eq_some_iff.2 h⟩,
    fun ⟨(a, b), h⟩ => ⟨a, b, splitAt?_eq_some_iff.1 h⟩⟩

instance : Decidable (Boundary s n) := decidable_of_iff _ boundary_iff.symm

theorem boundary_size : Boundary s (size s) := ⟨s, [], s.append_nil.symm, rfl⟩

theorem Boundary.le (h : Boundary s n) : n ≤ size s := by
  obtain ⟨a, b, rfl, rfl⟩ := h
  rw [size_append]
  exact Nat.le_add_right ..

/-- `&s[n..]` -/
def sliceFrom (s : List Char) (n : Nat) : Option (List Char) := (splitAt? s n).map Prod.snd

/-- `&s[..n]` -/
def sliceTo (s : List Char) (n : Nat) : Option (List Char) := (splitAt? s n).map Prod.fst

/-- `&s[from..to]` -/
def slice (s : List Char) (start stop : Nat) : Option (List Char) :=
  if start ≤ stop then (sliceTo s stop).bind (sliceFrom · start) else none

theorem sliceFrom_append : sliceFrom (a ++ b) (size a) = some b := by
  rw [sliceFrom, splitAt?_append]
  rfl

theorem sliceTo_append : sliceTo (a ++ b) (size a) = some a := by
  rw [sliceTo, splitAt?_append]
  rfl

/-- The characters of a text before two of its offsets, one being before the other. -/
theorem prefix_of_size_le (h : a ++ b = a' ++ b') (hle : size a ≤ size a') :
    ∃ middle, a' = a ++ middle := by
  rcases List.append_eq_append_iff.1 h with ⟨middle, ha', _⟩ | ⟨middle, ha, _⟩
  · exact ⟨middle, ha'⟩
  · have hmiddle : size middle = 0 := by
      rw [ha, size_append] at hle
      omega
    rw [size_eq_zero_iff.1 hmiddle, List.append_nil] at ha
    exact ⟨[], ha ▸ (List.append_nil _).symm⟩

theorem isSome_slice (hstart : Boundary s start) (hstop : Boundary s stop) (h : start ≤ stop) :
    (slice s start stop).isSome = true := by
  obtain ⟨a, b, rfl, rfl⟩ := hstart
  obtain ⟨a', b', hs, rfl⟩ := hstop
  obtain ⟨middle, rfl⟩ := prefix_of_size_le hs h
  rw [slice, if_pos h, hs, sliceTo_append, Option.bind_some, sliceFrom_append]
  rfl

/-- As many of the first characters as `limit` bytes hold. -/
def truncate : Nat → List Char → List Char
  | _, [] => []
  | limit, c :: s => if c.utf8Size ≤ limit then c :: truncate (limit - c.utf8Size) s else []

theorem truncate_prefix (s : List Char) (limit : Nat) : ∃ rest, s = truncate limit s ++ rest := by
  induction s generalizing limit with
  | nil => exact ⟨[], by rw [truncate]; rfl⟩
  | cons c s ih =>
    rw [truncate]
    split
    · obtain ⟨rest, hs⟩ := ih (limit - c.utf8Size)
      exact ⟨rest, congrArg (c :: ·) hs⟩
    · exact ⟨c :: s, rfl⟩

theorem size_truncate_le : size (truncate limit s) ≤ limit := by
  induction s generalizing limit with
  | nil => exact Nat.zero_le _
  | cons c s ih =>
    rw [truncate]
    split
    · have hle := @ih (limit - c.utf8Size)
      rw [size_cons]
      omega
    · exact Nat.zero_le _

/-- No offset of the text lies between what `truncate` keeps and the limit. -/
theorem Boundary.le_size_truncate (h : Boundary s n) (hn : n ≤ limit) :
    n ≤ size (truncate limit s) := by
  obtain ⟨a, b, rfl, rfl⟩ := h
  induction a generalizing limit with
  | nil => exact Nat.zero_le _
  | cons c a ih =>
    rw [size_cons] at hn
    rw [List.cons_append, truncate, if_pos (by omega), size_cons, size_cons]
    exact Nat.add_le_add_left (ih (by omega)) _

/-- The last offset that is not past a bound. -/
theorem find?_reverse_range {p : Nat → Bool} (hp : p m = true) (hm : m ≤ bound)
    (hlast : ∀ n ≤ bound, p n = true → n ≤ m) :
    (List.range (bound + 1)).reverse.find? p = some m := by
  induction bound with
  | zero =>
    cases Nat.le_zero.1 hm
    exact List.find?_cons_of_pos hp
  | succ bound ih =>
    rw [List.range_succ, List.reverse_append, List.reverse_singleton, List.singleton_append]
    rcases Nat.eq_or_lt_of_le hm with rfl | hlt
    · exact List.find?_cons_of_pos hp
    · rw [List.find?_cons_of_neg fun h => Nat.not_le.2 hlt (hlast _ (Nat.le_refl _) h)]
      exact ih (Nat.le_of_lt_succ hlt) fun n hn => hlast n (Nat.le_succ_of_le hn)

/-! ## The bytes -/

/-- A byte of a character that has more of them is no character. -/
theorem le_of_mem_utf8EncodeChar {c : Char} (h : 128 ≤ c.toNat) :
    ∀ b ∈ String.utf8EncodeChar c, 128 ≤ b := by
  have hmarked : ∀ x y : UInt8, 128 ≤ y → 128 ≤ x ||| y := fun x y hy => by
    rw [UInt8.le_iff_toNat_le] at hy ⊢
    rw [UInt8.toNat_or]
    exact hy.trans Nat.right_le_or
  have hmore : (128 : UInt8) ≤ 0x80 ∧ (128 : UInt8) ≤ 0xc0 ∧ (128 : UInt8) ≤ 0xe0 ∧
      (128 : UInt8) ≤ 0xf0 := by decide
  obtain ⟨h80, hc0, he0, hf0⟩ := hmore
  rcases Char.utf8Size_eq c with hsize | hsize | hsize | hsize
  · have hval : c.val.toNat ≤ 127 := UInt32.le_iff_toNat_le.1 (Char.utf8Size_eq_one_iff.1 hsize)
    exact absurd (Nat.le_trans h hval) (by decide)
  · rw [String.utf8EncodeChar_eq_cons_cons hsize]
    simp only [List.forall_mem_cons, List.not_mem_nil, false_implies, implies_true, and_true]
    exact ⟨hmarked _ _ hc0, hmarked _ _ h80⟩
  · rw [String.utf8EncodeChar_eq_cons_cons_cons hsize]
    simp only [List.forall_mem_cons, List.not_mem_nil, false_implies, implies_true, and_true]
    exact ⟨hmarked _ _ he0, hmarked _ _ h80, hmarked _ _ h80⟩
  · rw [String.utf8EncodeChar_eq_cons_cons_cons_cons hsize]
    simp only [List.forall_mem_cons, List.not_mem_nil, false_implies, implies_true, and_true]
    exact ⟨hmarked _ _ hf0, hmarked _ _ h80, hmarked _ _ h80, hmarked _ _ h80⟩

theorem utf8EncodeChar_of_ascii {c : Char} (h : c.toNat < 128) :
    String.utf8EncodeChar c = [c.val.toUInt8] :=
  String.utf8EncodeChar_eq_singleton (utf8Size_of_ascii h)

/-- An ASCII byte is a character. -/
theorem ascii_byte {b : UInt8} (h : (encode s)[n]? = some b) (hascii : b < 128) :
    ∃ before c after, s = before ++ c :: after ∧ size before = n ∧ c.toNat = b.toNat := by
  induction s generalizing n with
  | nil => cases h
  | cons c s ih =>
    rw [encode_cons] at h
    by_cases hn : n < c.utf8Size
    · rw [List.getElem?_append_left (by rwa [String.length_utf8EncodeChar])] at h
      by_cases hc : c.toNat < 128
      · rw [utf8Size_of_ascii hc] at hn
        cases Nat.lt_one_iff.1 hn
        rw [utf8EncodeChar_of_ascii hc] at h
        refine ⟨[], c, s, rfl, rfl, ?_⟩
        rw [← Option.some.inj h, UInt32.toNat_toUInt8]
        exact (Nat.mod_eq_of_lt (Nat.lt_trans hc (by decide))).symm
      · have hb := le_of_mem_utf8EncodeChar (Nat.le_of_not_lt hc) b (List.mem_of_getElem? h)
        exact absurd hascii (UInt8.not_lt.2 hb)
    · rw [List.getElem?_append_right (by rw [String.length_utf8EncodeChar]; omega),
        String.length_utf8EncodeChar] at h
      obtain ⟨before, d, after, rfl, hsize, hd⟩ := ih h
      exact ⟨c :: before, d, after, rfl, by rw [size_cons]; omega, hd⟩

theorem boundary_of_ascii {b : UInt8} (h : (encode s)[n]? = some b) (hascii : b < 128) :
    Boundary s n ∧ Boundary s (n + 1) := by
  obtain ⟨before, c, after, rfl, rfl, hc⟩ := ascii_byte h hascii
  refine ⟨⟨before, _, rfl, rfl⟩, before ++ [c], after, by simp, ?_⟩
  rw [size_append, size_cons, utf8Size_of_ascii (hc ▸ UInt8.lt_iff_toNat_lt.1 hascii), size_nil]

/-- The offset a `while` that steps over the bytes that meet `p` comes to. -/
def skipWhile (p : UInt8 → Bool) (bytes : List UInt8) (i : Nat) : Nat :=
  i + ((bytes.drop i).takeWhile p).length

theorem le_skipWhile (p : UInt8 → Bool) (bytes : List UInt8) (i : Nat) :
    i ≤ skipWhile p bytes i := Nat.le_add_right ..

theorem skipWhile_le (p : UInt8 → Bool) (h : i ≤ bytes.length) :
    skipWhile p bytes i ≤ bytes.length := by
  have hlength := (List.takeWhile_sublist p (l := bytes.drop i)).length_le
  rw [List.length_drop] at hlength
  unfold skipWhile
  omega

/-- Where it stops there is no byte, or one that does not meet `p`. -/
theorem not_of_skipWhile {b : UInt8} (h : bytes[skipWhile p bytes i]? = some b) : p b = false := by
  unfold skipWhile at h
  rw [← List.getElem?_drop] at h
  generalize bytes.drop i = rest at h
  induction rest with
  | nil => cases h
  | cons x rest ih =>
    by_cases hx : p x = true
    · rw [List.takeWhile_cons_of_pos hx] at h
      exact ih h
    · rw [List.takeWhile_cons_of_neg hx] at h
      cases h
      exact Bool.eq_false_iff.2 hx

/-- The byte before where it stops, if it moved. -/
theorem of_lt_skipWhile (h : i < skipWhile p bytes i) :
    ∃ b, bytes[skipWhile p bytes i - 1]? = some b ∧ p b = true := by
  unfold skipWhile at h ⊢
  have hpos : 0 < ((bytes.drop i).takeWhile p).length := by omega
  rw [Nat.add_sub_assoc hpos, ← List.getElem?_drop]
  generalize bytes.drop i = rest at hpos ⊢
  have hlast : (rest.takeWhile p).length - 1 < (rest.takeWhile p).length :=
    Nat.sub_lt hpos Nat.one_pos
  have hwhole := congrArg (·[(rest.takeWhile p).length - 1]?)
    (List.takeWhile_append_dropWhile (p := p) (l := rest))
  rw [List.getElem?_append_left hlast, List.getElem?_eq_getElem hlast] at hwhole
  exact ⟨_, hwhole.symm, List.all_eq_true.1 List.all_takeWhile _ (List.getElem_mem hlast)⟩

/-- Bytes stepped over that are all ASCII leave a boundary a boundary. -/
theorem Boundary.skipWhile (hi : Boundary s i) (hascii : ∀ b, p b = true → b < 128) :
    Boundary s (skipWhile p (encode s) i) := by
  rcases Nat.eq_or_lt_of_le (le_skipWhile p (encode s) i) with h | h
  · exact h ▸ hi
  · obtain ⟨b, hb, hp⟩ := of_lt_skipWhile h
    have hboundary := (boundary_of_ascii hb (hascii b hp)).2
    rwa [Nat.sub_add_cancel (Nat.lt_of_le_of_lt (Nat.zero_le i) h)] at hboundary

/-- Bytes stepped over up to an ASCII one, or to the end. -/
theorem boundary_skipWhile (hi : i ≤ size s) (hascii : ∀ b, p b = false → b < 128) :
    Boundary s (skipWhile p (encode s) i) := by
  rcases h : (encode s)[Utf8.skipWhile p (encode s) i]? with _ | b
  · have hle := skipWhile_le p (show i ≤ (encode s).length by rwa [length_encode])
    have hend := List.getElem?_eq_none_iff.1 h
    rw [length_encode] at hle hend
    rw [Nat.le_antisymm hle hend]
    exact boundary_size
  · exact (boundary_of_ascii h (hascii b (not_of_skipWhile h))).1

theorem boundary_skipWhile_succ (hascii : ∀ b, p b = false → b < 128)
    (h : skipWhile p (encode s) i < size s) : Boundary s (skipWhile p (encode s) i + 1) := by
  obtain ⟨b, hb⟩ : ∃ b, (encode s)[Utf8.skipWhile p (encode s) i]? = some b :=
    ⟨_, List.getElem?_eq_getElem (by rwa [length_encode])⟩
  exact (boundary_of_ascii hb (hascii b (not_of_skipWhile hb))).2

/-! ## Searching -/

/-- `s.find(p)` of a predicate on characters. -/
def findChar? (p : Char → Bool) : List Char → Option Nat
  | [] => none
  | c :: s => if p c then some 0 else (findChar? p s).map (c.utf8Size + ·)

/-- `s.find(needle)` -/
def find? (needle : List Char) : List Char → Option Nat
  | [] => if needle = [] then some 0 else none
  | c :: s => if needle <+: c :: s then some 0 else (find? needle s).map (c.utf8Size + ·)

/-- What comes after the first `needle`: nothing where there is none. -/
def past (needle : List Char) : List Char → List Char
  | [] => []
  | c :: s => if needle <+: c :: s then (c :: s).drop needle.length else past needle s

theorem findChar?_eq_some (h : findChar? p s = some n) :
    ∃ a c b, s = a ++ c :: b ∧ size a = n ∧ p c = true := by
  induction s generalizing n with
  | nil => cases h
  | cons c s ih =>
    rw [findChar?] at h
    split at h
    · cases h
      exact ⟨[], c, s, rfl, rfl, ‹_›⟩
    · obtain ⟨m, hm, rfl⟩ := Option.map_eq_some_iff.1 h
      obtain ⟨a, d, b, rfl, rfl, hd⟩ := ih hm
      exact ⟨c :: a, d, b, rfl, size_cons, hd⟩

theorem find?_eq_some (h : find? needle s = some n) :
    ∃ a, s = a ++ needle ++ past needle s ∧ size a = n := by
  induction s generalizing n with
  | nil =>
    rw [find?] at h
    split at h
    · cases h
      exact ⟨[], by rw [‹needle = []›]; rfl, rfl⟩
    · cases h
  | cons c s ih =>
    rw [find?] at h
    rw [past]
    split at h
    · rename_i hprefix
      cases h
      rw [if_pos hprefix]
      refine ⟨[], ?_, rfl⟩
      obtain ⟨rest, hrest⟩ := hprefix
      rw [← hrest, List.drop_left]
      rfl
    · rename_i hprefix
      rw [if_neg hprefix]
      obtain ⟨m, hm, rfl⟩ := Option.map_eq_some_iff.1 h
      obtain ⟨a, hs, rfl⟩ := ih hm
      refine ⟨c :: a, ?_, size_cons⟩
      rw [List.cons_append, List.cons_append, ← hs]

theorem past_of_find?_eq_none (h : find? needle s = none) : past needle s = [] := by
  induction s with
  | nil => rfl
  | cons c s ih =>
    rw [find?] at h
    rw [past]
    split at h
    · cases h
    · rename_i hprefix
      rw [if_neg hprefix, ih (Option.map_eq_none_iff.1 h)]

/-- The offset of what comes after the first `needle`, or of the end. -/
theorem past_split (needle s : List Char) : ∃ consumed, s = consumed ++ past needle s ∧
    size consumed = ((find? needle s).map (· + size needle)).getD (size s) := by
  cases h : find? needle s with
  | none => exact ⟨s, by rw [past_of_find?_eq_none h, List.append_nil], rfl⟩
  | some n =>
    obtain ⟨a, hs, rfl⟩ := find?_eq_some h
    exact ⟨a ++ needle, hs, size_append⟩

theorem length_past_lt (hneedle : needle ≠ []) :
    (past needle (c :: s)).length ≤ s.length := by
  induction s generalizing c with
  | nil =>
    rw [past]
    split
    · have hpos := List.length_pos_iff.2 hneedle
      rw [List.length_drop]
      simp only [List.length_cons, List.length_nil]
      omega
    · exact Nat.le_refl _
  | cons d s ih =>
    rw [past]
    split
    · have hpos := List.length_pos_iff.2 hneedle
      rw [List.length_drop]
      simp only [List.length_cons]
      omega
    · exact (ih (c := d)).trans (Nat.le_succ _)

end Utf8
