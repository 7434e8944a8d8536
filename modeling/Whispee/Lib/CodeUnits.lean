import Mathlib.Data.List.Basic

/-!
# Strings of code units

A string whose parts are addressed by indices, as the strings of a language with 16-bit code units
are: `startsWith`, `indexOf` and `slice`, and how the slices between a growing index cover the
string (`take_slice`).
-/

namespace CodeUnits

abbrev Units := List UInt16

/-- A text of ASCII characters. -/
def units (s : String) : Units := s.toList.map fun c => .ofNat c.toNat

/-- A class of characters that follow each other. -/
def within (low high c : UInt16) : Bool := low ≤ c && c ≤ high

/-- `s.startsWith(t, i)` -/
def startsWith (s t : Units) (i : Nat) : Bool := t.isPrefixOf (s.drop i)

/-- `s.indexOf(t, i)`, or `none` for `-1`. -/
def indexOf (s t : Units) (i : Nat) : Option Nat :=
  (List.range' i (s.length + 1 - i)).find? (startsWith s t)

/-- `s.slice(i, j)` -/
def slice (s : Units) (i j : Nat) : Units := (s.drop i).take (j - i)

/-- Where the run of units that meet `p` from `i` on ends. -/
def runEnd (p : UInt16 → Bool) (s : Units) (i : Nat) : Nat := i + ((s.drop i).takeWhile p).length

variable {s t : Units}

theorem startsWith_iff : startsWith s t i = true ↔ t <+: s.drop i := List.isPrefixOf_iff_prefix

theorem lt_of_startsWith (h : startsWith s t i = true) (ht : t ≠ []) : i + t.length ≤ s.length := by
  have hlength := (startsWith_iff.mp h).length_le
  have hpos := List.length_pos_of_ne_nil ht
  rw [List.length_drop] at hlength
  omega

theorem getElem?_of_startsWith (h : startsWith s t i = true) (hc : t.head? = some c) :
    s[i]? = some c := by
  obtain ⟨rest, hrest⟩ := startsWith_iff.mp h
  rw [← List.head?_drop, ← hrest, List.head?_append, hc]
  rfl

theorem indexOf_eq_some (h : indexOf s t i = some j) :
    i ≤ j ∧ j ≤ s.length ∧ startsWith s t j = true ∧
      ∀ k, i ≤ k → k < j → startsWith s t k = false := by
  obtain ⟨hstart, hmem, hfirst⟩ := List.find?_range'_eq_some.mp h
  rw [List.mem_range'_1] at hmem
  exact ⟨hmem.1, by omega, hstart, fun k hk hlt => by simpa using hfirst k hk hlt⟩

theorem length_slice (hj : j ≤ s.length) : (slice s i j).length = j - i := by
  rw [slice, List.length_take, List.length_drop]
  omega

theorem slice_zero : slice s 0 j = s.take j := rfl

theorem slice_length : slice s i s.length = s.drop i := by
  rw [slice, ← List.length_drop, List.take_length]

/-- One slice after another. -/
theorem slice_append (hij : i ≤ j) (hjk : j ≤ k) : slice s i j ++ slice s j k = slice s i k := by
  rw [slice, slice, slice, show k - i = (j - i) + (k - j) by omega, List.take_add,
    List.drop_drop, show i + (j - i) = j by omega]

theorem take_slice (hij : i ≤ j) : s.take i ++ slice s i j = s.take j :=
  slice_append (Nat.zero_le i) hij

theorem slice_singleton (h : s[i]? = some c) : slice s i (i + 1) = [c] := by
  rw [slice, Nat.add_sub_cancel_left, ← List.head?_drop] at *
  cases hdrop : s.drop i with
  | nil => rw [hdrop] at h; cases h
  | cons d rest =>
    rw [hdrop] at h
    cases h
    rfl

theorem slice_of_startsWith (h : startsWith s t i = true) : slice s i (i + t.length) = t := by
  rw [slice, Nat.add_sub_cancel_left]
  exact (List.prefix_iff_eq_take.mp (startsWith_iff.mp h)).symm

theorem runEnd_le (hi : i ≤ s.length) : runEnd p s i ≤ s.length := by
  have h := (List.takeWhile_prefix p (l := s.drop i)).length_le
  rw [List.length_drop] at h
  rw [runEnd]
  omega

theorem lt_runEnd (h : s[i]? = some c) (hp : p c = true) : i < runEnd p s i := by
  rw [runEnd]
  cases hdrop : s.drop i with
  | nil => rw [← List.head?_drop, hdrop] at h; cases h
  | cons d rest =>
    rw [← List.head?_drop, hdrop] at h
    cases h
    rw [List.takeWhile_cons_of_pos hp]
    simp

end CodeUnits
