import Mathlib.Data.List.DropRight
import Whispee.Lib.CodeUnits

/-!
# Links in a message

`scan` of `apps/web/src/lib/link.ts`: which stretches of a text are URLs. What the platform's own
parser makes of a candidate is a parameter, `classify`: whether the function of that name returns a
link for it.
-/

namespace Whispee.Text.Link

open CodeUnits

/-- `\s` -/
def space (c : UInt16) : Bool :=
  within 0x09 0x0D c || within 0x2000 0x200A c ||
    [0x20, 0xA0, 0x1680, 0x2028, 0x2029, 0x202F, 0x205F, 0x3000, 0xFEFF].contains c

/-- The units a URL goes on with: neither white space nor a bidirectional override. -/
def urlUnit (c : UInt16) : Bool := !(space c || within 0x202A 0x202E c || within 0x2066 0x2069 c)

/-- Case folding, as far as the letters of `SCAN` go: the long s folds to an s. -/
def fold (c : UInt16) : UInt16 :=
  if within 0x41 0x5A c then c + 0x20 else if c = 0x17F then 0x73 else c

/-- How much `(?:https?:\/\/|www\.)` takes at `i`. -/
def scheme (s : Units) (i : Nat) : Option Nat :=
  ([units "https://", units "http://", units "www."].find? fun pattern =>
    pattern.isPrefixOf ((s.drop i).map fold)).map List.length

/-- `SCAN` at one place: where the match ends. -/
def matchAt (s : Units) (i : Nat) : Option Nat :=
  match scheme s i with
  | some n => if i + n < runEnd urlUnit s (i + n) then some (runEnd urlUnit s (i + n)) else none
  | none => none

/-- `SCAN.exec` from `lastIndex` on. -/
def exec (s : Units) (lastIndex : Nat) : Option (Nat × Nat) := do
  let i ← (List.range' lastIndex (s.length - lastIndex)).find? fun i => (matchAt s i).isSome
  return (i, ← matchAt s i)

/-- `/[.,;:!?'"]/` -/
def TRAILING (c : UInt16) : Bool := (units ".,;:!?'\"").contains c

/-- Trims the closers that nothing opens. -/
def trimClosers (opener closer : UInt16) (out : Units) : Units :=
  if out ≠ [] ∧ out.getLast? = some closer ∧ out.count opener < out.count closer then
    trimClosers opener closer out.dropLast
  else out
termination_by out.length
decreasing_by
  next h =>
    have hpos := List.length_pos_of_ne_nil h.1
    rw [List.length_dropLast]
    omega

def trimTrailing (raw : Units) : Units :=
  let out := trimClosers 0x28 0x29 (raw.rdropWhile TRAILING)
  let out := trimClosers 0x7B 0x7D (trimClosers 0x5B 0x5D out)
  out.rdropWhile TRAILING

/-- A link of a text, and where it stands. -/
structure Found (text : Units) where
  start : Nat
  raw : Units
  nonempty : raw ≠ []
  written : startsWith text raw start = true

def Found.stop (found : Found text) : Nat := found.start + found.raw.length

/-! ## The scanner finds stretches of the text -/

theorem isPrefix_trimClosers (opener closer : UInt16) (out : Units) :
    trimClosers opener closer out <+: out := by
  induction out using trimClosers.induct opener closer with
  | case1 out h ih =>
    rw [trimClosers, if_pos h]
    exact ih.trans out.dropLast_prefix
  | case2 out h =>
    have hout : trimClosers opener closer out = out := by rw [trimClosers, if_neg h]
    exact ⟨[], (List.append_nil _).trans hout⟩

theorem isPrefix_trimTrailing (raw : Units) : trimTrailing raw <+: raw :=
  (List.rdropWhile_prefix ..).trans <| (isPrefix_trimClosers ..).trans <|
    (isPrefix_trimClosers ..).trans <| (isPrefix_trimClosers ..).trans (List.rdropWhile_prefix ..)

theorem lt_of_matchAt (h : matchAt s i = some j) : i < j := by
  unfold matchAt at h
  split at h
  · split at h
    · cases h
      omega
    · cases h
  · cases h

theorem exec_eq_some (h : exec s lastIndex = some (i, j)) :
    lastIndex ≤ i ∧ i < s.length ∧ i < j := by
  obtain ⟨i', hfind, h⟩ := Option.bind_eq_some_iff.mp h
  obtain ⟨j', hmatch, h⟩ := Option.bind_eq_some_iff.mp h
  obtain ⟨rfl, rfl⟩ := Prod.mk.inj (Option.some.inj h)
  obtain ⟨-, hmem, -⟩ := List.find?_range'_eq_some.mp hfind
  rw [List.mem_range'_1] at hmem
  exact ⟨hmem.1, by omega, lt_of_matchAt hmatch⟩

/-- What is left of a match once it is trimmed still stands where the match begins. -/
theorem startsWith_trimTrailing (text : Units) (i j : Nat) :
    startsWith text (trimTrailing (slice text i j)) i = true :=
  startsWith_iff.mpr ((isPrefix_trimTrailing _).trans (List.take_prefix ..))

/-- The loop of `scan`. -/
def scanFrom (classify : Units → Bool) (text : Units) (lastIndex : Nat) : List (Found text) :=
  match _ : exec text lastIndex with
  | none => []
  | some (i, j) =>
    if hraw : trimTrailing (slice text i j) = [] then scanFrom classify text j
    else if classify (trimTrailing (slice text i j)) then
      ⟨i, trimTrailing (slice text i j), hraw, startsWith_trimTrailing text i j⟩ ::
        scanFrom classify text j
    else scanFrom classify text j
termination_by text.length - lastIndex
decreasing_by
  all_goals
    obtain ⟨hle, hlt, hj⟩ := exec_eq_some ‹_›
    omega

def scan (classify : Units → Bool) (text : Units) : List (Found text) := scanFrom classify text 0

end Whispee.Text.Link
