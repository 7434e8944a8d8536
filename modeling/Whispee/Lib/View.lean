import Mathlib.Data.List.Basic

/-!
# Views onto a buffer

A view is a stretch of a buffer, and what is in view is its `items`. A read by an offset goes to
the buffer and not to the view: it stays within the view only if somebody compared the offset with
the length first (`read_eq`).
-/

structure View (α : Type u) where
  buffer : List α
  offset : Nat
  length : Nat
  fits : offset + length ≤ buffer.length

namespace View

variable (v : View α)

def items : List α := (v.buffer.drop v.offset).take v.length

def whole (items : List α) : View α := ⟨items, 0, items.length, by omega⟩

/-- The item at an index, if it is in view. -/
def get? (i : Nat) : Option α := if i < v.length then v.buffer[v.offset + i]? else none

/-- The view without its first items. -/
def subarray (begin : Nat) : View α where
  buffer := v.buffer
  offset := v.offset + min begin v.length
  length := v.length - min begin v.length
  fits := by have := v.fits; omega

/-- The next items of the buffer from a place that is counted from where the view begins. -/
def read (pos n : Nat) : Option (List α) :=
  if v.offset + pos + n ≤ v.buffer.length then some ((v.buffer.drop (v.offset + pos)).take n)
  else none

@[simp] theorem items_whole (items : List α) : (whole items).items = items :=
  List.take_length

@[simp] theorem length_items : v.items.length = v.length := by
  have := v.fits
  rw [items, List.length_take, List.length_drop]
  omega

theorem get?_eq (i : Nat) : v.get? i = v.items[i]? := by
  rw [get?, items, List.getElem?_take]
  split
  · rw [List.getElem?_drop]
  · rfl

@[simp] theorem items_subarray (n : Nat) : (v.subarray n).items = v.items.drop n := by
  simp only [items, subarray, List.drop_take, List.drop_drop]
  by_cases h : n ≤ v.length
  · rw [Nat.min_eq_left h]
  · rw [Nat.min_eq_right (Nat.le_of_not_le h), Nat.sub_self, Nat.sub_eq_zero_of_le (by omega)]
    rfl

/-- A read that ends within the view is a read of what is in view. -/
theorem read_eq (h : pos + n ≤ v.length) : v.read pos n = some ((v.items.drop pos).take n) := by
  have := v.fits
  rw [read, if_pos (by omega), items, List.drop_take, List.drop_drop, List.take_take,
    Nat.min_eq_left (by omega)]

end View
