import Mathlib.Logic.Function.Basic

/-!
# Binary hash trees over an abstract node function

Trees, audit paths and the climb that folds a path back into a root. The two facts every verifier
of such paths rests on are `climb_eq_hash_iff` (a climb that reaches the root of a tree used the
siblings of that tree, in that order) and `eq_of_shape_of_hash_eq` (two trees of one shape and one
root are equal); both need only that the node function is injective.

The part of a tree up to a path (`upTo`) has the left siblings on that path for its own, which is
what climbing with these alone gives (`climb_auditPath_left`).
-/

inductive HashTree (α : Type u) where
  | leaf (a : α)
  | node (l r : HashTree α)

namespace HashTree

/-- One level up: the sibling stands on the left of the running hash when the flag is set. -/
def combine (f : α → α → α) (h : α) (step : α × Bool) : α :=
  if step.2 then f step.1 h else f h step.1

/-- Fold a path, deepest step first. -/
def climb (f : α → α → α) (h : α) (steps : List (α × Bool)) : α :=
  steps.foldl (combine f) h

section
variable {f : α → α → α} {h : α}

@[simp] theorem climb_nil : climb f h [] = h := rfl

@[simp] theorem climb_cons {step : α × Bool} {steps : List (α × Bool)} :
    climb f h (step :: steps) = climb f (combine f h step) steps := rfl

@[simp] theorem climb_append {steps steps' : List (α × Bool)} :
    climb f h (steps ++ steps') = climb f (climb f h steps) steps' := List.foldl_append

@[simp] theorem combine_left {s : α} : combine f h (s, true) = f s h := rfl

@[simp] theorem combine_right {s : α} : combine f h (s, false) = f h s := rfl

end

section
variable (f : α → α → α)

def hash : HashTree α → α
  | leaf a => a
  | node l r => f l.hash r.hash

/-- The subtree at the end of a path, read from the root down: `true` goes right. -/
def subtree : HashTree α → List Bool → Option (HashTree α)
  | t, [] => some t
  | node l _, false :: p => l.subtree p
  | node _ r, true :: p => r.subtree p
  | leaf _, _ :: _ => none

/-- The siblings met along a path, deepest first. -/
def auditPath : HashTree α → List Bool → List α
  | node l r, false :: p => l.auditPath p ++ [r.hash f]
  | node l r, true :: p => r.auditPath p ++ [l.hash f]
  | _, _ => []

/-- The part of the tree that ends with the subtree at the end of the path. -/
def upTo : HashTree α → List Bool → HashTree α
  | node l _, false :: p => l.upTo p
  | node l r, true :: p => node l (r.upTo p)
  | t, _ => t

def shape : HashTree α → HashTree Unit
  | leaf _ => leaf ()
  | node l r => node l.shape r.shape

end

variable {f : α → α → α} {t u : HashTree α}

theorem subtree_nil : t.subtree [] = some t := by cases t <;> rfl

theorem upTo_nil : t.upTo [] = t := by cases t <;> rfl

theorem auditPath_nil : t.auditPath f [] = [] := by cases t <;> rfl

theorem auditPath_length (h : t.subtree p = some u) : (t.auditPath f p).length = p.length := by
  induction p generalizing t with
  | nil => simp [auditPath_nil]
  | cons b p ih =>
    cases t with
    | leaf => simp [subtree] at h
    | node l r =>
      cases b
      · simp [auditPath, ih (t := l) h]
      · simp [auditPath, ih (t := r) h]

/-- With no turn to the right nothing stands on the left of the subtree. -/
theorem upTo_of_not_mem (h : t.subtree p = some u) (hp : true ∉ p) : t.upTo p = u := by
  induction p generalizing t with
  | nil => rw [subtree_nil] at h; cases h; exact upTo_nil
  | cons b p ih =>
    cases t with
    | leaf => simp [subtree] at h
    | node l r =>
      cases b with
      | false => exact ih (t := l) h fun hm => hp (List.mem_cons_of_mem _ hm)
      | true => exact absurd List.mem_cons_self hp

theorem zip_concat {proof : List α} {p : List Bool} (hl : proof.length = p.length) (s : α)
    (b : Bool) : (proof ++ [s]).zip (b :: p).reverse = proof.zip p.reverse ++ [(s, b)] := by
  rw [List.reverse_cons, List.zip_append (by simpa using hl)]
  rfl

/-- **Climbing is injective.** A path that reaches the root of a tree starts at the hash of the
subtree it names and carries the siblings of that subtree. The proof may be any list of the right
length: nothing is assumed of the siblings. -/
theorem climb_eq_hash_iff (hf : Function.Injective2 f) (h : t.subtree p = some u)
    {proof : List α} (hl : proof.length = p.length) :
    climb f x (proof.zip p.reverse) = t.hash f ↔ x = u.hash f ∧ proof = t.auditPath f p := by
  induction p generalizing t proof with
  | nil =>
    rw [subtree_nil] at h
    cases h
    simp [auditPath_nil, List.length_eq_zero_iff.mp hl]
  | cons b p ih =>
    obtain ⟨proof, s, rfl⟩ : ∃ init s, proof = init ++ [s] :=
      ⟨proof.dropLast, proof.getLast (by rintro rfl; simp at hl),
        (List.dropLast_concat_getLast _).symm⟩
    have hl' : proof.length = p.length := by simpa using hl
    rw [zip_concat hl', climb_append]
    cases t with
    | leaf => simp [subtree] at h
    | node l r =>
      cases b with
      | false =>
        have ih := ih (t := l) h hl'
        simp only [climb_cons, climb_nil, combine_right, hash, auditPath]
        constructor
        · intro heq
          obtain ⟨hclimb, rfl⟩ := hf heq
          obtain ⟨hx, rfl⟩ := ih.mp hclimb
          exact ⟨hx, rfl⟩
        · rintro ⟨hx, heq⟩
          obtain ⟨hproof, hs⟩ := List.append_inj' heq rfl
          cases hs
          rw [ih.mpr ⟨hx, hproof⟩]
      | true =>
        have ih := ih (t := r) h hl'
        simp only [climb_cons, climb_nil, combine_left, hash, auditPath]
        constructor
        · intro heq
          obtain ⟨rfl, hclimb⟩ := hf heq
          obtain ⟨hx, rfl⟩ := ih.mp hclimb
          exact ⟨hx, rfl⟩
        · rintro ⟨hx, heq⟩
          obtain ⟨hproof, hs⟩ := List.append_inj' heq rfl
          cases hs
          rw [ih.mpr ⟨hx, hproof⟩]

/-- The siblings of a subtree rebuild the root, whatever the node function. -/
theorem climb_auditPath (h : t.subtree p = some u) :
    climb f (u.hash f) ((t.auditPath f p).zip p.reverse) = t.hash f := by
  induction p generalizing t with
  | nil => rw [subtree_nil] at h; cases h; simp [auditPath_nil]
  | cons b p ih =>
    cases t with
    | leaf => simp [subtree] at h
    | node l r =>
      cases b with
      | false =>
        have h : l.subtree p = some u := h
        simp [auditPath, zip_concat (auditPath_length h), hash, ih h, -List.reverse_cons]
      | true =>
        have h : r.subtree p = some u := h
        simp [auditPath, zip_concat (auditPath_length h), hash, ih h, -List.reverse_cons]

/-- The siblings on the left alone rebuild the root of what the subtree ends. -/
theorem climb_auditPath_left (h : t.subtree p = some u) :
    climb f (u.hash f) (((t.auditPath f p).zip p.reverse).filter (·.2)) =
      (t.upTo p).hash f := by
  induction p generalizing t with
  | nil => rw [subtree_nil] at h; cases h; simp [auditPath_nil, upTo_nil]
  | cons b p ih =>
    cases t with
    | leaf => simp [subtree] at h
    | node l r =>
      cases b with
      | false =>
        have h : l.subtree p = some u := h
        simp [auditPath, zip_concat (auditPath_length h), upTo, ih h, -List.reverse_cons]
      | true =>
        have h : r.subtree p = some u := h
        simp [auditPath, zip_concat (auditPath_length h), hash, upTo, ih h, -List.reverse_cons]

/-- Two trees of one shape and one root are equal. -/
theorem eq_of_shape_of_hash_eq (hf : Function.Injective2 f) (hs : t.shape = u.shape)
    (h : t.hash f = u.hash f) : t = u := by
  induction t generalizing u with
  | leaf a =>
    cases u with
    | leaf b => exact congrArg leaf h
    | node => cases hs
  | node l r ihl ihr =>
    cases u with
    | leaf => cases hs
    | node l' r' =>
      obtain ⟨hsl, hsr⟩ := HashTree.node.inj hs
      obtain ⟨hl, hr⟩ := hf h
      rw [ihl hsl hl, ihr hsr hr]

end HashTree
