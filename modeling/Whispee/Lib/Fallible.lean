import Mathlib.Data.List.Forall2

/-!
# Computations that may fail

Inversion of a computation in `Except` that has ended well: `bind`, `mapM` and `forM` did, so each
of their parts did.
-/

namespace Fallible

variable {ε : Type u}

theorem bind_eq_ok_iff {x : Except ε α} {f : α → Except ε β} :
    x >>= f = .ok b ↔ ∃ a, x = .ok a ∧ f a = .ok b := by
  cases x <;> simp [bind, Except.bind]

theorem toOption_eq_some {x : Except ε α} (h : x.toOption = some a) : x = .ok a := by
  cases x with
  | ok _ => exact congrArg _ (Option.some.inj h)
  | error _ => cases h

theorem forM_eq_ok_iff {l : List α} {f : α → Except ε Unit} :
    l.forM f = .ok () ↔ ∀ a ∈ l, f a = .ok () := by
  induction l with
  | nil => simp [pure, Except.pure]
  | cons a l ih =>
    rw [List.forall_mem_cons, ← ih]
    change (f a >>= fun _ => l.forM f) = .ok () ↔ _
    rw [bind_eq_ok_iff]
    exact ⟨fun ⟨_, h, h'⟩ => ⟨h, h'⟩, fun ⟨h, h'⟩ => ⟨_, h, h'⟩⟩

theorem mapM_eq_ok_iff {l : List α} {f : α → Except ε β} {l' : List β} :
    l.mapM f = .ok l' ↔ List.Forall₂ (fun a b => f a = .ok b) l l' := by
  induction l generalizing l' with
  | nil =>
    rw [List.mapM_nil, List.forall₂_nil_left_iff]
    exact ⟨fun h => (Except.ok.inj h).symm, fun h => h ▸ rfl⟩
  | cons a l ih =>
    rw [List.mapM_cons, bind_eq_ok_iff, List.forall₂_cons_left_iff]
    constructor
    · rintro ⟨b, hb, h⟩
      obtain ⟨bs, hbs, h⟩ := bind_eq_ok_iff.1 h
      cases h
      exact ⟨b, bs, hb, ih.1 hbs, rfl⟩
    · rintro ⟨b, bs, hb, hbs, rfl⟩
      exact ⟨b, hb, bind_eq_ok_iff.2 ⟨bs, ih.2 hbs, rfl⟩⟩

/-- Each item is mapped as a function says. -/
theorem mapM_eq_ok_map {l : List α} {f : α → Except ε β} {g : α → β}
    (h : ∀ a ∈ l, f a = .ok (g a)) : l.mapM f = .ok (l.map g) :=
  mapM_eq_ok_iff.2 (List.forall₂_map_right_iff.2 (List.forall₂_same.2 h))

theorem exists_mapM_eq_ok_iff {l : List α} {f : α → Except ε β} {P : β → Prop} :
    (∃ l', l.mapM f = .ok l' ∧ ∀ b ∈ l', P b) ↔ ∀ a ∈ l, ∃ b, f a = .ok b ∧ P b := by
  constructor
  · rintro ⟨l', h, hP⟩
    induction mapM_eq_ok_iff.1 h with
    | nil => exact fun _ ha => absurd ha List.not_mem_nil
    | cons hb hbs ih =>
      rw [List.forall_mem_cons] at hP ⊢
      exact ⟨⟨_, hb, hP.1⟩, ih (mapM_eq_ok_iff.2 hbs) hP.2⟩
  · intro h
    induction l with
    | nil => exact ⟨[], rfl, fun _ hb => absurd hb List.not_mem_nil⟩
    | cons a l ih =>
      rw [List.forall_mem_cons] at h
      obtain ⟨⟨b, hb, hP⟩, h⟩ := h
      obtain ⟨bs, hbs, hPs⟩ := ih h
      exact ⟨b :: bs, mapM_eq_ok_iff.2 (.cons hb (mapM_eq_ok_iff.1 hbs)),
        List.forall_mem_cons.2 ⟨hP, hPs⟩⟩

/-- A check that refuses what is asked for and not covered. -/
theorem refuse_eq_ok_iff {asked covered : Bool} {rest : Except ε Unit} :
    (if asked && !covered then .error e else rest) = .ok () ↔
      (asked → covered) ∧ rest = .ok () := by
  cases asked <;> cases covered <;> simp

end Fallible
