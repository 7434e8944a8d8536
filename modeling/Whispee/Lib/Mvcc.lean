import Mathlib

/-!
# Tables under transactions

The rows of a table, each with the transaction under way that inserts it and the one that deletes
it. What a transaction has done is seen by others once it commits, and undone when it rolls back.
`kept` weighs the committed rows and `pending` what a transaction under way adds to them: every
operation is accounted for by these two.
-/

namespace Mvcc

structure Tuple (Row : Type u) where
  /-- Where the row lies: no two rows ever inserted share it. -/
  ctid : Nat
  /-- The transaction that inserts the row, until it commits. -/
  xmin : Option Nat
  /-- The transaction that deletes it, until it commits. -/
  xmax : Option Nat
  row : Row
  deriving DecidableEq, Repr

abbrev Table (Row : Type u) := List (Tuple Row)

variable {Row : Type u}

namespace Tuple

def Committed (u : Tuple Row) : Prop := u.xmin = none ∧ u.xmax = none

instance (u : Tuple Row) : Decidable u.Committed := inferInstanceAs (Decidable (_ ∧ _))

theorem Committed.unmarked {u : Tuple Row} (h : u.Committed) : u.xmin ≠ some x ∧ u.xmax ≠ some x := by
  rw [h.1, h.2]
  exact ⟨(Option.some_ne_none x).symm, (Option.some_ne_none x).symm⟩

/-- Inserted or deleted by another transaction than `x`, still under way. -/
def heldByOther (u : Tuple Row) (x : Nat) : Bool :=
  (u.xmin.isSome && u.xmin != some x) || (u.xmax.isSome && u.xmax != some x)

theorem own_of_not_held {u : Tuple Row} (h : u.heldByOther x = false) :
    (u.xmin = none ∨ u.xmin = some x) ∧ (u.xmax = none ∨ u.xmax = some x) := by
  obtain ⟨ctid, xmin, xmax, row⟩ := u
  cases xmin <;> cases xmax <;> simp_all [heldByOther]

/-- What the transaction adds to the weight of the table. -/
def change (w : Row → Int) (x : Nat) (u : Tuple Row) : Int :=
  if u.xmin = some x then w u.row else if u.xmax = some x then - w u.row else 0

/-- What the row weighs in everybody's eyes. -/
def weight (w : Row → Int) (u : Tuple Row) : Int := if u.xmin = none then w u.row else 0

end Tuple

namespace Table

/-- The rows everybody sees. -/
def rows (t : Table Row) : List Row := (t.filter (·.xmin = none)).map (·.row)

def insert (t : Table Row) (x ctid : Nat) (row : Row) : Table Row := t ++ [⟨ctid, some x, none, row⟩]

def delete (t : Table Row) (x : Nat) (p : Tuple Row → Bool) : Table Row :=
  t.map fun u => if p u then { u with xmax := some x } else u

def commit (t : Table Row) (x : Nat) : Table Row :=
  (t.filter (·.xmax ≠ some x)).map fun u => if u.xmin = some x then { u with xmin := none } else u

def rollback (t : Table Row) (x : Nat) : Table Row :=
  (t.filter (·.xmin ≠ some x)).map fun u => if u.xmax = some x then { u with xmax := none } else u

/-- What a transaction has not committed, no transaction deletes. -/
def Wf (t : Table Row) : Prop := ∀ u ∈ t, u.xmin ≠ none → u.xmax = none

/-- The weight of the committed rows. -/
def kept (w : Row → Int) (t : Table Row) : Int := (t.map (·.weight w)).sum

/-- What a transaction under way adds to it. -/
def pending (w : Row → Int) (x : Nat) (t : Table Row) : Int := (t.map (·.change w x)).sum

variable {t : Table Row} {w : Row → Int} {x y : Nat} {p : Tuple Row → Bool}

theorem kept_eq (w : Row → Int) (t : Table Row) : kept w t = (t.rows.map w).sum := by
  induction t with
  | nil => rfl
  | cons u t ih =>
    change u.weight w + kept w t = _
    rw [ih, rows, rows, List.filter_cons]
    by_cases h : u.xmin = none <;> simp [Tuple.weight, h]

theorem pending_eq_zero (h : ∀ u ∈ t, u.xmin ≠ some x ∧ u.xmax ≠ some x) : pending w x t = 0 := by
  refine List.sum_eq_zero fun n hn => ?_
  obtain ⟨u, hu, rfl⟩ := List.mem_map.1 hn
  simp [Tuple.change, h u hu]

/-! ## Sums over a table that changes -/

theorem sum_filter (p : Tuple Row → Bool) (g : Tuple Row → Int) (t : Table Row) :
    ((t.filter p).map g).sum = (t.map fun u => if p u then g u else 0).sum := by
  induction t with
  | nil => rfl
  | cons u t ih =>
    rw [List.filter_cons]
    by_cases h : p u <;> simp [h, ← ih]

theorem sum_filter_map (f : Tuple Row → Tuple Row) (g : Tuple Row → Int) (t : Table Row) :
    (((t.filter p).map f).map g).sum = (t.map fun u => if p u then g (f u) else 0).sum := by
  rw [List.map_map, sum_filter]
  rfl

theorem sum_congr {g g' : Tuple Row → Int} (h : ∀ u ∈ t, g u = g' u) :
    (t.map g).sum = (t.map g').sum := congrArg _ (List.map_congr_left h)

theorem sum_add (g g' : Tuple Row → Int) (t : Table Row) :
    (t.map fun u => g u + g' u).sum = (t.map g).sum + (t.map g').sum := List.sum_map_add

/-! ## Insertion -/

theorem kept_insert : kept w (t.insert x ctid row) = kept w t := by
  simp [kept, insert, Tuple.weight]

theorem pending_insert : pending w x (t.insert x ctid row) = pending w x t + w row := by
  simp [pending, insert, Tuple.change]

theorem pending_insert_of_ne (h : y ≠ x) : pending w y (t.insert x ctid row) = pending w y t := by
  simp [pending, insert, Tuple.change, Ne.symm h]

theorem rows_insert : (t.insert x ctid row).rows = t.rows := by simp [rows, insert]

theorem Wf.insert (h : Wf t) : Wf (t.insert x ctid row) := by
  intro u hu hmin
  rcases List.mem_append.1 hu with hu | hu
  · exact h u hu hmin
  · cases List.mem_singleton.1 hu
    rfl

/-! ## Deletion -/

theorem kept_delete : kept w (t.delete x p) = kept w t := by
  rw [kept, delete, List.map_map]
  refine sum_congr fun u _ => ?_
  simp only [Function.comp_apply]
  split <;> rfl

theorem rows_delete : (t.delete x p).rows = t.rows := by
  simp only [rows, delete, List.filter_map, List.map_map]
  have same : (fun u : Tuple Row => decide (u.xmin = none)) ∘
      (fun u => if p u then { u with xmax := some x } else u) = fun u => decide (u.xmin = none) := by
    funext u
    simp only [Function.comp_apply]
    split <;> rfl
  rw [same]
  refine List.map_congr_left fun u _ => ?_
  simp only [Function.comp_apply]
  split <;> rfl

/-- What is deleted is weighed by the transaction against what it inserts. -/
theorem pending_delete (h : ∀ u ∈ t, p u → u.Committed) :
    pending w x (t.delete x p) = pending w x t - ((t.filter p).map (w ·.row)).sum := by
  rw [eq_sub_iff_add_eq]
  rw [sum_filter, pending, delete, List.map_map, ← sum_add]
  refine sum_congr fun u hu => ?_
  simp only [Function.comp_apply]
  split
  next hp =>
    obtain ⟨hmin, hmax⟩ := h u hu hp
    simp [Tuple.change, hmin, hmax]
  next => simp

theorem pending_delete_of_ne (h : ∀ u ∈ t, p u → u.Committed) (hne : y ≠ x) :
    pending w y (t.delete x p) = pending w y t := by
  rw [pending, delete, List.map_map]
  refine sum_congr fun u hu => ?_
  simp only [Function.comp_apply]
  split
  next hp =>
    obtain ⟨hmin, hmax⟩ := h u hu hp
    simp [Tuple.change, hmin, hmax, Ne.symm hne]
  next => rfl

theorem Wf.delete (h : Wf t) (hp : ∀ u ∈ t, p u → u.Committed) : Wf (t.delete x p) := by
  intro u hu hmin
  obtain ⟨u, hold, rfl⟩ := List.mem_map.1 hu
  by_cases hpu : p u
  · rw [if_pos hpu] at hmin
    exact absurd (hp u hold hpu).1 hmin
  · rw [if_neg hpu] at hmin ⊢
    exact h u hold hmin

/-! ## The end of a transaction -/

/-- What a transaction has done counts once it commits. -/
theorem kept_commit (h : Wf t) : kept w (t.commit x) = kept w t + pending w x t := by
  rw [kept, commit, sum_filter_map, kept, pending, ← sum_add]
  refine sum_congr fun u hu => ?_
  by_cases hmin : u.xmin = some x
  · have hmax : u.xmax = none := h u hu (by simp [hmin])
    simp [Tuple.weight, Tuple.change, hmin, hmax]
  · by_cases hmax : u.xmax = some x
    · have committed : u.xmin = none := by
        by_contra hne
        exact Option.some_ne_none x (hmax.symm.trans (h u hu hne))
      simp [Tuple.weight, Tuple.change, hmax, committed]
    · simp [Tuple.weight, Tuple.change, hmin, hmax]

theorem not_marked_commit : ∀ u ∈ t.commit x, u.xmin ≠ some x ∧ u.xmax ≠ some x := by
  intro u hu
  obtain ⟨u, hold, rfl⟩ := List.mem_map.1 hu
  obtain ⟨hold, hmax⟩ := List.mem_filter.1 hold
  have hmax : u.xmax ≠ some x := of_decide_eq_true hmax
  split
  · exact ⟨by simp, hmax⟩
  · exact ⟨‹_›, hmax⟩

theorem pending_commit_of_ne (h : Wf t) (hne : y ≠ x) :
    pending w y (t.commit x) = pending w y t := by
  rw [pending, commit, sum_filter_map, pending]
  refine sum_congr fun u hu => ?_
  by_cases hmin : u.xmin = some x
  · have hmax : u.xmax = none := h u hu (by simp [hmin])
    simp [Tuple.change, hmin, hmax, Ne.symm hne]
  · by_cases hmax : u.xmax = some x
    · have committed : u.xmin = none := by
        by_contra hne'
        exact Option.some_ne_none x (hmax.symm.trans (h u hu hne'))
      simp [Tuple.change, hmax, committed, Ne.symm hne]
    · simp [hmin, hmax]

theorem Wf.commit (h : Wf t) : Wf (t.commit x) := by
  intro u hu hmin
  obtain ⟨u, hold, rfl⟩ := List.mem_map.1 hu
  by_cases hx : u.xmin = some x
  · rw [if_pos hx] at hmin
    exact absurd rfl hmin
  · rw [if_neg hx] at hmin ⊢
    exact h u (List.mem_filter.1 hold).1 hmin

theorem kept_rollback : kept w (t.rollback x) = kept w t := by
  rw [kept, rollback, sum_filter_map, kept]
  refine sum_congr fun u _ => ?_
  by_cases hmin : u.xmin = some x
  · simp [Tuple.weight, hmin]
  · by_cases hmax : u.xmax = some x <;> simp [Tuple.weight, hmin, hmax]

theorem rows_rollback : (t.rollback x).rows = t.rows := by
  induction t with
  | nil => rfl
  | cons u t ih =>
    simp only [rows, rollback] at ih ⊢
    by_cases hmin : u.xmin = some x
    · simpa [List.filter_cons, hmin] using ih
    · by_cases hmax : u.xmax = some x <;> by_cases committed : u.xmin = none <;>
        simpa [List.filter_cons, hmin, hmax, committed] using ih

theorem not_marked_rollback : ∀ u ∈ t.rollback x, u.xmin ≠ some x ∧ u.xmax ≠ some x := by
  intro u hu
  obtain ⟨u, hold, rfl⟩ := List.mem_map.1 hu
  have hmin : u.xmin ≠ some x := of_decide_eq_true (List.mem_filter.1 hold).2
  split
  · exact ⟨hmin, by simp⟩
  · exact ⟨hmin, ‹_›⟩

theorem pending_rollback_of_ne (h : Wf t) (hne : y ≠ x) :
    pending w y (t.rollback x) = pending w y t := by
  rw [pending, rollback, sum_filter_map, pending]
  refine sum_congr fun u hu => ?_
  by_cases hmin : u.xmin = some x
  · have hmax : u.xmax = none := h u hu (by simp [hmin])
    simp [Tuple.change, hmin, hmax, Ne.symm hne]
  · by_cases hmax : u.xmax = some x
    · simp [Tuple.change, hmin, hmax, Ne.symm hne]
    · simp [hmin, hmax]

theorem Wf.rollback (h : Wf t) : Wf (t.rollback x) := by
  intro u hu hmin
  obtain ⟨u, hold, rfl⟩ := List.mem_map.1 hu
  split
  · rfl
  next hx =>
    rw [if_neg hx] at hmin
    exact h u (List.mem_filter.1 hold).1 hmin

/-! ## Rows that vanish -/

theorem Wf.filter (h : Wf t) : Wf (t.filter p) := fun u hu => h u (List.mem_filter.1 hu).1

/-- Rows that weigh nothing may vanish. -/
theorem kept_filter (h : ∀ u ∈ t, p u = false → u.weight w = 0) : kept w (t.filter p) = kept w t := by
  rw [kept, sum_filter, kept]
  refine sum_congr fun u hu => ?_
  cases hp : p u with
  | true => rfl
  | false => simp [h u hu hp]

/-- And rows no transaction is on. -/
theorem pending_filter (h : ∀ u ∈ t, p u = false → u.Committed) :
    pending w x (t.filter p) = pending w x t := by
  rw [pending, sum_filter, pending]
  refine sum_congr fun u hu => ?_
  cases hp : p u with
  | true => rfl
  | false =>
    obtain ⟨hmin, hmax⟩ := h u hu hp
    simp [Tuple.change, hmin, hmax]

/-! ## Rows of one table and of the next -/

theorem mem_insert : u ∈ t.insert x ctid row ↔ u ∈ t ∨ u = ⟨ctid, some x, none, row⟩ := by
  simp [insert]

theorem mem_delete : u' ∈ t.delete x p ↔ ∃ u ∈ t, u' = if p u then { u with xmax := some x } else u :=
  List.mem_map.trans <| exists_congr fun _ => and_congr_right fun _ => eq_comm

/-- A deletion leaves each row where it is. -/
theorem of_mem_delete (h : u' ∈ t.delete x p) :
    ∃ u ∈ t, u'.ctid = u.ctid ∧ u'.row = u.row ∧ u'.xmin = u.xmin := by
  obtain ⟨u, hu, rfl⟩ := mem_delete.1 h
  refine ⟨u, hu, ?_⟩
  split <;> exact ⟨rfl, rfl, rfl⟩

theorem mem_commit : u' ∈ t.commit x ↔ ∃ u ∈ t, u.xmax ≠ some x ∧
    u' = if u.xmin = some x then { u with xmin := none } else u := by
  refine List.mem_map.trans (exists_congr fun u => ?_)
  rw [List.mem_filter, decide_eq_true_eq, and_assoc, eq_comm (a := u')]

theorem mem_rollback : u' ∈ t.rollback x ↔ ∃ u ∈ t, u.xmin ≠ some x ∧
    u' = if u.xmax = some x then { u with xmax := none } else u := by
  refine List.mem_map.trans (exists_congr fun u => ?_)
  rw [List.mem_filter, decide_eq_true_eq, and_assoc, eq_comm (a := u')]

theorem ctids_delete : (t.delete x p).map (·.ctid) = t.map (·.ctid) := by
  rw [delete, List.map_map]
  refine List.map_congr_left fun u _ => ?_
  simp only [Function.comp_apply]
  split <;> rfl

theorem ctids_commit : ((t.commit x).map (·.ctid)).Sublist (t.map (·.ctid)) := by
  rw [commit, List.map_map]
  have same : ((fun u : Tuple Row => u.ctid) ∘
      fun u => if u.xmin = some x then { u with xmin := none } else u) = (·.ctid) := by
    funext u
    simp only [Function.comp_apply]
    split <;> rfl
  rw [same]
  exact List.filter_sublist.map _

theorem ctids_rollback : ((t.rollback x).map (·.ctid)).Sublist (t.map (·.ctid)) := by
  rw [rollback, List.map_map]
  have same : ((fun u : Tuple Row => u.ctid) ∘
      fun u => if u.xmax = some x then { u with xmax := none } else u) = (·.ctid) := by
    funext u
    simp only [Function.comp_apply]
    split <;> rfl
  rw [same]
  exact List.filter_sublist.map _

theorem eq_of_ctid (distinct : (t.map (·.ctid)).Nodup) (hu : u ∈ t) (hv : v ∈ t)
    (h : u.ctid = v.ctid) : u = v := List.inj_on_of_nodup_map distinct hu hv h

/-- The rows everybody sees, with where they lie. -/
def visible (t : Table Row) : List (Nat × Row) :=
  (t.filter (·.xmin = none)).map fun u => (u.ctid, u.row)

theorem rows_eq_visible : t.rows = t.visible.map (·.2) := by
  rw [rows, visible, List.map_map]
  rfl

theorem mem_visible {r : Row} : (c, r) ∈ t.visible ↔ ∃ u ∈ t, u.xmin = none ∧ u.ctid = c ∧ u.row = r := by
  simp [visible, and_assoc]

theorem visible_insert : (t.insert x ctid row).visible = t.visible := by simp [visible, insert]

theorem mem_visible_delete {v : Nat × Row} : v ∈ (t.delete x p).visible ↔ v ∈ t.visible := by
  obtain ⟨c, r⟩ := v
  rw [mem_visible, mem_visible]
  constructor
  · rintro ⟨u', hu', hmin, hctid, hrow⟩
    obtain ⟨u, hu, hctid', hrow', hmin'⟩ := of_mem_delete hu'
    exact ⟨u, hu, hmin' ▸ hmin, hctid' ▸ hctid, hrow' ▸ hrow⟩
  · rintro ⟨u, hu, hmin, hctid, hrow⟩
    refine ⟨_, mem_delete.2 ⟨u, hu, rfl⟩, ?_⟩
    split <;> exact ⟨hmin, hctid, hrow⟩

theorem mem_visible_rollback {v : Nat × Row} : v ∈ (t.rollback x).visible ↔ v ∈ t.visible := by
  obtain ⟨c, r⟩ := v
  rw [mem_visible, mem_visible]
  constructor
  · rintro ⟨u', hu', hmin, hctid, hrow⟩
    obtain ⟨u, hu, _, rfl⟩ := mem_rollback.1 hu'
    by_cases hx : u.xmax = some x
    · rw [if_pos hx] at hmin hctid hrow
      exact ⟨u, hu, hmin, hctid, hrow⟩
    · rw [if_neg hx] at hmin hctid hrow
      exact ⟨u, hu, hmin, hctid, hrow⟩
  · rintro ⟨u, hu, hmin, hctid, hrow⟩
    refine ⟨_, mem_rollback.2 ⟨u, hu, by simp [hmin], rfl⟩, ?_⟩
    split <;> exact ⟨hmin, hctid, hrow⟩

/-- After a commit everybody sees what the transaction has inserted, and not what it has deleted. -/
theorem mem_visible_commit {r : Row} : (c, r) ∈ (t.commit x).visible ↔ ∃ u ∈ t,
    u.xmax ≠ some x ∧ (u.xmin = none ∨ u.xmin = some x) ∧ u.ctid = c ∧ u.row = r := by
  rw [mem_visible]
  constructor
  · rintro ⟨u', hu', hmin, hctid, hrow⟩
    obtain ⟨u, hu, hmax, rfl⟩ := mem_commit.1 hu'
    by_cases hx : u.xmin = some x
    · rw [if_pos hx] at hctid hrow
      exact ⟨u, hu, hmax, .inr hx, hctid, hrow⟩
    · rw [if_neg hx] at hmin hctid hrow
      exact ⟨u, hu, hmax, .inl hmin, hctid, hrow⟩
  · rintro ⟨u, hu, hmax, hmin, hctid, hrow⟩
    refine ⟨_, mem_commit.2 ⟨u, hu, hmax, rfl⟩, ?_⟩
    rcases hmin with hmin | hmin
    · rw [if_neg (by simp [hmin])]
      exact ⟨hmin, hctid, hrow⟩
    · rw [if_pos hmin]
      exact ⟨rfl, hctid, hrow⟩

/-! ## What a transaction leaves to the others -/

/-- One step of the transaction `x`, which inserts at `fresh` if it does: what the others have
inserted and deleted stays theirs. -/
structure Leaves (x fresh : Nat) (t t' : Table Row) : Prop where
  back : ∀ u' ∈ t', u'.ctid = fresh ∧ u'.xmin = some x ∧ u'.xmax = none ∨
    ∃ u ∈ t, u'.ctid = u.ctid ∧ u'.row = u.row ∧ ∀ y ≠ x,
      (u'.xmin = some y ↔ u.xmin = some y) ∧ (u'.xmax = some y ↔ u.xmax = some y)
  forth : ∀ u ∈ t, ∀ y ≠ x, u.xmin = some y → u ∈ t'

namespace Leaves

theorem refl : Leaves x fresh t t where
  back u hu := .inr ⟨u, hu, rfl, rfl, fun _ _ => ⟨.rfl, .rfl⟩⟩
  forth _ hu _ _ _ := hu

theorem insert : Leaves x ctid t (t.insert x ctid row) where
  back u' hu' := by
    rcases mem_insert.1 hu' with hu' | rfl
    · exact refl.back u' hu'
    · exact .inl ⟨rfl, rfl, rfl⟩
  forth u hu y _ _ := mem_insert.2 (.inl hu)

theorem delete (h : ∀ u ∈ t, p u → u.Committed) : Leaves x fresh t (t.delete x p) where
  back u' hu' := by
    obtain ⟨u, hu, rfl⟩ := mem_delete.1 hu'
    refine .inr ⟨u, hu, ?_⟩
    split
    next hp =>
      refine ⟨rfl, rfl, fun y hy => ⟨.rfl, ?_⟩⟩
      simp [(h u hu hp).2, Ne.symm hy]
    next => exact ⟨rfl, rfl, fun _ _ => ⟨.rfl, .rfl⟩⟩
  forth u hu y _ hmin := by
    refine mem_delete.2 ⟨u, hu, (if_neg fun hp => ?_).symm⟩
    rw [(h u hu hp).1] at hmin
    cases hmin

theorem commit (h : Wf t) : Leaves x fresh t (t.commit x) where
  back u' hu' := by
    obtain ⟨u, hu, hmax, rfl⟩ := mem_commit.1 hu'
    refine .inr ⟨u, hu, ?_⟩
    split
    next hmin =>
      refine ⟨rfl, rfl, fun y hy => ⟨?_, .rfl⟩⟩
      simp [hmin, Ne.symm hy]
    next => exact ⟨rfl, rfl, fun _ _ => ⟨.rfl, .rfl⟩⟩
  forth u hu y hy hmin := by
    have hne : u.xmin ≠ some x := by simp [hmin, hy]
    refine mem_commit.2 ⟨u, hu, ?_, (if_neg hne).symm⟩
    simp [h u hu (by simp [hmin])]

theorem rollback (h : Wf t) : Leaves x fresh t (t.rollback x) where
  back u' hu' := by
    obtain ⟨u, hu, hmin, rfl⟩ := mem_rollback.1 hu'
    refine .inr ⟨u, hu, ?_⟩
    split
    next hmax =>
      refine ⟨rfl, rfl, fun y hy => ⟨.rfl, ?_⟩⟩
      simp [hmax, Ne.symm hy]
    next => exact ⟨rfl, rfl, fun _ _ => ⟨.rfl, .rfl⟩⟩
  forth u hu y hy hmin := by
    have hne : u.xmax ≠ some x := by simp [h u hu (by simp [hmin])]
    exact mem_rollback.2 ⟨u, hu, by simp [hmin, hy], (if_neg hne).symm⟩

end Leaves

/-! ## A unique constraint -/

/-- Of two rows the constraint forbids together, one transaction deletes one and inserts the
other. -/
def Unique (same : Row → Row → Prop) (t : Table Row) : Prop :=
  ∀ u ∈ t, ∀ v ∈ t, u.ctid ≠ v.ctid → same u.row v.row →
    ∃ x, (u.xmax = some x ∧ v.xmin = some x) ∨ (v.xmax = some x ∧ u.xmin = some x)

/-- A place nobody lies at stays so, unless it is the next. -/
theorem Leaves.not_mem (h : Leaves x fresh t t') (hc : c ∉ t.map (·.ctid)) (hne : c ≠ fresh) :
    c ∉ t'.map (·.ctid) := by
  intro hmem
  obtain ⟨u', hu', rfl⟩ := List.mem_map.1 hmem
  rcases h.back u' hu' with ⟨hctid, _⟩ | ⟨u, hu, hctid, _⟩
  · exact hne hctid
  · exact hc (hctid ▸ List.mem_map_of_mem hu)

namespace Unique

variable {same : Row → Row → Prop}

/-- A committed row no transaction is on has nothing against it. -/
theorem not_same (h : Unique same t) (hu : u ∈ t) (hv : v ∈ t) (hne : u.ctid ≠ v.ctid)
    (committed : u.Committed) : ¬ same u.row v.row := by
  intro hsame
  obtain ⟨x, ⟨hmax, _⟩ | ⟨_, hmin⟩⟩ := h u hu v hv hne hsame
  · exact committed.unmarked.2 hmax
  · exact committed.unmarked.1 hmin

/-- Nor have two rows everybody sees. -/
theorem not_same_of_visible (h : Unique same t) (hu : u ∈ t) (hv : v ∈ t) (hne : u.ctid ≠ v.ctid)
    (hmin : u.xmin = none) (hmin' : v.xmin = none) : ¬ same u.row v.row := by
  intro hsame
  obtain ⟨x, ⟨_, hx⟩ | ⟨_, hx⟩⟩ := h u hu v hv hne hsame
  · cases hmin'.symm.trans hx
  · cases hmin.symm.trans hx

/-- Nor have two rows under way. -/
theorem not_same_of_drafts (h : Unique same t) (wf : Wf t) (hu : u ∈ t) (hv : v ∈ t)
    (hne : u.ctid ≠ v.ctid) (hmin : u.xmin = some x) (hmin' : v.xmin = some x) :
    ¬ same u.row v.row := by
  intro hsame
  obtain ⟨y, ⟨hmax, _⟩ | ⟨hmax, _⟩⟩ := h u hu v hv hne hsame
  · cases (wf u hu (by simp [hmin])).symm.trans hmax
  · cases (wf v hv (by simp [hmin'])).symm.trans hmax

theorem insert (h : Unique same t) (symm : ∀ r r', same r r' → same r' r)
    (free : ∀ u ∈ t, same u.row row → u.xmax = some x) : Unique same (t.insert x ctid row) := by
  intro u hu v hv hne hsame
  rcases mem_insert.1 hu with hu | rfl
  · rcases mem_insert.1 hv with hv | rfl
    · exact h u hu v hv hne hsame
    · exact ⟨x, .inl ⟨free u hu hsame, rfl⟩⟩
  · rcases mem_insert.1 hv with hv | rfl
    · exact ⟨x, .inr ⟨free v hv (symm _ _ hsame), rfl⟩⟩
    · exact absurd rfl hne

theorem delete (h : Unique same t) (symm : ∀ r r', same r r' → same r' r)
    (hp : ∀ u ∈ t, p u → u.Committed) : Unique same (t.delete x p) := by
  intro u' hu' v' hv' hne hsame
  obtain ⟨u, hu, rfl⟩ := mem_delete.1 hu'
  obtain ⟨v, hv, rfl⟩ := mem_delete.1 hv'
  by_cases hpu : p u
  · rw [if_pos hpu] at hne hsame
    refine absurd ?_ (h.not_same hu hv ?_ (hp u hu hpu))
    · split at hsame <;> exact hsame
    · split at hne <;> exact hne
  · by_cases hpv : p v
    · rw [if_neg hpu, if_pos hpv] at hne hsame
      have hsame : same v.row u.row := symm _ _ hsame
      exact absurd hsame (h.not_same hv hu (Ne.symm hne) (hp v hv hpv))
    · rw [if_neg hpu, if_neg hpv] at hne hsame ⊢
      exact h u hu v hv hne hsame

theorem commit (h : Unique same t) : Unique same (t.commit x) := by
  have moved : ∀ {u : Tuple Row} {y}, y ≠ x → u.xmin = some y →
      (if u.xmin = some x then { u with xmin := none } else u) = u := by
    intro u y hy hmin
    exact if_neg (by simp [hmin, hy])
  have fields : ∀ u : Tuple Row,
      (if u.xmin = some x then { u with xmin := none } else u).ctid = u.ctid ∧
      (if u.xmin = some x then { u with xmin := none } else u).row = u.row ∧
      (if u.xmin = some x then { u with xmin := none } else u).xmax = u.xmax := by
    intro u
    split <;> exact ⟨rfl, rfl, rfl⟩
  intro u' hu' v' hv' hne hsame
  obtain ⟨u, hu, hmax, rfl⟩ := mem_commit.1 hu'
  obtain ⟨v, hv, hmax', rfl⟩ := mem_commit.1 hv'
  rw [(fields u).1, (fields v).1] at hne
  rw [(fields u).2.1, (fields v).2.1] at hsame
  obtain ⟨y, ⟨hy, hmin⟩ | ⟨hy, hmin⟩⟩ := h u hu v hv hne hsame
  · have hyx : y ≠ x := fun heq => hmax (heq ▸ hy)
    exact ⟨y, .inl ⟨(fields u).2.2.trans hy, by rw [moved hyx hmin, hmin]⟩⟩
  · have hyx : y ≠ x := fun heq => hmax' (heq ▸ hy)
    exact ⟨y, .inr ⟨(fields v).2.2.trans hy, by rw [moved hyx hmin, hmin]⟩⟩

theorem rollback (h : Unique same t) : Unique same (t.rollback x) := by
  have moved : ∀ {u : Tuple Row} {y}, y ≠ x → u.xmax = some y →
      (if u.xmax = some x then { u with xmax := none } else u) = u := by
    intro u y hy hmax
    exact if_neg (by simp [hmax, hy])
  have fields : ∀ u : Tuple Row,
      (if u.xmax = some x then { u with xmax := none } else u).ctid = u.ctid ∧
      (if u.xmax = some x then { u with xmax := none } else u).row = u.row ∧
      (if u.xmax = some x then { u with xmax := none } else u).xmin = u.xmin := by
    intro u
    split <;> exact ⟨rfl, rfl, rfl⟩
  intro u' hu' v' hv' hne hsame
  obtain ⟨u, hu, hmin, rfl⟩ := mem_rollback.1 hu'
  obtain ⟨v, hv, hmin', rfl⟩ := mem_rollback.1 hv'
  rw [(fields u).1, (fields v).1] at hne
  rw [(fields u).2.1, (fields v).2.1] at hsame
  obtain ⟨y, ⟨hmax, hy⟩ | ⟨hmax, hy⟩⟩ := h u hu v hv hne hsame
  · have hyx : y ≠ x := fun heq => hmin' (heq ▸ hy)
    exact ⟨y, .inl ⟨by rw [moved hyx hmax, hmax], (fields v).2.2.trans hy⟩⟩
  · have hyx : y ≠ x := fun heq => hmin (heq ▸ hy)
    exact ⟨y, .inr ⟨by rw [moved hyx hmax, hmax], (fields u).2.2.trans hy⟩⟩

end Unique

end Table

end Mvcc
