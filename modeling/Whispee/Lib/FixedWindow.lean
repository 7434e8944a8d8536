import Mathlib.Data.List.Induction

/-!
# Fixed windows

A counter of the calls in windows of a fixed length. A call opens a window if there is none or the
last one is over; it is admitted while its window counts no more calls than the quota. Two quotas
may go through in the time of one window (`countWithin_le`), and no more.
-/

namespace FixedWindow

structure Window where
  since : Nat
  count : Nat
  deriving DecidableEq

/-- What a run of calls leaves behind: the window it is in, and the calls it admitted. -/
structure Run where
  window : Option Window
  admitted : List Nat

section
variable (length quota : Nat)

/-- The window of a call, which is counted in it. -/
def next : Option Window → Nat → Window
  | none, now => ⟨now, 1⟩
  | some w, now => if length ≤ now - w.since then ⟨now, 1⟩ else ⟨w.since, w.count + 1⟩

def step (r : Run) (now : Nat) : Run where
  window := some (next length r.window now)
  admitted := if (next length r.window now).count ≤ quota then r.admitted ++ [now] else r.admitted

def run (calls : List Nat) : Run := calls.foldl (step length quota) ⟨none, []⟩

/-- The decision on a call that comes after others. -/
def admits (calls : List Nat) (now : Nat) : Bool :=
  (next length (run length quota calls).window now).count ≤ quota

/-- The times that fall into an interval as long as a window, both ends included. -/
def countWithin (start : Nat) (times : List Nat) : Nat :=
  times.countP fun t => start ≤ t ∧ t ≤ start + length

end

section
variable {length quota : Nat} {calls times : List Nat} {w : Window} {r : Run}

@[simp] theorem run_nil : run length quota [] = ⟨none, []⟩ := rfl

@[simp] theorem run_concat :
    run length quota (calls ++ [now]) = step length quota (run length quota calls) now := by
  rw [run, List.foldl_append]
  rfl

theorem countWithin_concat : countWithin length start (times ++ [now]) =
    countWithin length start times + if start ≤ now ∧ now ≤ start + length then 1 else 0 := by
  rw [countWithin, List.countP_append, List.countP_singleton, countWithin]
  by_cases h : start ≤ now ∧ now ≤ start + length <;> simp [h]

/-- How much of the interval's two quotas is used up, by where the current window lies. -/
def allowance (length quota start : Nat) (w : Window) : Nat :=
  if w.since ≤ start then min w.count quota
  else if w.since ≤ start + length then quota + min w.count quota
  else 2 * quota

/-- The calls admitted so far came before the end of the window, and within the allowance. -/
structure Bounded (length quota start : Nat) (r : Run) (w : Window) : Prop where
  before : ∀ t ∈ r.admitted, t < w.since + length
  within : countWithin length start r.admitted ≤ allowance length quota start w

theorem countWithin_eq_zero (h : ∀ t ∈ times, t < start) : countWithin length start times = 0 := by
  rw [countWithin, List.countP_eq_zero]
  intro t ht
  have := h t ht
  rw [decide_eq_true_eq]
  omega

/-- One more call of the window uses up no more than the allowance of one more call. -/
theorem allowance_join (hsince : w.since ≤ now) (hquota : w.count + 1 ≤ quota) :
    (allowance length quota start w + if start ≤ now ∧ now ≤ start + length then 1 else 0) ≤
      allowance length quota start ⟨w.since, w.count + 1⟩ := by
  unfold allowance
  dsimp only
  by_cases hearly : w.since ≤ start
  · rw [if_pos hearly, if_pos hearly]
    split <;> omega
  · rw [if_neg hearly, if_neg hearly]
    by_cases hinside : w.since ≤ start + length
    · rw [if_pos hinside, if_pos hinside]
      split <;> omega
    · rw [if_neg hinside, if_neg hinside, if_neg (by omega)]
      exact Nat.le_refl _

theorem allowance_le : allowance length quota start w ≤ 2 * quota := by
  unfold allowance
  split
  · omega
  · split <;> omega

/-- A call joins the window that is open. -/
theorem Bounded.join (h : Bounded length quota start r w) (hsince : w.since ≤ now)
    (hnow : now - w.since < length) :
    Bounded length quota start (step length quota ⟨some w, r.admitted⟩ now)
      ⟨w.since, w.count + 1⟩ := by
  have hnext : next length (some w) now = ⟨w.since, w.count + 1⟩ := if_neg (Nat.not_le.2 hnow)
  unfold step
  dsimp only
  rw [hnext]
  split
  next hquota =>
    constructor
    · intro t ht
      rcases List.mem_append.1 ht with hold | hlast
      · exact h.before t hold
      · obtain rfl := List.mem_singleton.1 hlast
        dsimp only
        omega
    · rw [countWithin_concat]
      exact Nat.le_trans (Nat.add_le_add_right h.within _) (allowance_join hsince hquota)
  next hquota =>
    refine ⟨h.before, Nat.le_trans h.within ?_⟩
    dsimp only at hquota
    unfold allowance
    dsimp only
    split
    · omega
    · split <;> omega

/-- A call opens a window: all that was admitted came before it. -/
theorem Bounded.fresh (hlength : 0 < length) (hbefore : ∀ t ∈ r.admitted, t < now)
    (hwithin : start < now → now ≤ start + length → countWithin length start r.admitted ≤ quota)
    (htotal : countWithin length start r.admitted ≤ 2 * quota)
    (hnext : next length r.window now = ⟨now, 1⟩) :
    Bounded length quota start (step length quota r now) ⟨now, 1⟩ := by
  unfold step
  rw [hnext]
  dsimp only
  have hold : countWithin length start r.admitted ≤
      if now ≤ start then 0 else if now ≤ start + length then quota else 2 * quota := by
    split
    next hearly =>
      exact Nat.le_of_eq (countWithin_eq_zero fun t ht => Nat.lt_of_lt_of_le (hbefore t ht) hearly)
    next hlate =>
      split
      next hinside => exact hwithin (Nat.not_le.1 hlate) hinside
      next => exact htotal
  split
  next hquota =>
    constructor
    · intro t ht
      dsimp only
      rcases List.mem_append.1 ht with hold | hlast
      · exact Nat.lt_add_right _ (hbefore t hold)
      · obtain rfl := List.mem_singleton.1 hlast
        exact Nat.lt_add_of_pos_right hlength
    · rw [countWithin_concat]
      unfold allowance
      dsimp only
      split at hold
      next hearly =>
        rw [if_pos hearly]
        split <;> omega
      next hlate =>
        rw [if_neg hlate]
        split at hold
        next hinside =>
          rw [if_pos hinside]
          split <;> omega
        next houtside =>
          rw [if_neg houtside, if_neg fun h => houtside h.2]
          exact hold
  next =>
    refine ⟨fun t ht => Nat.lt_add_right _ (hbefore t ht), Nat.le_trans hold ?_⟩
    unfold allowance
    dsimp only
    split
    · exact Nat.zero_le _
    · split
      · exact Nat.le_add_right _ _
      · exact Nat.le_refl _

/-- The window of a run in order is one of its calls, and holds the calls since then. -/
structure Counts (length : Nat) (calls : List Nat) (w : Window) : Prop where
  since : w.since ∈ calls
  count : w.count ≤ calls.countP fun t => w.since ≤ t ∧ t < w.since + length

theorem Counts.join (h : Counts length calls w) (ordered : ∀ t ∈ calls, t ≤ now)
    (hnow : now - w.since < length) : Counts length (calls ++ [now]) ⟨w.since, w.count + 1⟩ where
  since := List.mem_append_left _ h.since
  count := by
    have hsince := ordered w.since h.since
    have hinside : w.since ≤ now ∧ now < w.since + length := ⟨hsince, by omega⟩
    rw [List.countP_append, List.countP_singleton, if_pos (decide_eq_true hinside)]
    exact Nat.add_le_add_right h.count 1

theorem Counts.fresh (hlength : 0 < length) : Counts length (calls ++ [now]) ⟨now, 1⟩ where
  since := List.mem_append_right _ (List.mem_singleton_self now)
  count := by
    have hinside : now ≤ now ∧ now < now + length :=
      ⟨Nat.le_refl _, Nat.lt_add_of_pos_right hlength⟩
    rw [List.countP_append, List.countP_singleton, if_pos (decide_eq_true hinside)]
    exact Nat.le_add_left 1 _

/-- What is known of a run in order: nothing has happened, or it is in a window. -/
inductive Known (length quota start : Nat) (calls : List Nat) (r : Run) : Prop where
  | none (calls : calls = []) (window : r.window = none) (admitted : r.admitted = [])
  | some (w : Window) (window : r.window = some w) (counts : Counts length calls w)
      (bounded : Bounded length quota start r w)

theorem known (hlength : 0 < length) (ordered : calls.Pairwise (· ≤ ·)) (quota start : Nat) :
    Known length quota start calls (run length quota calls) := by
  induction calls using List.reverseRecOn with
  | nil => exact .none rfl rfl rfl
  | append_singleton calls now ih =>
    obtain ⟨hcalls, _, hlast⟩ := List.pairwise_append.1 ordered
    have hnow : ∀ t ∈ calls, t ≤ now := fun t ht => hlast t ht now (List.mem_singleton_self now)
    rw [run_concat]
    generalize run length quota calls = r at ih
    cases ih hcalls with
    | none hnil hwindow hadmitted =>
      have hnext : next length r.window now = ⟨now, 1⟩ := by rw [hwindow, next]
      have hzero : countWithin length start r.admitted = 0 := by rw [hadmitted]; rfl
      refine .some ⟨now, 1⟩ (congrArg some hnext) (Counts.fresh hlength) ?_
      refine .fresh hlength (fun t ht => ?_) (fun _ _ => ?_) ?_ hnext
      · rw [hadmitted] at ht
        cases ht
      · exact hzero ▸ Nat.zero_le _
      · exact hzero ▸ Nat.zero_le _
    | some w hwindow hcounts hbounded =>
      obtain ⟨window, admitted⟩ := r
      obtain rfl : window = some w := hwindow
      have hsince : w.since ≤ now := hnow w.since hcounts.since
      rcases Nat.lt_or_ge (now - w.since) length with hopen | hover
      · have hnext : next length (some w) now = ⟨w.since, w.count + 1⟩ :=
          if_neg (Nat.not_le.2 hopen)
        exact .some _ (congrArg some hnext) (hcounts.join hnow hopen) (hbounded.join hsince hopen)
      · have hnext : next length (some w) now = ⟨now, 1⟩ := if_pos hover
        have hend : w.since + length ≤ now := by omega
        refine .some _ (congrArg some hnext) (Counts.fresh hlength) ?_
        refine .fresh hlength (fun t ht => Nat.lt_of_lt_of_le (hbounded.before t ht) hend)
          (fun _ hinside => ?_) (Nat.le_trans hbounded.within allowance_le) hnext
        -- the window before began too early to have used the second quota
        have hearly : w.since ≤ start := by omega
        have hallowed := hbounded.within
        rw [allowance, if_pos hearly] at hallowed
        exact Nat.le_trans hallowed (Nat.min_le_right _ _)

/-- In any interval as long as a window, at most two quotas are admitted. -/
theorem countWithin_le (hlength : 0 < length) (ordered : calls.Pairwise (· ≤ ·)) (quota start : Nat) :
    countWithin length start (run length quota calls).admitted ≤ 2 * quota := by
  cases known hlength ordered quota start with
  | none _ _ hadmitted =>
    rw [hadmitted]
    exact Nat.zero_le _
  | some w _ _ hbounded => exact Nat.le_trans hbounded.within allowance_le

/-- The calls a window counts all lie in it. -/
theorem count_le (hlength : 0 < length) (ordered : calls.Pairwise (· ≤ ·))
    (h : (run length quota calls).window = some w) :
    w.count ≤ calls.countP fun t => w.since ≤ t ∧ t < w.since + length := by
  cases known hlength ordered quota 0 with
  | none _ hwindow _ =>
    rw [hwindow] at h
    cases h
  | some w' hwindow hcounts _ =>
    obtain rfl : w = w' := Option.some.inj (h.symm.trans hwindow)
    exact hcounts.count

end

end FixedWindow
