import Mathlib.Data.List.Induction
import Mathlib.Data.List.Nodup
import Mathlib.Data.List.Perm.Subperm

/-!
# Tasks under way

A list of tasks, each known by its position, of which a step adds one at the end or moves one on.
`Exclusive` says that at most one of them holds something: a lock, a turn.
-/

namespace Tasks

variable {Task : Type u} {tasks : List Task} {holds : Task → Prop}

theorem getElem?_set_eq_some_iff (at_ : tasks[i]? = some old) :
    (tasks.set i new)[j]? = some task ↔
      (j = i ∧ task = new) ∨ (j ≠ i ∧ tasks[j]? = some task) := by
  have inRange : i < tasks.length := (List.getElem?_eq_some_iff.1 at_).1
  rw [List.getElem?_set]
  by_cases h : i = j
  · subst j
    simp [inRange, eq_comm]
  · simp [h, Ne.symm h]

theorem getElem?_concat_eq_some_iff :
    (tasks ++ [new])[j]? = some task ↔
      tasks[j]? = some task ∨ (j = tasks.length ∧ task = new) := by
  rcases Nat.lt_trichotomy j tasks.length with h | rfl | h
  · simp [List.getElem?_append_left h, Nat.ne_of_lt h]
  · simp [eq_comm]
  · have beyond : (tasks ++ [new]).length ≤ j := by simpa using Nat.succ_le_of_lt h
    simp [List.getElem?_eq_none (Nat.le_of_lt h), List.getElem?_eq_none beyond, Nat.ne_of_gt h]

theorem forall_mem_set {P : Task → Prop} (h : ∀ task ∈ tasks, P task) (hnew : P new) :
    ∀ task ∈ tasks.set i new, P task := by
  intro task htask
  rcases List.mem_or_eq_of_mem_set htask with htask | rfl
  · exact h task htask
  · exact hnew

theorem forall_mem_concat {P : Task → Prop} (h : ∀ task ∈ tasks, P task) (hnew : P new) :
    ∀ task ∈ tasks ++ [new], P task := by
  intro task htask
  rcases List.mem_append.1 htask with htask | htask
  · exact h task htask
  · exact List.mem_singleton.1 htask ▸ hnew

/-- What holds of one task and of all the others. -/
theorem forall_of_eraseIdx {P : Task → Prop} (at_ : tasks[i]? = some old) (own : P old)
    (others : ∀ task ∈ tasks.eraseIdx i, P task) : ∀ task ∈ tasks, P task := by
  intro task htask
  obtain ⟨j, hj⟩ := List.getElem?_of_mem htask
  by_cases h : j = i
  · subst h
    rw [at_] at hj
    exact Option.some.inj hj ▸ own
  · exact others task (List.mem_eraseIdx_iff_getElem?.2 ⟨j, h, hj⟩)

/-- What some other task has is not lost as one moves on or ends. -/
theorem exists_mem_set {P : Task → Prop} (at_ : tasks[i]? = some old) (own : ¬ P old)
    (h : ∃ task ∈ tasks, P task) (new : Task) : ∃ task ∈ tasks.set i new, P task := by
  obtain ⟨task, htask, hP⟩ := h
  obtain ⟨j, hj⟩ := List.getElem?_of_mem htask
  have other : i ≠ j := by
    rintro rfl
    rw [at_] at hj
    exact own (Option.some.inj hj ▸ hP)
  exact ⟨task, List.mem_of_getElem? ((List.getElem?_set_ne other).trans hj), hP⟩

theorem exists_mem_eraseIdx {P : Task → Prop} (at_ : tasks[i]? = some old) (own : ¬ P old)
    (h : ∃ task ∈ tasks, P task) : ∃ task ∈ tasks.eraseIdx i, P task := by
  by_contra nothing
  have others : ∀ task ∈ tasks.eraseIdx i, ¬ P task :=
    fun task htask hP => nothing ⟨task, htask, hP⟩
  obtain ⟨task, htask, hP⟩ := h
  exact forall_of_eraseIdx (P := fun task => ¬ P task) at_ own others task htask hP

/-- What the tasks hold changes by what one of them holds. -/
theorem flatMap_set_perm {f : Task → List Item} (at_ : tasks[i]? = some old) (new : Task) :
    (f new ++ tasks.flatMap f).Perm (f old ++ (tasks.set i new).flatMap f) := by
  induction tasks generalizing i with
  | nil => cases at_
  | cons task tasks ih =>
    cases i with
    | zero =>
      cases at_
      simp only [List.set_cons_zero, List.flatMap_cons]
      exact List.perm_append_comm_assoc _ _ _
    | succ i =>
      simp only [List.set_cons_succ, List.flatMap_cons]
      calc f new ++ (f task ++ tasks.flatMap f)
        _ |>.Perm (f task ++ (f new ++ tasks.flatMap f)) := List.perm_append_comm_assoc _ _ _
        _ |>.Perm (f task ++ (f old ++ (tasks.set i new).flatMap f)) := (ih at_).append_left _
        _ |>.Perm (f old ++ (f task ++ (tasks.set i new).flatMap f)) :=
          List.perm_append_comm_assoc _ _ _

theorem countP_eq_countP_range (p : Task → Bool) (tasks : List Task) :
    tasks.countP p = (List.range tasks.length).countP fun i => (tasks[i]?).any p := by
  induction tasks using List.reverseRecOn with
  | nil => rfl
  | append_singleton tasks task ih =>
    rw [List.length_append, List.length_singleton, List.range_succ, List.countP_append,
      List.countP_append, ih]
    congr 1
    · refine List.countP_congr fun i hi => ?_
      rw [List.getElem?_append_left (List.mem_range.1 hi)]
    · simp

/-- Different positions, of which some tasks meet a condition. -/
theorem countP_getElem?_le {positions : List Nat} (distinct : positions.Nodup) (p : Task → Bool) :
    positions.countP (fun i => (tasks[i]?).any p) ≤ tasks.countP p := by
  rw [countP_eq_countP_range p tasks, List.countP_eq_length_filter, List.countP_eq_length_filter]
  refine (List.subperm_of_subset (distinct.filter _) fun i hi => ?_).length_le
  obtain ⟨_, hany⟩ := List.mem_filter.1 hi
  refine List.mem_filter.2 ⟨List.mem_range.2 ?_, hany⟩
  by_contra beyond
  rw [List.getElem?_eq_none (Nat.le_of_not_lt beyond)] at hany
  cases hany

/-- At most one task holds. -/
def Exclusive (holds : Task → Prop) (tasks : List Task) : Prop :=
  ∀ ⦃i j : Nat⦄ ⦃task task' : Task⦄, tasks[i]? = some task → tasks[j]? = some task' →
    holds task → holds task' → i = j

namespace Exclusive

theorem of_none (h : ∀ task ∈ tasks, ¬ holds task) : Exclusive holds tasks :=
  fun _ _ _ _ hi _ ht _ => absurd ht (h _ (List.mem_of_getElem? hi))

/-- A task comes that holds nothing, or while nobody does. -/
theorem concat_of_free (h : Exclusive holds tasks)
    (hnew : holds new → ∀ task ∈ tasks, ¬ holds task) : Exclusive holds (tasks ++ [new]) := by
  intro i j task task' hi hj ht ht'
  rcases getElem?_concat_eq_some_iff.1 hi with old | ⟨last, new_⟩
  · rcases getElem?_concat_eq_some_iff.1 hj with old' | ⟨_, new_'⟩
    · exact h old old' ht ht'
    · exact absurd ht (hnew (new_' ▸ ht') task (List.mem_of_getElem? old))
  · rcases getElem?_concat_eq_some_iff.1 hj with old' | ⟨last', _⟩
    · exact absurd ht' (hnew (new_ ▸ ht) task' (List.mem_of_getElem? old'))
    · exact last.trans last'.symm

theorem concat (h : Exclusive holds tasks) (hnew : ¬ holds new) :
    Exclusive holds (tasks ++ [new]) := h.concat_of_free fun ht => absurd ht hnew

/-- A task moves on: it held before, or nobody did. -/
theorem set (h : Exclusive holds tasks) (at_ : tasks[i]? = some old)
    (hnew : holds new → holds old ∨ ∀ task ∈ tasks, ¬ holds task) :
    Exclusive holds (tasks.set i new) := by
  have other : ∀ {j task}, tasks[j]? = some task → holds task → holds new → j = i := by
    intro j task hj ht hn
    rcases hnew hn with hold | free
    · exact h hj at_ ht hold
    · exact absurd ht (free task (List.mem_of_getElem? hj))
  intro j j' task task' hj hj' ht ht'
  rcases (getElem?_set_eq_some_iff at_).1 hj with ⟨hji, htask⟩ | ⟨_, hold⟩
  · rcases (getElem?_set_eq_some_iff at_).1 hj' with ⟨hji', _⟩ | ⟨_, hold'⟩
    · exact hji.trans hji'.symm
    · exact hji.trans (other hold' ht' (htask ▸ ht)).symm
  · rcases (getElem?_set_eq_some_iff at_).1 hj' with ⟨hji', htask'⟩ | ⟨_, hold'⟩
    · exact (other hold ht (htask' ▸ ht')).trans hji'.symm
    · exact h hold hold' ht ht'

end Exclusive

end Tasks
