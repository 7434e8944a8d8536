import Mathlib.Logic.Basic

/-!
# Runs of a transition system

A system is a partial step function: `step s a = none` says that the action `a` is not possible
in `s`. `run` executes a list of actions; `Reach step guard s t` says that `t` is reached from `s`
by steps that all meet `guard`, a condition on the state before the step. `Reach.invariant` is the
rule every safety result goes through.
-/

namespace Transition

variable {State : Type u} {Action : Type v}

/-- The state after a list of actions, if each of them is possible in its turn. -/
def run (step : State → Action → Option State) : State → List Action → Option State
  | s, [] => some s
  | s, a :: actions => (step s a).bind (run step · actions)

theorem run_cons_of_step {step : State → Action → Option State} (h : step s a = some t) :
    run step s (a :: actions) = run step t actions := by
  rw [run, h, Option.bind_some]

/-- Reached by steps whose states and actions all meet `guard`. -/
inductive Reach (step : State → Action → Option State) (guard : State → Action → Prop)
    (s : State) : State → Prop where
  | refl : Reach step guard s s
  | tail : Reach step guard s t → guard t a → step t a = some u → Reach step guard s u

variable {step : State → Action → Option State} {guard : State → Action → Prop}

namespace Reach

/-- What holds at the start and is kept by every step that meets the guard holds throughout. -/
theorem invariant {Inv : State → Prop} (start : Inv s)
    (kept : ∀ {t a u}, Inv t → guard t a → step t a = some u → Inv u)
    (h : Reach step guard s t) : Inv t := by
  induction h with
  | refl => exact start
  | tail _ hg hs ih => exact kept ih hg hs

theorem trans (h : Reach step guard s t) (h' : Reach step guard t u) : Reach step guard s u := by
  induction h' with
  | refl => exact h
  | tail _ hg hs ih => exact .tail ih hg hs

theorem mono {guard guard' : State → Action → Prop} (weaker : ∀ t a, guard t a → guard' t a)
    (h : Reach step guard s t) : Reach step guard' s t := by
  induction h with
  | refl => exact .refl
  | tail _ hg hs ih => exact .tail ih (weaker _ _ hg) hs

end Reach

/-- Executing actions that all meet the guard reaches the state it returns. -/
theorem reach_of_run_guarded [DecidableRel guard]
    (h : run (fun s a => if guard s a then step s a else none) s actions = some t) :
    Reach step guard s t := by
  induction actions generalizing s with
  | nil =>
    cases h
    exact .refl
  | cons a actions ih =>
    obtain ⟨u, hu, h⟩ := Option.bind_eq_some_iff.1 h
    dsimp only at hu
    split at hu
    · exact (Reach.tail .refl ‹_› hu).trans (ih h)
    · cases hu

/-- Executing actions reaches the state it returns. -/
theorem reach_of_run (h : run step s actions = some t) :
    Reach step (fun _ _ => True) s t := by
  have hguarded : run (fun s a => if True then step s a else none) s actions = some t := by
    simpa only [if_true] using h
  exact reach_of_run_guarded hguarded

/-- Some step of the run meets a condition on its action and on the state before it. -/
def Passes (step : State → Action → Option State) (P : State → Action → Prop) (s : State)
    (actions : List Action) : Prop :=
  ∃ before a after t, actions = before ++ a :: after ∧ run step s before = some t ∧ P t a

variable {P : State → Action → Prop}

theorem not_passes_nil : ¬ Passes step P s [] := by
  rintro ⟨before, a, after, t, h, _⟩
  cases before <;> cases h

theorem passes_cons_iff (h : step s a = some t) :
    Passes step P s (a :: actions) ↔ P s a ∨ Passes step P t actions := by
  constructor
  · rintro ⟨before, b, after, u, hactions, hrun, hP⟩
    cases before with
    | nil =>
      cases hactions
      cases hrun
      exact .inl hP
    | cons c before =>
      cases hactions
      rw [run, h] at hrun
      exact .inr ⟨before, b, after, u, rfl, hrun, hP⟩
  · rintro (hP | ⟨before, b, after, u, rfl, hrun, hP⟩)
    · exact ⟨[], a, actions, s, rfl, rfl, hP⟩
    · refine ⟨a :: before, b, after, u, rfl, ?_, hP⟩
      rw [run, h]
      exact hrun

end Transition
