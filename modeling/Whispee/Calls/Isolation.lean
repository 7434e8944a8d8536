import Whispee.Calls.Calls
import Whispee.Lib.Transition

/-!
# One call and the next

A method that was suspended during one call goes on during another. `place`, `enter` with its room,
and `observed` ask again which call is current, and `hang` keeps what it has read before; `mute`
does neither, and what ends a call because a room has failed or closed ends whichever is current
(`isolated_iff`).
-/

namespace Whispee.Calls

open Transition

variable {s t : Calls} {c : String}

/-- The call of the asynchronous step that this action completes. -/
def completes (s : Calls) : Action → Option String
  | .resolve k _ | .joined k _ _ | .reject k => s.tasks[k]?.bind Task.call?
  | .onPeers call _ _ | .onClosed call => some call
  | _ => none

/-- From `s` to `t` nothing is sent for another call than `c`, and another call than `c` that is
current is left as it was. -/
structure Isolated (c : String) (s t : Calls) : Prop where
  signals : ∃ new, t.signals = s.signals ++ new ∧ ∀ x ∈ new, x.call = c
  announced : ∃ new, t.announced = s.announced ++ new ∧ ∀ x ∈ new, x.call = c
  untouched : s.state.call ≠ c → t.state = s.state ∧ t.room = s.room ∧ t.heard = s.heard ∧
    t.placed = s.placed ∧ t.awaited = s.awaited ∧ t.declined = s.declined

/-- What a task does when it goes on concerns the current call only if it belongs to it: this may
fail for a `mute` that the room has carried out. -/
def FitsResume (s : Calls) : Task → Prop
  | .muting call _ => call = s.state.call
  | _ => True

/-- What a task does when it fails: an admission, a room or a departure that fails ends the current
call, unless there is none. -/
def FitsFailure (s : Calls) : Task → Prop
  | .admitting _ call | .joining call | .leaving call =>
    call = s.state.call ∨ s.state.phase = .idle
  | _ => True

instance : DecidablePred s.FitsResume := by
  intro task
  unfold FitsResume
  split <;> infer_instance

instance : DecidablePred s.FitsFailure := by
  intro task
  unfold FitsFailure
  split <;> infer_instance

/-- What completes acts on the current call only if it belongs to it. -/
def FitsCurrent (s : Calls) : Action → Prop
  | .resolve k _ => ∀ task ∈ s.tasks[k]?, s.FitsResume task
  | .reject k => ∀ task ∈ s.tasks[k]?, s.FitsFailure task
  | .onClosed call => call = s.state.call ∨ s.state.phase = .idle
  | _ => True

instance : DecidablePred s.FitsCurrent := by
  intro a
  unfold FitsCurrent
  split <;> infer_instance

namespace Isolated

theorem refl : Isolated c s s where
  signals := ⟨[], (List.append_nil _).symm, by simp⟩
  announced := ⟨[], (List.append_nil _).symm, by simp⟩
  untouched _ := ⟨rfl, rfl, rfl, rfl, rfl, rfl⟩

/-- A step that concerns the current call, and sends for it. -/
theorem of_current (hc : s.state.call = c)
    (signals : ∃ new, t.signals = s.signals ++ new ∧ ∀ x ∈ new, x.call = c)
    (announced : t.announced = s.announced) : Isolated c s t where
  signals := signals
  announced := ⟨[], announced.trans (List.append_nil _).symm, by simp⟩
  untouched hne := absurd hc hne

theorem hang (h : s.state.call = c ∨ s.state.phase = .idle) : Isolated c s s.hang := by
  unfold Calls.hang
  split
  · exact refl
  next hphase =>
    have hc := h.resolve_right hphase
    exact of_current hc ⟨[_], rfl, by rintro x hx; rw [List.mem_singleton.1 hx]; exact hc⟩ rfl

theorem not_hang (hcall : s.state.call ≠ c) (hphase : s.state.phase ≠ .idle) :
    ¬ Isolated c s s.hang := by
  intro h
  obtain ⟨new, hnew, hall⟩ := h.signals
  unfold Calls.hang at hnew
  rw [if_neg hphase] at hnew
  obtain rfl := List.append_cancel_left hnew
  exact hcall (hall _ (List.mem_singleton_self _))

theorem hang_iff : Isolated c s s.hang ↔ c = s.state.call ∨ s.state.phase = .idle := by
  refine ⟨fun h => ?_, fun h => hang (h.imp_left Eq.symm)⟩
  by_contra hnot
  obtain ⟨hcall, hphase⟩ := not_or.1 hnot
  exact not_hang (Ne.symm hcall) hphase h

theorem observed : Isolated c s (s.observed c peers now) := by
  unfold Calls.observed
  split
  · exact refl
  next hcall =>
    have hc := not_not.1 hcall
    dsimp only
    split
    · exact of_current hc ⟨[], (List.append_nil _).symm, by simp⟩ rfl
    · split
      · obtain ⟨hsignals, hannounced, _⟩ := hang (s := { s with
          heard := now
          state := { s.state with peers } }) (.inl hc)
        exact ⟨hsignals, hannounced, fun hne => absurd hc hne⟩
      · exact of_current hc ⟨[], (List.append_nil _).symm, by simp⟩ rfl

/-- A task that only moves on. -/
theorem setTask {task : Task} : Isolated c s (s.setTask k task) :=
  ⟨refl.signals, refl.announced, refl.untouched⟩

/-- The tasks have no part in it. -/
theorem of_setTask {task : Task} (h : Isolated c (s.setTask k task) t) : Isolated c s t :=
  ⟨h.signals, h.announced, h.untouched⟩

end Isolated

/-! ## One completion -/

theorem resume_isolated_iff (htask : task.call? = some c) (h : s.resume k now task = some t) :
    Isolated c s t ↔ s.FitsResume task := by
  cases task with
  | announcing group call =>
    cases htask
    simp only [resume] at h
    split at h
    · cases h
      exact iff_of_true .setTask trivial
    next hcall =>
      cases h
      exact iff_of_true
        (.of_current (not_not.1 hcall) ⟨[], (List.append_nil _).symm, by simp⟩ rfl) trivial
  | admitting group call =>
    cases h
    exact iff_of_true ⟨Isolated.refl.signals, Isolated.refl.announced, Isolated.refl.untouched⟩
      trivial
  | leaving call | concluding call =>
    cases h
    exact iff_of_true .setTask trivial
  | closing group call connectedAt conclusion =>
    cases htask
    cases conclusion with
    | none =>
      cases h
      exact iff_of_true .setTask trivial
    | some event =>
      cases h
      refine iff_of_true ⟨⟨[], (List.append_nil _).symm, by simp⟩, ⟨[_], rfl, ?_⟩, ?_⟩ trivial
      · intro x hx
        rw [List.mem_singleton.1 hx]
      · exact fun _ => ⟨rfl, rfl, rfl, rfl, rfl, rfl⟩
  | muting call muted =>
    cases htask
    cases h
    constructor
    · intro h
      obtain ⟨new, hnew, hall⟩ := h.signals
      obtain rfl := List.append_cancel_left hnew
      exact (hall _ (List.mem_singleton_self _)).symm
    · rintro rfl
      exact .of_current rfl ⟨[_], rfl, by simp⟩ rfl
  | joining | finished => cases h

theorem enterRoom_isolated (htask : task.call? = some c)
    (h : s.enterRoom k peers now task = some t) : Isolated c s t := by
  cases task with
  | joining call =>
    cases htask
    simp only [enterRoom] at h
    split at h
    · cases h
      exact .setTask
    next hcall =>
      have hc := not_not.1 hcall
      cases h
      let joined : Calls := { s.setTask k .finished with
        room := some k
        unleft := s.unleft ++ [k]
        heard := now }
      have hobserved : Isolated c joined (joined.observed c peers now) := .observed
      exact ⟨hobserved.signals, hobserved.announced, fun hne => absurd hc hne⟩
  | announcing | admitting | leaving | closing | concluding | muting | finished => cases h

theorem failTask_isolated_iff (htask : task.call? = some c) (h : s.failTask k task = some t) :
    Isolated c s t ↔ s.FitsFailure task := by
  cases task with
  | admitting | joining | leaving =>
    cases htask
    cases h
    refine Iff.trans ⟨fun h => ⟨h.signals, h.announced, h.untouched⟩, .of_setTask⟩
      (Isolated.hang_iff (s := s.setTask k .finished))
  | announcing | closing | concluding | muting =>
    cases h
    exact iff_of_true .setTask trivial
  | finished => cases h

/-- A completion leaves the other calls alone exactly when it acts on the call it belongs to. -/
theorem completion_isolated_iff (hc : s.completes a = some c) (h : step s a = some t) :
    Isolated c s t ↔ s.FitsCurrent a := by
  cases a with
  | resolve k now =>
    obtain ⟨task, htask, h⟩ := Option.bind_eq_some_iff.1 h
    simp only [completes, htask, Option.bind_some] at hc
    simp only [FitsCurrent, htask, Option.mem_some_iff, forall_eq']
    exact resume_isolated_iff hc h
  | joined k peers now =>
    obtain ⟨task, htask, h⟩ := Option.bind_eq_some_iff.1 h
    simp only [completes, htask, Option.bind_some] at hc
    exact iff_of_true (enterRoom_isolated hc h) trivial
  | reject k =>
    obtain ⟨task, htask, h⟩ := Option.bind_eq_some_iff.1 h
    simp only [completes, htask, Option.bind_some] at hc
    simp only [FitsCurrent, htask, Option.mem_some_iff, forall_eq']
    exact failTask_isolated_iff hc h
  | onPeers call peers now =>
    cases hc
    obtain ⟨_, h⟩ := Option.ite_none_right_eq_some.1 h
    cases h
    exact iff_of_true .observed trivial
  | onClosed call =>
    cases hc
    obtain ⟨_, h⟩ := Option.ite_none_right_eq_some.1 h
    cases h
    exact Isolated.hang_iff
  | place | receive | accept | hang | mute | absorb | tick => cases hc

/-! ## A run -/

/-- The action completes a step of some call and acts on another. -/
def Interferes (s : Calls) (a : Action) : Prop :=
  ∃ c t, s.completes a = some c ∧ step s a = some t ∧ ¬ Isolated c s t

/-- The action completes a step of a call that is not the one it acts on. -/
def Misdirected (s : Calls) (a : Action) : Prop :=
  (s.completes a).isSome ∧ (step s a).isSome ∧ ¬ s.FitsCurrent a

theorem interferes_iff : s.Interferes a ↔ s.Misdirected a := by
  constructor
  · rintro ⟨c, t, hc, h, hnot⟩
    refine ⟨by rw [hc]; rfl, by rw [h]; rfl, fun hfits => ?_⟩
    exact hnot ((completion_isolated_iff hc h).2 hfits)
  · rintro ⟨hc, h, hnot⟩
    obtain ⟨c, hc⟩ := Option.isSome_iff_exists.1 hc
    obtain ⟨t, h⟩ := Option.isSome_iff_exists.1 h
    exact ⟨c, t, hc, h, fun hisolated => hnot ((completion_isolated_iff hc h).1 hisolated)⟩

theorem passes_congr {P Q : Calls → Action → Prop} (h : ∀ s a, P s a ↔ Q s a) :
    Passes step P s actions ↔ Passes step Q s actions := by
  constructor
  · rintro ⟨before, a, after, t, hactions, hrun, hP⟩
    exact ⟨before, a, after, t, hactions, hrun, (h t a).1 hP⟩
  · rintro ⟨before, a, after, t, hactions, hrun, hQ⟩
    exact ⟨before, a, after, t, hactions, hrun, (h t a).2 hQ⟩

/-- Through a run, no completion reaches another call than its own exactly when every `mute`, every
failure and every closed room comes while its own call is current (or none is, for the last two). -/
theorem isolated_iff (actions : List Action) :
    ¬ Passes step Interferes start actions ↔ ¬ Passes step Misdirected start actions :=
  not_congr (passes_congr fun _ _ => interferes_iff)

/-- A call between two, muted at the moment it is hung up, and a second one placed at once. -/
def muteAcrossCalls : List Action :=
  [.place "c1" "g" "alice" 1 1000, .resolve 0 1001, .resolve 0 1002, .joined 0 ["bob"] 1003,
    .mute true, .hang, .place "c2" "g'" "alice" 1 2000]

/-- The room of the first call carries the `mute` out, and the second call is shown and signalled
as muted. -/
theorem mute_reaches_next_call :
    Passes step Interferes start (muteAcrossCalls ++ [.resolve 1 2001]) := by
  have misdirected : (run step start muteAcrossCalls).map (fun s =>
      ((s.completes (.resolve 1 2001)).isSome, (step s (.resolve 1 2001)).isSome,
        decide (s.FitsCurrent (.resolve 1 2001)))) = some (true, true, false) := by decide +kernel
  obtain ⟨s, hrun, h⟩ := Option.map_eq_some_iff.1 misdirected
  obtain ⟨hcompletes, h⟩ := Prod.mk.inj h
  obtain ⟨hstep, hfits⟩ := Prod.mk.inj h
  exact ⟨_, _, [], s, rfl, hrun, interferes_iff.2 ⟨hcompletes, hstep, of_decide_eq_false hfits⟩⟩

end Whispee.Calls
