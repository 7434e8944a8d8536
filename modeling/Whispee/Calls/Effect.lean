import Whispee.Calls.Calls
import Whispee.Lib.Tasks

/-!
# What a step does to the call

A step of a device leaves the call it is in (`Quiet`), begins one, has it connected, ends it
(`Ended`), or announces what was decided when it ended. What `hang` decides stays with the task
that waits for the room (`Pending`), and is announced when this task goes on.
-/

namespace Whispee.Calls

open Tasks

variable {s t : Calls} {k : Nat}

/-- Task `k` will announce this conclusion of the call. -/
def Pending (s : Calls) (k : Nat) (call : String) (event : CallEvent) : Prop :=
  ∃ group connectedAt, s.tasks[k]? = some (.closing group call connectedAt (some event))

/-- The tasks are for calls that there were tasks for, or for the current one. -/
def TasksKnown (s t : Calls) : Prop :=
  ∀ task ∈ t.tasks, ∀ c, task.call? = some c →
    (∃ task' ∈ s.tasks, task'.call? = some c) ∨ c = s.state.call ∧ s.state.phase ≠ .idle

/-- The call is what it was, and there is nothing new to announce. -/
structure Quiet (s t : Calls) : Prop where
  call : t.state.call = s.state.call
  connectedAt : t.state.connectedAt = s.state.connectedAt
  idle : t.state.phase = .idle ↔ s.state.phase = .idle
  placed : t.placed = s.placed
  announced : t.announced = s.announced
  pending : ∀ {k c event}, t.Pending k c event → s.Pending k c event
  tasks : TasksKnown s t

/-- The call is over, with these participants in sight, and at most this conclusion of it is to be
announced. -/
structure Ended (s : Calls) (peers : List String) (t : Calls) : Prop where
  active : s.state.phase ≠ .idle
  state : t.state = IDLE
  placed : t.placed = false
  announced : t.announced = s.announced
  pending : ∀ {k c event}, t.Pending k c event → s.Pending k c event ∨
    k = s.tasks.length ∧ c = s.state.call ∧
      (event = .ended ∧ s.state.connectedAt ≠ 0 ∧ peers = [] ∨
        event = .missed ∧ s.state.connectedAt = 0 ∧ s.placed ∧
          (s.state.phase = .dialling ∨ s.state.phase = .ringing))
  tasks : TasksKnown s t

/-- The same call with the same history, up to the participants in sight. -/
structure Like (s : Calls) (peers : List String) (t : Calls) : Prop where
  state : t.state = { s.state with peers }
  placed : t.placed = s.placed
  announced : t.announced = s.announced
  length : t.tasks.length = s.tasks.length
  pending : ∀ {k c event}, t.Pending k c event → s.Pending k c event
  tasks : TasksKnown s t

theorem TasksKnown.refl : TasksKnown s s := fun task htask _ hc => .inl ⟨task, htask, hc⟩

theorem TasksKnown.of_set (new : Task) (htask : s.tasks[k]? = some task)
    (hnew : ∀ c, new.call? = some c → task.call? = some c) (h : t.tasks = s.tasks.set k new) :
    TasksKnown s t := by
  intro task' htask' c hc
  rw [h] at htask'
  rcases List.mem_or_eq_of_mem_set htask' with hold | rfl
  · exact .inl ⟨task', hold, hc⟩
  · exact .inl ⟨task, List.mem_of_getElem? htask, hnew c hc⟩

theorem TasksKnown.of_concat (hphase : s.state.phase ≠ .idle)
    (hnew : ∀ c, new.call? = some c → c = s.state.call) (h : t.tasks = s.tasks ++ [new]) :
    TasksKnown s t := by
  intro task' htask' c hc
  rw [h] at htask'
  rcases List.mem_append.1 htask' with hold | hlast
  · exact .inl ⟨task', hold, hc⟩
  · obtain rfl := List.mem_singleton.1 hlast
    exact .inr ⟨hnew c hc, hphase⟩

/-- Only what is to be announced counts. -/
theorem pending_of_set {new : Task} (htask : s.tasks[j]? = some task)
    (hnew : ∀ group c connectedAt event, new ≠ .closing group c connectedAt (some event))
    (h : t.tasks = s.tasks.set j new) (hpending : t.Pending k c event) : s.Pending k c event := by
  obtain ⟨group, connectedAt, hk⟩ := hpending
  rw [h, getElem?_set_eq_some_iff htask] at hk
  rcases hk with ⟨_, heq⟩ | ⟨_, hk⟩
  · exact (hnew _ _ _ _ heq.symm).elim
  · exact ⟨group, connectedAt, hk⟩

theorem pending_of_concat {new : Task}
    (hnew : ∀ group c connectedAt event, new ≠ .closing group c connectedAt (some event))
    (h : t.tasks = s.tasks ++ [new]) (hpending : t.Pending k c event) : s.Pending k c event := by
  obtain ⟨group, connectedAt, hk⟩ := hpending
  rw [h, getElem?_concat_eq_some_iff] at hk
  rcases hk with hk | ⟨_, heq⟩
  · exact ⟨group, connectedAt, hk⟩
  · exact (hnew _ _ _ _ heq.symm).elim

namespace Like

theorem quiet (h : Like s peers t) : Quiet s t where
  call := by rw [h.state]
  connectedAt := by rw [h.state]
  idle := by rw [h.state]
  placed := h.placed
  announced := h.announced
  pending := h.pending
  tasks := h.tasks

/-- What the tasks have no part in. -/
theorem of_tasks_eq (hstate : t.state = { s.state with peers }) (hplaced : t.placed = s.placed)
    (hannounced : t.announced = s.announced) (htasks : t.tasks = s.tasks) : Like s peers t where
  state := hstate
  placed := hplaced
  announced := hannounced
  length := by rw [htasks]
  pending := by
    rintro k c event ⟨group, connectedAt, hk⟩
    exact ⟨group, connectedAt, htasks ▸ hk⟩
  tasks := by
    intro task htask c hc
    exact .inl ⟨task, htasks ▸ htask, hc⟩

/-- A task that is over, or goes on for the same call. -/
theorem of_set (new : Task) (htask : s.tasks[k]? = some task)
    (hcall : ∀ c, new.call? = some c → task.call? = some c)
    (hnew : ∀ group c connectedAt event, new ≠ .closing group c connectedAt (some event))
    (hstate : t.state = { s.state with peers }) (hplaced : t.placed = s.placed)
    (hannounced : t.announced = s.announced) (htasks : t.tasks = s.tasks.set k new) :
    Like s peers t where
  state := hstate
  placed := hplaced
  announced := hannounced
  length := by rw [htasks, List.length_set]
  pending := pending_of_set htask hnew htasks
  tasks := .of_set new htask hcall htasks

theorem finished (htask : s.tasks[k]? = some task) : Like s s.state.peers (s.setTask k .finished) :=
  of_set .finished htask (fun c h => by cases h) (fun _ _ _ _ h => by cases h) rfl rfl rfl rfl

/-- `hang` ends the call, and decides its conclusion. -/
theorem hang (h : Like s peers t) (hactive : s.state.phase ≠ .idle) : Ended s peers t.hang := by
  have hphase : t.state.phase ≠ .idle := by
    rw [h.state]
    exact hactive
  unfold Calls.hang
  rw [if_neg hphase]
  refine ⟨hactive, rfl, rfl, h.announced, ?_, ?_⟩
  · rintro k c event ⟨group, connectedAt, hk⟩
    rcases getElem?_concat_eq_some_iff.1 hk with hold | ⟨hlast, heq⟩
    · exact .inl (h.pending ⟨group, connectedAt, hold⟩)
    · refine .inr ⟨hlast.trans h.length, ?_⟩
      injection heq with _ hcall _ hconclusion
      have hsame : t.state.call = s.state.call := by rw [h.state]
      refine ⟨hcall.trans hsame, ?_⟩
      unfold conclusion at hconclusion
      rw [h.state, h.placed] at hconclusion
      dsimp only at hconclusion
      split at hconclusion
      next hconnected =>
        split at hconclusion
        · cases hconclusion
        next hempty =>
          cases hconclusion
          exact .inl ⟨rfl, hconnected, List.length_eq_zero_iff.1 (Nat.eq_zero_of_not_pos hempty)⟩
      next hunconnected =>
        split at hconclusion
        next hplaced =>
          cases hconclusion
          exact .inr ⟨rfl, not_not.1 hunconnected, hplaced⟩
        · cases hconclusion
  · intro task htask c hc
    rcases List.mem_append.1 htask with hold | hlast
    · exact h.tasks task hold c hc
    · obtain rfl := List.mem_singleton.1 hlast
      have hsame : t.state.call = s.state.call := by rw [h.state]
      cases hc
      exact .inr ⟨hsame, hactive⟩

/-- `hang`, whether or not there is a call. -/
theorem hang_or_quiet (h : Like s s.state.peers t) :
    Quiet s t.hang ∨ Ended s s.state.peers t.hang := by
  by_cases hphase : s.state.phase = .idle
  · left
    unfold Calls.hang
    rw [if_pos (by rw [h.state]; exact hphase)]
    exact h.quiet
  · exact .inr (h.hang hphase)

end Like

/-! ## What the user, the channel and the tasks do -/

/-- A step that does not come from a room. -/
inductive Effect (s t : Calls) : Prop where
  | quiet : Quiet s t → Effect s t
  | ended : Ended s s.state.peers t → Effect s t
  | announces (k : Nat) (group c : String) (event : CallEvent) (seconds : Int) :
    s.Pending k c event → t.state = s.state → t.placed = s.placed →
    t.announced = s.announced ++ [⟨group, event, c, seconds⟩] →
    t.tasks = s.tasks.set k (.concluding c) → Effect s t

theorem Effect.of_or (h : Quiet s t ∨ Ended s s.state.peers t) : Effect s t := h.elim .quiet .ended

theorem Like.refl : Like s s.state.peers s := .of_tasks_eq rfl rfl rfl rfl

theorem hang_effect : Effect s s.hang := .of_or Like.refl.hang_or_quiet

theorem accept_effect : Effect s s.accept := by
  unfold accept
  split
  · exact .quiet Like.refl.quiet
  next hphase =>
    have hactive : s.state.phase ≠ .idle := by
      rw [not_not.1 hphase]
      decide
    refine .quiet ⟨rfl, rfl, .rfl, rfl, rfl, ?_, ?_⟩
    · exact pending_of_concat (fun _ _ _ _ h => by cases h) rfl
    · refine .of_concat hactive (fun c hc => ?_) rfl
      cases hc
      rfl

theorem mute_effect : Effect s (s.mute muted) := by
  unfold mute
  split
  · exact .quiet Like.refl.quiet
  next hphase =>
    have hactive : s.state.phase ≠ .idle := by
      rw [not_not.1 hphase]
      decide
    refine .quiet ⟨rfl, rfl, .rfl, rfl, rfl, ?_, ?_⟩
    · exact pending_of_concat (fun _ _ _ _ h => by cases h) rfl
    · refine .of_concat hactive (fun c hc => ?_) rfl
      cases hc
      rfl

theorem absorb_effect : Effect s (s.absorb event call device ours account now) := by
  have heard : Like s s.state.peers { s with heard := now } := .of_tasks_eq rfl rfl rfl rfl
  have declined : Like s s.state.peers
      { s with heard := now, declined := s.declined.insert account } :=
    .of_tasks_eq rfl rfl rfl rfl
  unfold absorb
  split
  · exact .quiet Like.refl.quiet
  · cases event with
    | declined | left =>
      dsimp only
      split
      · exact .quiet heard.quiet
      · split
        · split
          · exact .of_or heard.hang_or_quiet
          · exact .quiet heard.quiet
        · split
          · exact .of_or declined.hang_or_quiet
          · exact .quiet declined.quiet
    | accepted | ringing | alive | muted | unmuted => exact .quiet heard.quiet

theorem tick_effect : Effect s (s.tick now) := by
  unfold tick
  split
  · exact .quiet Like.refl.quiet
  · split
    · exact .quiet (Like.quiet (.of_tasks_eq rfl rfl rfl rfl))
    · split
      · exact hang_effect
      · exact .quiet (Like.quiet (.of_tasks_eq rfl rfl rfl rfl))

theorem resume_effect (htask : s.tasks[k]? = some task) (h : s.resume k now task = some t)
    (hidle : s.state.phase = .idle → ∀ group, task ≠ .announcing group s.state.call) :
    Effect s t := by
  cases task with
  | announcing group call =>
    simp only [resume] at h
    split at h
    · cases h
      exact .quiet (Like.finished htask).quiet
    next hcall =>
      cases h
      obtain rfl := not_not.1 hcall
      have hactive : s.state.phase ≠ .idle := fun hphase => hidle hphase group rfl
      refine .quiet ⟨rfl, rfl, iff_of_false (fun h => by cases h) hactive, rfl, rfl, ?_, ?_⟩
      · exact pending_of_set htask (fun _ _ _ _ h => by cases h) rfl
      · exact .of_set (.admitting group s.state.call) htask (fun c hc => hc) rfl
  | admitting group call =>
    cases h
    exact .quiet (Like.quiet
      (.of_set (.joining call) htask (fun c hc => hc) (fun _ _ _ _ h => by cases h) rfl rfl rfl
        rfl))
  | leaving call | concluding call =>
    cases h
    exact .quiet (Like.finished htask).quiet
  | closing group call connectedAt conclusion =>
    cases conclusion with
    | none =>
      cases h
      exact .quiet (Like.finished htask).quiet
    | some event =>
      cases h
      exact .announces k group call event _ ⟨group, connectedAt, htask⟩ rfl rfl rfl rfl
  | muting call muted =>
    cases h
    refine .quiet ⟨rfl, rfl, .rfl, rfl, rfl, ?_, ?_⟩
    · exact pending_of_set htask (fun _ _ _ _ h => by cases h) rfl
    · exact .of_set .finished htask (fun c hc => by cases hc) rfl
  | joining | finished => cases h

theorem failTask_effect (htask : s.tasks[k]? = some task) (h : s.failTask k task = some t) :
    Effect s t := by
  cases task with
  | admitting | joining | leaving =>
    cases h
    exact .of_or (Like.finished htask).hang_or_quiet
  | announcing | closing | concluding | muting =>
    cases h
    exact .quiet (Like.finished htask).quiet
  | finished => cases h

/-! ## What a room does -/

/-- A device is told who is in the room of a call. -/
inductive Told (s : Calls) (call : String) (peers : List String) (t : Calls) : Prop where
  | quiet : Quiet s t → Told s call peers t
  | connects : s.state.call = call → t.state.call = call → t.state.phase ≠ .idle → peers ≠ [] →
    t.placed = s.placed → t.announced = s.announced → t.tasks.length = s.tasks.length →
    (∀ {k c event}, t.Pending k c event → s.Pending k c event) → TasksKnown s t →
    Told s call peers t
  | ended : s.state.call = call → peers = [] → Ended s peers t → Told s call peers t

theorem Like.observed {r : Calls} (h : Like s s.state.peers r) :
    Told s call peers (r.observed call peers now) := by
  unfold Calls.observed
  split
  · exact .quiet h.quiet
  next hcall =>
    have hcall : s.state.call = call := by
      rw [← not_not.1 hcall, h.state]
    dsimp only
    split
    next hpeers =>
      refine .connects hcall ?_ (fun h => by cases h) (List.ne_nil_of_length_pos hpeers.1) h.placed
        h.announced h.length h.pending h.tasks
      show r.state.call = call
      rw [h.state]
      exact hcall
    · have hlike : Like s peers { r with heard := now, state := { r.state with peers } } :=
        ⟨by rw [h.state], h.placed, h.announced, h.length, h.pending, h.tasks⟩
      split
      next hempty =>
        have hactive : s.state.phase ≠ .idle := by
          have hconnected := hempty.2
          rw [h.state] at hconnected
          rw [show s.state.phase = .connected from hconnected]
          decide
        exact .ended hcall (List.length_eq_zero_iff.1 hempty.1) (hlike.hang hactive)
      · exact .quiet hlike.quiet

theorem observed_told : Told s call peers (s.observed call peers now) := Like.refl.observed

theorem enterRoom_told (htask : s.tasks[k]? = some (.joining call))
    (h : s.enterRoom k peers now (.joining call) = some t) : Told s call peers t := by
  simp only [enterRoom] at h
  split at h
  · cases h
    exact .quiet (Like.quiet
      (.of_set (.leaving call) htask (fun c hc => hc) (fun _ _ _ _ h => by cases h) rfl rfl rfl
        rfl))
  · cases h
    have hentered : Like s s.state.peers { s.setTask k .finished with
        room := some k
        unleft := s.unleft ++ [k]
        heard := now } :=
      .of_set .finished htask (fun c h => by cases h) (fun _ _ _ _ h => by cases h) rfl rfl rfl rfl
    exact hentered.observed

/-! ## What begins a call -/

theorem place_effect (call group fromAccount : String) (awaited now : Nat)
    (hphase : s.state.phase = .idle) :
    (s.place call group fromAccount awaited now).state.phase = .dialling ∧
      (s.place call group fromAccount awaited now).state.call = call ∧
      (s.place call group fromAccount awaited now).state.connectedAt = 0 ∧
      (s.place call group fromAccount awaited now).placed = true ∧
      (s.place call group fromAccount awaited now).announced =
        s.announced ++ [⟨group, .invite, call, 0⟩] ∧
      (s.place call group fromAccount awaited now).tasks =
        s.tasks ++ [.announcing group call] := by
  unfold place
  rw [if_neg (by simp [busy, hphase])]
  exact ⟨rfl, rfl, rfl, rfl, rfl, rfl⟩

theorem receive_effect (call group fromAccount : String) (now : Nat)
    (hphase : s.state.phase = .idle) :
    (s.receive group call fromAccount now).state.phase = .incoming ∧
      (s.receive group call fromAccount now).state.call = call ∧
      (s.receive group call fromAccount now).state.connectedAt = 0 ∧
      (s.receive group call fromAccount now).placed = false ∧
      (s.receive group call fromAccount now).announced = s.announced ∧
      (s.receive group call fromAccount now).tasks = s.tasks := by
  unfold receive
  rw [if_neg (by simp [busy, hphase])]
  exact ⟨rfl, rfl, rfl, rfl, rfl, rfl⟩

/-- A device that is in a call begins no other. -/
theorem receive_busy (hphase : s.state.phase ≠ .idle) :
    Quiet s (s.receive group call fromAccount now) := by
  unfold receive
  rw [if_pos (by simp [busy, hphase])]
  exact Like.quiet (.of_tasks_eq rfl rfl rfl rfl)

end Whispee.Calls
