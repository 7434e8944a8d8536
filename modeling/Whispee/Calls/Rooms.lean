import Whispee.Calls.Calls
import Whispee.Lib.Transition

/-!
# Rooms

A room is held in `room` from the moment its join has resolved during its call, and asked to leave
when the call ends. `accept` may be called again while the first join is on its way, and the second
room then takes the place of the first, which nobody will leave (`accepted_twice_keeps_a_room`). As
long as no room that is asked for comes on top of another, or for no call, the rooms not asked to
leave are the one that is held, and an idle device holds none (`no_room_left_behind`).
-/

namespace Whispee.Calls

open Transition

variable {s t : Calls}

/-- The rooms not asked to leave are the one held, and no call means no room. -/
structure RoomInv (s : Calls) : Prop where
  unleft : s.unleft = s.room.toList
  idle : s.state.phase = .idle → s.room = none

/-- A room that comes for the current call finds a call, and no room. -/
def comesAlone (s : Calls) : Action → Bool
  | .joined k _ _ =>
    s.tasks[k]? ≠ some (.joining s.state.call) ∨ s.state.phase ≠ .idle ∧ s.room = none
  | _ => true

namespace RoomInv

/-- A step that leaves the room, and a call where there was one. -/
theorem of_eq (h : RoomInv s) (hunleft : t.unleft = s.unleft) (hroom : t.room = s.room)
    (hphase : t.state.phase = .idle → s.state.phase = .idle) : RoomInv t where
  unleft := by rw [hunleft, hroom, h.unleft]
  idle hidle := hroom.trans (h.idle (hphase hidle))

theorem close (h : RoomInv s) : RoomInv s.close where
  unleft := by
    show s.unleft.filter _ = []
    rw [h.unleft]
    cases s.room <;> simp
  idle _ := rfl

theorem hang (h : RoomInv s) : RoomInv s.hang := by
  unfold Calls.hang
  split
  · exact h
  · exact h.close.of_eq rfl rfl id

theorem observed (h : RoomInv s) : RoomInv (s.observed call peers now) := by
  unfold Calls.observed
  split
  · exact h
  · dsimp only
    split
    · exact h.of_eq rfl rfl fun hphase => by cases hphase
    · have hpeers : RoomInv { s with heard := now, state := { s.state with peers } } :=
        h.of_eq rfl rfl id
      split
      · exact hpeers.hang
      · exact hpeers

theorem setTask {task : Task} (h : RoomInv s) : RoomInv (s.setTask k task) := h.of_eq rfl rfl id

theorem place {awaited : Nat} (h : RoomInv s) :
    RoomInv (s.place call group fromAccount awaited now) := by
  unfold Calls.place
  split
  · exact h
  · exact h.of_eq rfl rfl fun hphase => by cases hphase

theorem receive (h : RoomInv s) : RoomInv (s.receive group call fromAccount now) := by
  unfold Calls.receive
  split
  · exact h.of_eq rfl rfl id
  · exact h.of_eq rfl rfl fun hphase => by cases hphase

theorem absorb (h : RoomInv s) : RoomInv (s.absorb event call device ours account now) := by
  have heard : RoomInv { s with heard := now } := h.of_eq rfl rfl id
  have declined : RoomInv { s with heard := now, declined := s.declined.insert account } :=
    h.of_eq rfl rfl id
  unfold Calls.absorb
  split
  · exact h
  · cases event with
    | declined | left =>
      dsimp only
      split
      · exact heard
      · split
        · split
          · exact heard.hang
          · exact heard
        · split
          · exact declined.hang
          · exact declined
    | accepted | ringing | alive | muted | unmuted => exact heard

theorem tick (h : RoomInv s) : RoomInv (s.tick now) := by
  unfold Calls.tick
  split
  · exact h
  · split
    · exact h.of_eq rfl rfl id
    · split
      · exact h.hang
      · exact h.of_eq rfl rfl id

theorem resume (h : RoomInv s) (hresume : s.resume k now task = some t) : RoomInv t := by
  cases task with
  | announcing group call =>
    simp only [Calls.resume] at hresume
    split at hresume
    · cases hresume
      exact h.setTask
    · cases hresume
      exact h.of_eq rfl rfl fun hphase => by cases hphase
  | closing group call connectedAt conclusion =>
    cases conclusion with
    | none =>
      cases hresume
      exact h.setTask
    | some event =>
      cases hresume
      exact h.of_eq rfl rfl id
  | admitting | leaving | concluding | muting =>
    cases hresume
    exact h.of_eq rfl rfl id
  | joining | finished => cases hresume

/-- A room comes: it is left at once, or it comes alone. -/
theorem enterRoom (h : RoomInv s) (htask : s.tasks[k]? = some task)
    (halone : s.comesAlone (.joined k peers now)) (henter : s.enterRoom k peers now task = some t) :
    RoomInv t := by
  cases task with
  | joining call =>
    simp only [Calls.enterRoom] at henter
    split at henter
    · cases henter
      exact h.setTask
    next hcall =>
      cases henter
      obtain rfl := not_not.1 hcall
      obtain hne | ⟨hphase, hroom⟩ := of_decide_eq_true halone
      · exact absurd htask hne
      · have hentered : RoomInv { s.setTask k .finished with
            room := some k
            unleft := s.unleft ++ [k]
            heard := now } := by
          refine ⟨?_, fun hidle => absurd hidle hphase⟩
          show s.unleft ++ [k] = [k]
          rw [h.unleft, hroom]
          rfl
        exact hentered.observed
  | announcing | admitting | leaving | closing | concluding | muting | finished => cases henter

theorem failTask (h : RoomInv s) (hfail : s.failTask k task = some t) : RoomInv t := by
  cases task with
  | admitting | joining | leaving =>
    cases hfail
    exact h.setTask.hang
  | announcing | closing | concluding | muting =>
    cases hfail
    exact h.setTask
  | finished => cases hfail

theorem step (h : RoomInv s) (halone : s.comesAlone a) (hstep : s.step a = some t) :
    RoomInv t := by
  cases a with
  | place =>
    cases hstep
    exact h.place
  | receive =>
    cases hstep
    exact h.receive
  | accept =>
    cases hstep
    unfold accept
    split
    · exact h
    · exact h.of_eq rfl rfl id
  | hang =>
    cases hstep
    exact h.hang
  | mute muted =>
    cases hstep
    unfold mute
    split
    · exact h
    · exact h.of_eq rfl rfl id
  | absorb =>
    cases hstep
    exact h.absorb
  | tick =>
    cases hstep
    exact h.tick
  | resolve k now =>
    obtain ⟨task, _, hresume⟩ := Option.bind_eq_some_iff.1 hstep
    exact h.resume hresume
  | joined k peers now =>
    obtain ⟨task, htask, henter⟩ := Option.bind_eq_some_iff.1 hstep
    exact h.enterRoom htask halone henter
  | reject k =>
    obtain ⟨task, _, hfail⟩ := Option.bind_eq_some_iff.1 hstep
    exact h.failTask hfail
  | onPeers call peers now =>
    obtain ⟨_, hstep⟩ := Option.ite_none_right_eq_some.1 hstep
    cases hstep
    exact h.observed
  | onClosed call =>
    obtain ⟨_, hstep⟩ := Option.ite_none_right_eq_some.1 hstep
    cases hstep
    exact h.hang

end RoomInv

/-- No media room is asked for at the moment. -/
def NoJoinInFlight (s : Calls) : Prop := ∀ call, .joining call ∉ s.tasks

/-- In a run whose rooms come alone, at most one room has not been asked to leave, and none when
the state is idle, whether or not joins are on their way. -/
theorem no_room_left_behind (h : Reach step (fun s a => s.comesAlone a) start s) :
    s.unleft.length ≤ 1 ∧ (s.state.phase = .idle → s.unleft = [] ∧ s.room = none) := by
  have inv : RoomInv s := h.invariant ⟨rfl, fun _ => rfl⟩ fun h halone hstep => h.step halone hstep
  rw [inv.unleft]
  refine ⟨?_, fun hidle => ⟨?_, inv.idle hidle⟩⟩
  · cases s.room <;> simp
  · rw [inv.idle hidle]
    rfl

/-- A call received, accepted and held, and one placed after it. -/
def twoCalls : List Action :=
  [.receive "g" "c1" "alice" 1000, .accept, .resolve 0 1001, .joined 0 ["alice"] 1002,
    .onPeers "c1" [] 2000, .resolve 1 2001, .place "c2" "g" "bob" 1 3000, .resolve 2 3001,
    .hang, .resolve 2 3002, .joined 2 [] 3003]

theorem no_room_left_behind_twoCalls :
    ∃ s, Reach step (fun s a => s.comesAlone a) start s ∧ s.tasks.length = 4 ∧
      s.unleft.length ≤ 1 ∧ (s.state.phase = .idle → s.unleft = [] ∧ s.room = none) := by
  have evaluated : (run (fun s a => if s.comesAlone a then step s a else none) start
      twoCalls).map (fun s => s.tasks.length) = some 4 := by decide +kernel
  obtain ⟨s, hrun, hlength⟩ := Option.map_eq_some_iff.1 evaluated
  have reach := reach_of_run_guarded hrun
  exact ⟨s, reach, hlength, no_room_left_behind reach⟩

/-- A ringing call accepted twice, each time with a room, and hung up. -/
def acceptTwice : List Action :=
  [.receive "g" "c1" "alice" 1000, .accept, .accept, .resolve 0 1001, .resolve 1 1001,
    .joined 0 [] 1002, .joined 1 [] 1003, .hang, .resolve 2 1004]

/-- The call is over, no join is on its way, and the first room has never been asked to leave. -/
theorem accepted_twice_keeps_a_room :
    ∃ s, run step start acceptTwice = some s ∧ s.state = IDLE ∧ s.NoJoinInFlight ∧
      s.unleft = [0] := by
  have evaluated : (run step start acceptTwice).map (fun s => ((s.state, s.tasks), s.unleft)) =
      some ((IDLE, [.finished, .finished, .finished]), [0]) := by decide +kernel
  obtain ⟨s, hrun, h⟩ := Option.map_eq_some_iff.1 evaluated
  obtain ⟨h, hunleft⟩ := Prod.mk.inj h
  obtain ⟨hstate, htasks⟩ := Prod.mk.inj h
  refine ⟨s, hrun, hstate, fun call hmem => ?_, hunleft⟩
  rw [htasks] at hmem
  simp at hmem

end Whispee.Calls
