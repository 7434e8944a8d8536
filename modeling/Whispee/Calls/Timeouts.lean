import Whispee.Calls.Calls
import Whispee.Lib.Transition

/-!
# When a tick gives up

The timeouts of `tick` against what they stand for: how long ago the phase of the call began, and
when it last gave a sign of life. `Timed` keeps both beside the device, by what happens and not by
the fields the device writes.
-/

namespace Whispee.Calls

open Transition

/-- When an action happens, where it reads the clock. -/
def Action.now? : Action → Option Nat
  | .place _ _ _ _ now | .receive _ _ _ now | .absorb _ _ _ _ _ now | .tick now | .resolve _ now
  | .joined _ _ now | .onPeers _ _ now => some now
  | .accept | .hang | .mute _ | .reject _ | .onClosed _ => none

/-- A call begins at this moment. -/
def begins (s : Calls) : Action → Option Nat
  | .place _ _ _ _ now | .receive _ _ _ now => if s.busy then none else some now
  | _ => none

/-- The far side or the media layer reports about the call at this moment. -/
def reports (s : Calls) : Action → Option Nat
  | .absorb _ call device ours _ now =>
    if call = s.state.call ∧ device ≠ ours then some now else none
  | .joined k _ now => if s.tasks[k]? = some (.joining s.state.call) then some now else none
  | .onPeers call _ now => if call = s.state.call then some now else none
  | _ => none

structure Timed where
  calls : Calls
  /-- When the call began. -/
  began : Nat
  /-- When its phase did. -/
  phaseBegan : Nat
  /-- The last report about it. -/
  report : Option Nat

namespace Timed

def start : Timed := ⟨.start, 0, 0, none⟩

/-- The last frame or media report about the call, or its start where there is none later. -/
def lastSign (w : Timed) : Nat := w.report.getD w.began

/-- Another phase of the call, or another call. -/
def Changed (s t : CallState) : Prop := t.phase ≠ s.phase ∨ t.call ≠ s.call

instance (s t : CallState) : Decidable (Changed s t) := inferInstanceAs (Decidable (_ ∨ _))

/-- What is kept beside the device, once it is `t`. -/
def next (w : Timed) (a : Action) (t : Calls) : Timed where
  calls := t
  began := (w.calls.begins a).getD w.began
  phaseBegan := if Changed w.calls.state t.state then a.now?.getD w.phaseBegan else w.phaseBegan
  report := if (w.calls.begins a).isSome then none else (w.calls.reports a).or w.report

def step (w : Timed) (a : Action) : Option Timed := (w.calls.step a).map (w.next a)

/-- The clock is not set back while the invitation of the call is sent. -/
def Forward (w : Timed) : Action → Prop
  | .resolve k now => ∀ group, w.calls.tasks[k]? = some (.announcing group w.calls.state.call) →
    w.phaseBegan ≤ now ∧ w.lastSign ≤ now
  | _ => True

/-! ## What a step does to the times -/

/-- The call is in none of the phases that time out. -/
def Calm (s : CallState) : Prop := s.phase = .idle ∨ s.phase = .connected

/-- What a step of the device does to the call and to its times. -/
inductive Moves (s : Calls) (a : Action) (t : Calls) : Prop where
  | calm (h : Calm t.state) : Moves s a t
  | still (hstate : ¬Changed s.state t.state) (hsince : t.state.since = s.state.since)
    (hheard : t.heard = s.heard) (hbegins : s.begins a = none) (hreports : s.reports a = none) :
    Moves s a t
  | hears (now : Nat) (hstate : ¬Changed s.state t.state) (hsince : t.state.since = s.state.since)
    (hheard : t.heard = now) (hbegins : s.begins a = none) (hreports : s.reports a = some now) :
    Moves s a t
  | dials (now : Nat) (hphase : t.state.phase = .dialling) (hidle : s.state.phase = .idle)
    (hsince : t.state.since = now) (hnow : a.now? = some now) (hbegins : s.begins a = some now) :
    Moves s a t
  | rung (now : Nat) (hphase : t.state.phase = .incoming) (hidle : s.state.phase = .idle)
    (hsince : t.state.since = now) (hheard : t.heard = now) (hnow : a.now? = some now)
    (hbegins : s.begins a = some now) : Moves s a t
  | rings (k now : Nat) (group : String) (ha : a = .resolve k now)
    (htask : s.tasks[k]? = some (.announcing group s.state.call))
    (hphase : t.state.phase = .ringing) (hsince : t.state.since = now) (hheard : t.heard = now) :
    Moves s a t

variable {s t : Calls}

theorem not_changed_of_eq (h : t.state = s.state) : ¬Changed s.state t.state := by
  rintro (hphase | hcall)
  · exact hphase (by rw [h])
  · exact hcall (by rw [h])

/-- The device goes on with the call as it is. -/
theorem Moves.of_state_eq (hstate : t.state = s.state) (hheard : t.heard = s.heard)
    (hbegins : s.begins a = none) (hreports : s.reports a = none) : Moves s a t :=
  .still (not_changed_of_eq hstate) (by rw [hstate]) hheard hbegins hreports

theorem calm_hang (s : Calls) : Calm s.hang.state := by
  unfold hang
  split
  · exact .inl ‹_›
  · exact .inl rfl

theorem place_moves (s : Calls) (call group fromAccount : String) (awaited now : Nat) :
    Moves s (.place call group fromAccount awaited now)
      (s.place call group fromAccount awaited now) := by
  unfold place
  split
  · rename_i hbusy
    exact .of_state_eq rfl rfl (if_pos hbusy) rfl
  · rename_i hbusy
    refine .dials now rfl ?_ rfl rfl (if_neg hbusy)
    simpa [busy] using hbusy

theorem receive_moves (s : Calls) (group call fromAccount : String) (now : Nat) :
    Moves s (.receive group call fromAccount now) (s.receive group call fromAccount now) := by
  unfold receive
  split
  · rename_i hbusy
    exact .of_state_eq rfl rfl (if_pos hbusy) rfl
  · rename_i hbusy
    refine .rung now rfl ?_ rfl rfl rfl (if_neg hbusy)
    simpa [busy] using hbusy

theorem absorb_moves (s : Calls) (event : CallSignalEvent) (call device ours account : String)
    (now : Nat) : Moves s (.absorb event call device ours account now)
      (s.absorb event call device ours account now) := by
  unfold absorb
  split
  · rename_i hother
    refine .of_state_eq rfl rfl rfl (if_neg ?_)
    rintro ⟨hcall, hdevice⟩
    exact hother.elim (fun h => h hcall) hdevice
  · rename_i hours
    have hreports : s.reports (.absorb event call device ours account now) = some now :=
      if_pos ⟨by_contra fun h => hours (.inl h), fun h => hours (.inr h)⟩
    have hears : ∀ t : Calls, t.state = s.state → t.heard = now →
        Moves s (.absorb event call device ours account now) t := fun t hstate hheard =>
      .hears now (not_changed_of_eq hstate) (by rw [hstate]) hheard rfl hreports
    cases event with
    | declined | left =>
      dsimp only
      split
      · exact hears _ rfl rfl
      · split
        · split
          · exact .calm (calm_hang _)
          · exact hears _ rfl rfl
        · split
          · exact .calm (calm_hang _)
          · exact hears _ rfl rfl
    | accepted | ringing | alive | muted | unmuted => exact hears _ rfl rfl

theorem tick_moves (s : Calls) (now : Nat) : Moves s (.tick now) (s.tick now) := by
  unfold tick
  split
  · exact .of_state_eq rfl rfl rfl rfl
  · split
    · exact .of_state_eq rfl rfl rfl rfl
    · split
      · exact .calm (calm_hang _)
      · exact .of_state_eq rfl rfl rfl rfl

theorem resume_moves {task : Task} (htask : s.tasks[k]? = some task)
    (h : s.resume k now task = some t) : Moves s (.resolve k now) t := by
  cases task with
  | announcing group call =>
    simp only [resume] at h
    split at h
    · cases h
      exact .of_state_eq rfl rfl rfl rfl
    · rename_i hcall
      cases h
      obtain rfl := not_not.1 hcall
      exact .rings k now group rfl htask rfl rfl rfl
  | admitting | leaving | concluding =>
    cases h
    exact .of_state_eq rfl rfl rfl rfl
  | closing group call connectedAt conclusion =>
    cases conclusion <;> cases h <;> exact .of_state_eq rfl rfl rfl rfl
  | muting call muted =>
    cases h
    exact .still (fun hchanged => hchanged.elim (· rfl) (· rfl)) rfl rfl rfl rfl
  | joining | finished => cases h

theorem failTask_moves {task : Task} (h : s.failTask k task = some t) :
    Moves s (.reject k) t := by
  cases task with
  | admitting | joining | leaving =>
    cases h
    exact .calm (calm_hang _)
  | announcing | closing | concluding | muting =>
    cases h
    exact .of_state_eq rfl rfl rfl rfl
  | finished => cases h

/-- A report of the media layer about the call of the device, which has gone on as `r`. -/
theorem observed_moves {r : Calls} (hstate : r.state = s.state) (hbegins : s.begins a = none)
    (hreports : s.reports a = some now) (peers : List String) :
    Moves s a (r.observed s.state.call peers now) := by
  unfold observed
  rw [if_neg (by rw [hstate]; exact not_not.2 rfl)]
  dsimp only
  split
  · exact .calm (.inr rfl)
  · split
    · exact .calm (calm_hang _)
    · refine .hears now ?_ (by rw [hstate]) rfl hbegins hreports
      rintro (hphase | hcall)
      · exact hphase (by rw [hstate])
      · exact hcall (by rw [hstate])

theorem enterRoom_moves {task : Task} (htask : s.tasks[k]? = some task)
    (h : s.enterRoom k peers now task = some t) : Moves s (.joined k peers now) t := by
  cases task with
  | joining call =>
    simp only [enterRoom] at h
    split at h
    · rename_i hcall
      cases h
      refine .of_state_eq rfl rfl rfl (if_neg ?_)
      rw [htask]
      exact fun heq => hcall (Task.joining.inj (Option.some.inj heq)).symm
    · rename_i hcall
      obtain rfl := not_not.1 hcall
      cases h
      have hreports : s.reports (.joined k peers now) = some now := if_pos htask
      refine observed_moves ?_ rfl hreports peers
      rfl
  | _ => cases h

theorem moves_of_step (h : s.step a = some t) : Moves s a t := by
  cases a with
  | place call group fromAccount awaited now =>
    cases h
    exact place_moves s call group fromAccount awaited now
  | receive group call fromAccount now =>
    cases h
    exact receive_moves s group call fromAccount now
  | accept =>
    cases h
    unfold accept
    split <;> exact .of_state_eq rfl rfl rfl rfl
  | hang =>
    cases h
    exact .calm (calm_hang s)
  | mute muted =>
    cases h
    unfold mute
    split <;> exact .of_state_eq rfl rfl rfl rfl
  | absorb event call device ours account now =>
    cases h
    exact absorb_moves s event call device ours account now
  | tick now =>
    cases h
    exact tick_moves s now
  | resolve k now =>
    obtain ⟨task, htask, h⟩ := Option.bind_eq_some_iff.1 h
    exact resume_moves htask h
  | joined k peers now =>
    obtain ⟨task, htask, h⟩ := Option.bind_eq_some_iff.1 h
    exact enterRoom_moves htask h
  | reject k =>
    obtain ⟨task, htask, h⟩ := Option.bind_eq_some_iff.1 h
    exact failTask_moves h
  | onPeers call peers now =>
    obtain ⟨_, h⟩ := Option.ite_none_right_eq_some.1 h
    cases h
    by_cases hcall : call = s.state.call
    · have hreports : s.reports (.onPeers call peers now) = some now := if_pos hcall
      exact hcall ▸ observed_moves rfl rfl hreports peers
    · have hstill : s.observed call peers now = s := if_pos (Ne.symm hcall)
      exact .of_state_eq (by rw [hstill]) (by rw [hstill]) rfl (if_neg hcall)
  | onClosed call =>
    obtain ⟨_, h⟩ := Option.ite_none_right_eq_some.1 h
    cases h
    exact .calm (calm_hang s)

/-! ## What the device knows of the times -/

/-- A call that is dialled has no last sign in the device before its first report. -/
structure Inv (w : Timed) : Prop where
  phaseBegan : ¬Calm w.calls.state → w.phaseBegan ≤ w.calls.state.since
  dialling : w.calls.state.phase = .dialling → w.phaseBegan = w.calls.state.since ∧
    w.began = w.calls.state.since ∧ ∀ now, w.report = some now → w.calls.heard = now
  lastSign : ¬Calm w.calls.state → w.calls.state.phase ≠ .dialling → w.lastSign ≤ w.calls.heard

theorem Inv.start : Inv .start where
  phaseBegan h := absurd (.inl rfl) h
  dialling h := by cases h
  lastSign h := absurd (.inl rfl) h

theorem Inv.next {w : Timed} (h : Inv w) (hg : w.Forward a) (hmoves : Moves w.calls a t) :
    Inv (w.next a t) := by
  cases hmoves with
  | calm hcalm =>
    refine ⟨fun hn => absurd hcalm hn, fun hphase => ?_, fun hn => absurd hcalm hn⟩
    rcases hcalm with hcalm | hcalm <;> cases hcalm.symm.trans hphase
  | still hstate hsince hheard hbegins hreports =>
    have heq : w.next a t = ⟨t, w.began, w.phaseBegan, w.report⟩ := by
      rw [Timed.next, hbegins, hreports, if_neg hstate]
      rfl
    have hphase : t.state.phase = w.calls.state.phase := not_not.1 (not_or.1 hstate).1
    have hcalm : Calm t.state ↔ Calm w.calls.state := by rw [Calm, Calm, hphase]
    rw [heq]
    refine ⟨fun hn => ?_, fun hd => ?_, fun hn hd => ?_⟩
    · rw [hsince]
      exact h.phaseBegan (mt hcalm.2 hn)
    · rw [hsince, hheard]
      exact h.dialling (hphase ▸ hd)
    · rw [hheard]
      exact h.lastSign (mt hcalm.2 hn) (hphase ▸ hd)
  | hears now hstate hsince hheard hbegins hreports =>
    have heq : w.next a t = ⟨t, w.began, w.phaseBegan, some now⟩ := by
      rw [Timed.next, hbegins, hreports, if_neg hstate]
      rfl
    have hphase : t.state.phase = w.calls.state.phase := not_not.1 (not_or.1 hstate).1
    have hcalm : Calm t.state ↔ Calm w.calls.state := by rw [Calm, Calm, hphase]
    rw [heq]
    refine ⟨fun hn => ?_, fun hd => ?_, fun hn hd => ?_⟩
    · rw [hsince]
      exact h.phaseBegan (mt hcalm.2 hn)
    · rw [hsince, hheard]
      obtain ⟨hphaseBegan, hbegan, _⟩ := h.dialling (hphase ▸ hd)
      exact ⟨hphaseBegan, hbegan, fun now' heq => Option.some.inj heq⟩
    · exact hheard ▸ Nat.le_refl now
  | dials now hphase hidle hsince hnow hbegins =>
    have hchanged : Changed w.calls.state t.state := .inl (by rw [hphase, hidle]; decide)
    have heq : w.next a t = ⟨t, now, now, none⟩ := by
      rw [Timed.next, hbegins, if_pos hchanged, hnow]
      rfl
    rw [heq]
    exact ⟨fun _ => Nat.le_of_eq hsince.symm, fun _ => ⟨hsince.symm, hsince.symm, nofun⟩,
      fun _ hd => absurd hphase hd⟩
  | rung now hphase hidle hsince hheard hnow hbegins =>
    have hchanged : Changed w.calls.state t.state := .inl (by rw [hphase, hidle]; decide)
    have heq : w.next a t = ⟨t, now, now, none⟩ := by
      rw [Timed.next, hbegins, if_pos hchanged, hnow]
      rfl
    rw [heq]
    exact ⟨fun _ => Nat.le_of_eq hsince.symm, fun hd => (nomatch hphase.symm.trans hd),
      fun _ _ => Nat.le_of_eq hheard.symm⟩
  | rings k now group ha htask hphase hsince hheard =>
    subst ha
    obtain ⟨hphaseBegan, hlastSign⟩ := hg group htask
    have hkept : (w.next (.resolve k now) t).lastSign = w.lastSign := rfl
    refine ⟨fun _ => ?_, fun hd => (nomatch hphase.symm.trans hd), fun _ _ => ?_⟩
    · change (if _ then now else w.phaseBegan) ≤ t.state.since
      rw [hsince]
      split
      · exact Nat.le_refl now
      · exact hphaseBegan
    · rw [hkept]
      exact hheard ▸ hlastSign

theorem Inv.of_reach {w : Timed} (h : Reach step Forward .start w) : Inv w := by
  refine h.invariant Inv.start fun {w a u} hinv hg hs => ?_
  obtain ⟨t, ht, rfl⟩ := Option.map_eq_some_iff.1 hs
  exact hinv.next hg (moves_of_step ht)

/-! ## When a tick is early -/

/-- A tick ends the call only where the phase is old enough, or the last sign of life. -/
def NotEarly (w : Timed) (now : Nat) : Prop :=
  (w.calls.tick now).state.phase = .idle →
    w.phaseBegan + RING_TIMEOUT_MS ≤ now ∨ w.lastSign + ALIVE_TIMEOUT_MS ≤ now

theorem tick_idle_iff (hcalm : ¬Calm s.state) (now : Nat) : (s.tick now).state.phase = .idle ↔
    s.state.since + RING_TIMEOUT_MS ≤ now ∨ s.heard + ALIVE_TIMEOUT_MS ≤ now := by
  obtain ⟨hidle, hconnected⟩ := not_or.1 hcalm
  rw [tick, if_neg hidle, if_neg hconnected]
  split
  · rename_i hover
    refine iff_of_true ?_ hover
    rw [hang, if_neg hidle]
    rfl
  · rename_i hover
    exact iff_of_false hidle hover

/-- In a run whose clock is not set back while an invitation is sent, a tick is early exactly where
the call is being dialled, has not been heard of, and what the device heard last, of an earlier
call, is older than the timeout when the call itself is not. -/
theorem notEarly_iff {w : Timed} (h : Reach step Forward .start w)
    (hcalm : ¬Calm w.calls.state) (now : Nat) : w.NotEarly now ↔
      (w.calls.state.phase = .dialling → w.report = none →
        now < w.calls.heard + ALIVE_TIMEOUT_MS ∨ w.calls.state.since + ALIVE_TIMEOUT_MS ≤ now) := by
  have inv := Inv.of_reach h
  rw [NotEarly, tick_idle_iff hcalm]
  constructor
  · intro hearly hdial hreport
    obtain ⟨hphaseBegan, hbegan, _⟩ := inv.dialling hdial
    have hlast : w.lastSign = w.calls.state.since := by rw [lastSign, hreport, ← hbegan]; rfl
    rw [hlast, hphaseBegan] at hearly
    have htimeouts : ALIVE_TIMEOUT_MS ≤ RING_TIMEOUT_MS := by decide
    omega
  · intro hfresh hover
    rcases hover with hring | halive
    · exact .inl (Nat.le_trans (Nat.add_le_add_right (inv.phaseBegan hcalm) _) hring)
    · by_cases hdial : w.calls.state.phase = .dialling
      · obtain ⟨_, hbegan, hheard⟩ := inv.dialling hdial
        cases hreport : w.report with
        | none =>
          have hlast : w.lastSign = w.calls.state.since := by rw [lastSign, hreport, ← hbegan]; rfl
          rw [hlast]
          exact .inr ((hfresh hdial hreport).resolve_left (Nat.not_lt.2 halive))
        | some last =>
          have hlast : w.lastSign = last := by rw [lastSign, hreport]; rfl
          rw [hlast, ← hheard last hreport]
          exact .inr halive
      · exact .inr (Nat.le_trans (Nat.add_le_add_right (inv.lastSign hcalm hdial) _) halive)

/-- A call that rings here, and its first heartbeat. -/
theorem notEarly_iff_incoming : ∃ w, start.step (.receive "group" "call" "alice" 100000) = some w ∧
    w.NotEarly 105000 := by
  have hstep : start.step (.receive "group" "call" "alice" 100000) = some
      ⟨Calls.start.receive "group" "call" "alice" 100000, 100000, 100000, none⟩ := rfl
  refine ⟨_, hstep, (notEarly_iff (.tail .refl (by trivial) hstep) ?_ 105000).2 ?_⟩
  · rintro (hidle | hconnected) <;> contradiction
  · intro hdial
    contradiction

/-- The first call a device places is given up by a tick that comes before its invitation is
sent: nothing was ever heard. -/
theorem first_call_given_up :
    ¬∀ w, Reach step (fun _ _ => True) start w → ¬Calm w.calls.state → ∀ now, w.NotEarly now := by
  intro h
  have hstep : start.step (.place "call" "group" "alice" 1 100000) = some
      ⟨Calls.start.place "call" "group" "alice" 1 100000, 100000, 100000, none⟩ := rfl
  have hearly := h _ (.tail .refl trivial hstep)
    (by rintro (hidle | hconnected) <;> contradiction) 100001 (by decide)
  revert hearly
  decide

end Timed

end Whispee.Calls
