import Whispee.Lib.Dictionary
import Whispee.Lib.Transition

/-!
# Presence

`crates/server/src/presence.rs` and `apps/web/src/lib/presence.ts`: the two dampers a heartbeat goes
through before it is written, what is served of it, and what the client makes of the answer. Times
are in microseconds, on one clock: the monotonic one of `is_due` is only ever compared with itself.
A device that beats stays online exactly if the pace of the beats and the delay of a write come to
no more than thirty seconds together (`steady_iff`).
-/

namespace Whispee.Server.Presence

open Transition

def SECOND : Nat := 1000000
def MINUTE : Nat := 60 * SECOND
def PRESENCE_REFRESH : Nat := 60 * SECOND
def SWEEP_THRESHOLD : Nat := 4096

/-- The pace `crates/server/src/gateway.rs` announces in `hello`. -/
def HEARTBEAT : Nat := 30 * SECOND

/-- In milliseconds. -/
def ONLINE_WINDOW_MS : Nat := 150000

/-! ## What is served -/

/-- A row of `devices`. `last_seen_at` is only ever set by `date_trunc('minute', ..)`: it is a number
of minutes. -/
structure Device where
  account : String
  revoked : Bool
  lastSeen : Option Nat

/-- The server: its tables, the decisions of `is_due` whose update has not run yet, with their
times, and the time. `beats` and `recorded` say of the run so far when a device last beat, and
whether a beat of it was written. -/
structure State where
  optedOut : String → Bool
  devices : Dictionary Device
  lastTouch : Dictionary Nat
  pending : List (String × Nat)
  clock : Nat
  beats : String → Option Nat
  recorded : String → Bool

/-- What `read` serves of an account, in seconds. -/
def State.read (s : State) (account : String) : Option Nat :=
  ((s.devices.entries.filter fun row => row.2.account = account ∧ ¬ row.2.revoked).filterMap
    (·.2.lastSeen)).max?.map (· * 60)

def isOnline (lastSeen : Option Nat) (serverNow : Nat) : Bool :=
  match lastSeen with
  | none => false
  | some lastSeen => decide ((serverNow : Int) - lastSeen < ONLINE_WINDOW_MS)

/-- What the client makes of an answer: `refresh` turns its seconds into milliseconds. -/
def State.online (s : State) (account : String) : Bool :=
  isOnline ((s.read account).map (· * 1000)) (s.clock / SECOND * 1000)

/-! ## What is written -/

/-- The sweep of `is_due`. -/
def sweep (cache : Dictionary Nat) (now : Nat) : Dictionary Nat :=
  if SWEEP_THRESHOLD < cache.entries.length then
    cache.filterMap fun last => if now - last < PRESENCE_REFRESH then some last else none
  else cache

/-- Whether the entry of a device still silences it. -/
def Silenced (cache : Dictionary Nat) (deviceId : String) (now : Nat) : Prop :=
  ∃ last, cache.get? deviceId = some last ∧ now - last < PRESENCE_REFRESH

/-- `is_due`: its answer, and the cache it leaves. -/
def isDue (cache : Dictionary Nat) (deviceId : String) (now : Nat) : Bool × Dictionary Nat :=
  match (sweep cache now).get? deviceId with
  | some last =>
    if now - last < PRESENCE_REFRESH then (false, sweep cache now)
    else (true, (sweep cache now).set deviceId now)
  | none => (true, (sweep cache now).set deviceId now)

/-- `touch_detached`, as far as the decision: the update runs later. -/
def State.touch (s : State) (deviceId : String) : State :=
  let due := isDue s.lastTouch deviceId s.clock
  { s with
    lastTouch := due.2
    pending := if due.1 then s.pending ++ [(deviceId, s.clock)] else s.pending
    beats := fun id => if id = deviceId then some s.clock else s.beats id }

/-- The `WHERE` clause of the update. -/
def Writable (s : State) (device : Device) : Prop :=
  s.optedOut device.account = false ∧
    ∀ seen, device.lastSeen = some seen → seen * MINUTE + 60 * SECOND < s.clock

instance : Decidable (Writable s device) :=
  inferInstanceAs (Decidable (_ ∧ ∀ seen, device.lastSeen = some seen → _))

/-- The update of `touch`. -/
def State.update (s : State) (deviceId : String) : State :=
  match s.devices.get? deviceId with
  | none => s
  | some device =>
    if Writable s device then
      { s with
        devices := s.devices.set deviceId { device with lastSeen := some (s.clock / MINUTE) }
        recorded := fun id => id = deviceId || s.recorded id }
    else s

/-- `set_presence_optout`. -/
def State.optOut (s : State) (account : String) (optout : Bool) : State :=
  { s with
    optedOut := fun a => if a = account then optout else s.optedOut a
    devices := if optout then
        s.devices.map fun device =>
          if device.account = account then { device with lastSeen := none } else device
      else s.devices }

inductive Action where
  | heartbeat (deviceId : String)
  /-- The update of the `i`-th decision runs. -/
  | write (i : Nat)
  | wait (n : Nat)
  | optOut (account : String) (optout : Bool)
  | register (deviceId account : String)
  | revoke (deviceId : String)

def step (s : State) : Action → Option State
  | .heartbeat deviceId => some (s.touch deviceId)
  | .write i => s.pending[i]?.map fun decided =>
      ({ s with pending := s.pending.eraseIdx i } : State).update decided.1
  | .wait n => some { s with clock := s.clock + n }
  | .optOut account optout => some (s.optOut account optout)
  | .register deviceId account =>
    match s.devices.get? deviceId with
    | some _ => none
    | none => some { s with devices := s.devices.set deviceId ⟨account, false, none⟩ }
  | .revoke deviceId => (s.devices.get? deviceId).map fun device =>
      { s with devices := s.devices.set deviceId { device with revoked := true } }

/-- The device keeps its side: it beats within `interval` of its last beat, what was decided of it
is written within `delay`, and it is neither revoked nor opted out. -/
def Timely (deviceId : String) (interval delay : Nat) (s : State) : Action → Prop
  | .wait n => (∀ beat, s.beats deviceId = some beat → s.clock + n ≤ beat + interval) ∧
      ∀ decided ∈ s.pending, decided.1 = deviceId → s.clock + n ≤ decided.2 + delay
  | .optOut account optout => optout = true →
      ∀ device, s.devices.get? deviceId = some device → device.account ≠ account
  | .revoke other => other ≠ deviceId
  | _ => True

/-- A device that has yet to beat. -/
structure Starts (deviceId : String) (s : State) : Prop where
  device : ∃ device, s.devices.get? deviceId = some device ∧ device.revoked = false ∧
    s.optedOut device.account = false
  pending : ∀ decided ∈ s.pending, decided.1 ≠ deviceId
  beats : s.beats deviceId = none
  recorded : s.recorded deviceId = false

/-- From its first recorded beat on, the device's account is online at every reading. -/
def Steady (deviceId : String) (interval delay : Nat) : Prop :=
  ∀ s, Starts deviceId s → ∀ t, Reach step (Timely deviceId interval delay) s t →
    t.recorded deviceId = true →
      ∀ device, t.devices.get? deviceId = some device → t.online device.account = true

/-! ## The first damper -/

section
variable {cache : Dictionary Nat} {deviceId id : String} {now : Nat}

/-- The sweep only takes entries that silence nobody any more. -/
theorem get?_sweep (cache : Dictionary Nat) (id : String) (now : Nat) :
    (sweep cache now).get? id = cache.get? id ∨
      (sweep cache now).get? id = none ∧ ¬ Silenced cache id now := by
  unfold sweep
  split
  · rw [Dictionary.get?_filterMap]
    cases h : cache.get? id with
    | none => exact .inl rfl
    | some last =>
      rw [Option.bind_some]
      split
      · exact .inl rfl
      · rename_i hstale
        refine .inr ⟨rfl, ?_⟩
        rintro ⟨last', hlast, hfresh⟩
        cases h.symm.trans hlast
        exact hstale hfresh
  · exact .inl rfl

theorem get?_sweep_of_silenced (h : Silenced cache id now) :
    (sweep cache now).get? id = cache.get? id :=
  (get?_sweep cache id now).resolve_right fun hgone => hgone.2 h

theorem isDue_of_silenced (h : Silenced cache id now) :
    isDue cache id now = (false, sweep cache now) := by
  rw [isDue, get?_sweep_of_silenced h]
  obtain ⟨last, hlast, hfresh⟩ := h
  rw [hlast]
  exact if_pos hfresh

theorem isDue_of_not_silenced (h : ¬ Silenced cache id now) :
    isDue cache id now = (true, (sweep cache now).set id now) := by
  unfold isDue
  rcases get?_sweep cache id now with hkept | ⟨hgone, _⟩
  · rw [hkept]
    cases hlast : cache.get? id with
    | none => rfl
    | some last => exact if_neg fun hfresh => h ⟨last, hlast, hfresh⟩
  · rw [hgone]

/-- A decision about one device leaves the entries of the others to the sweep. -/
theorem get?_isDue_of_ne (h : id ≠ deviceId) :
    (isDue cache deviceId now).2.get? id = (sweep cache now).get? id := by
  by_cases hsilenced : Silenced cache deviceId now
  · rw [isDue_of_silenced hsilenced]
  · rw [isDue_of_not_silenced hsilenced]
    exact Dictionary.get?_set_of_ne _ _ h

end

/-! ## The invariant -/

/-- The decisions of a device that are not written yet. -/
def State.pendingOf (s : State) (deviceId : String) : List (String × Nat) :=
  s.pending.filter (·.1 = deviceId)

/-- The last decision about the device is of `time`: its beats since then are silenced, and the next
one is not far. -/
structure Decided (deviceId : String) (interval : Nat) (s : State) (time : Nat) : Prop where
  touched : s.lastTouch.get? deviceId = some time ∨
    s.lastTouch.get? deviceId = none ∧ time + PRESENCE_REFRESH ≤ s.clock
  beat : ∃ beat, s.beats deviceId = some beat ∧ time ≤ beat ∧ beat ≤ s.clock ∧
    s.clock ≤ beat + interval ∧ beat < time + PRESENCE_REFRESH

/-- What is recorded of the device is less than `margin` older than the decision. -/
def Recent (deviceId : String) (s : State) (device : Device) (time margin : Nat) : Prop :=
  s.recorded deviceId = true →
    ∃ seen, device.lastSeen = some seen ∧ time < seen * MINUTE + margin

/-- Where the device stands between two of its decisions. -/
inductive Standing (deviceId : String) (interval delay : Nat) (s : State) (device : Device) :
    Prop where
  | unseen (hpending : s.pendingOf deviceId = []) (hrecorded : s.recorded deviceId = false)
  | deciding (time : Nat) (hpending : s.pendingOf deviceId = [(deviceId, time)])
      (hdecided : Decided deviceId interval s time) (hdelay : s.clock ≤ time + delay)
      (hrecent : Recent deviceId s device time (2 * MINUTE + interval))
  | settled (time : Nat) (hpending : s.pendingOf deviceId = [])
      (hdecided : Decided deviceId interval s time)
      (hrecent : Recent deviceId s device time (MINUTE + 1))

structure Inv (deviceId : String) (interval delay : Nat) (s : State) : Prop where
  standing : ∃ device, s.devices.get? deviceId = some device ∧ device.revoked = false ∧
    s.optedOut device.account = false ∧ Standing deviceId interval delay s device

/-! ### Reading -/

theorem lt_of_max?_eq {seen : List Nat} (hmem : a ∈ seen) : ∃ m, seen.max? = some m ∧ a ≤ m := by
  cases h : seen.max? with
  | none =>
    rw [List.max?_eq_none_iff] at h
    rw [h] at hmem
    cases hmem
  | some m => exact ⟨m, rfl, (List.max?_le_iff h).1 (Nat.le_refl m) a hmem⟩

theorem online_of_recent {s : State} (hdevice : s.devices.get? deviceId = some device)
    (hrevoked : device.revoked = false) (hseen : device.lastSeen = some seen)
    (h : s.clock < seen * MINUTE + 150 * SECOND) : s.online device.account = true := by
  have hrow := Dictionary.get?_eq_some_iff.1 hdevice
  have hmem : seen ∈ (s.devices.entries.filter fun row =>
      row.2.account = device.account ∧ ¬ row.2.revoked).filterMap (·.2.lastSeen) := by
    refine List.mem_filterMap.2 ⟨_, List.mem_filter.2 ⟨hrow, ?_⟩, hseen⟩
    simp [hrevoked]
  obtain ⟨m, hm, hle⟩ := lt_of_max?_eq hmem
  rw [State.online, State.read, hm]
  change decide (((s.clock / SECOND * 1000 : Nat) : Int) - (m * 60 * 1000 : Nat) < _) = true
  refine decide_eq_true ?_
  unfold MINUTE at h
  unfold SECOND at h ⊢
  unfold ONLINE_WINDOW_MS
  omega

theorem Inv.online (h : Inv deviceId interval delay s) (hsum : interval + delay ≤ 30 * SECOND)
    (hrecorded : s.recorded deviceId = true) (hdevice : s.devices.get? deviceId = some device) :
    s.online device.account = true := by
  obtain ⟨device', hdevice', hrevoked, _, hstanding⟩ := h.standing
  cases hdevice.symm.trans hdevice'
  cases hstanding with
  | unseen _ hunseen =>
    rw [hunseen] at hrecorded
    cases hrecorded
  | deciding time _ _ hdelay hrecent =>
    obtain ⟨seen, hseen, hlt⟩ := hrecent hrecorded
    refine online_of_recent hdevice hrevoked hseen ?_
    unfold MINUTE at hlt ⊢
    omega
  | settled time _ hdecided hrecent =>
    obtain ⟨seen, hseen, hlt⟩ := hrecent hrecorded
    obtain ⟨beat, _, _, _, hpace, hlast⟩ := hdecided.beat
    refine online_of_recent hdevice hrevoked hseen ?_
    unfold PRESENCE_REFRESH at hlast
    unfold MINUTE at hlt ⊢
    omega

/-! ### Steps -/

section
variable {s t : State} {device device' : Device} {id deviceId : String} {interval delay : Nat}

theorem Standing.imp (h : Standing id interval delay s device)
    (hpending : t.pendingOf id = s.pendingOf id) (hrecorded : t.recorded id = s.recorded id)
    (hseen : device'.lastSeen = device.lastSeen)
    (hdecided : ∀ time, Decided id interval s time → Decided id interval t time)
    (hdelay : ∀ time, s.pendingOf id = [(id, time)] → s.clock ≤ time + delay →
      t.clock ≤ time + delay) : Standing id interval delay t device' := by
  have hrecent : ∀ {time margin}, Recent id s device time margin →
      Recent id t device' time margin := by
    intro time margin h ht
    rw [hseen]
    exact h (hrecorded ▸ ht)
  cases h with
  | unseen hnone hunseen => exact .unseen (hpending.trans hnone) (hrecorded.trans hunseen)
  | deciding time hone h hclock hlast =>
    exact .deciding time (hpending.trans hone) (hdecided time h) (hdelay time hone hclock)
      (hrecent hlast)
  | settled time hnone h hlast =>
    exact .settled time (hpending.trans hnone) (hdecided time h) (hrecent hlast)

theorem Decided.congr (h : Decided id interval s time) (hclock : t.clock = s.clock)
    (htouch : t.lastTouch = s.lastTouch) (hbeats : t.beats id = s.beats id) :
    Decided id interval t time :=
  ⟨by rw [htouch, hclock]; exact h.touched, by rw [hbeats, hclock]; exact h.beat⟩

theorem Decided.wait (h : Decided id interval s time)
    (hpace : ∀ beat, s.beats id = some beat → s.clock + n ≤ beat + interval) :
    Decided id interval { s with clock := s.clock + n } time := by
  obtain ⟨beat, hbeat, hle, hpast, _, hlast⟩ := h.beat
  exact ⟨h.touched.imp_right fun hgone => ⟨hgone.1, Nat.le_add_right_of_le hgone.2⟩, beat, hbeat,
    hle, Nat.le_add_right_of_le hpast, hpace beat hbeat, hlast⟩

/-- Another device's beat costs this one its entry only once it is of no use. -/
theorem Decided.touch_of_ne (h : Decided id interval s time) (hne : id ≠ deviceId) :
    Decided id interval (s.touch deviceId) time := by
  refine ⟨?_, ?_⟩
  · change (isDue s.lastTouch deviceId s.clock).2.get? id = some time ∨
      (isDue s.lastTouch deviceId s.clock).2.get? id = none ∧ time + PRESENCE_REFRESH ≤ s.clock
    rw [get?_isDue_of_ne hne]
    rcases get?_sweep s.lastTouch id s.clock with hkept | ⟨hgone, hstale⟩
    · rw [hkept]
      exact h.touched
    · refine .inr ⟨hgone, ?_⟩
      rcases h.touched with htouched | ⟨_, hold⟩
      · obtain ⟨beat, _, hle, hpast, _⟩ := h.beat
        refine Nat.le_of_not_lt fun hfresh => hstale ⟨time, htouched, ?_⟩
        omega
      · exact hold
  · change ∃ beat, (if id = deviceId then some s.clock else s.beats id) = some beat ∧ _
    rw [if_neg hne]
    exact h.beat

theorem Decided.lt_of_silenced (h : Decided id interval s time)
    (hsilenced : Silenced s.lastTouch id s.clock) :
    s.lastTouch.get? id = some time ∧ s.clock < time + PRESENCE_REFRESH := by
  obtain ⟨last, hlast, hfresh⟩ := hsilenced
  rcases h.touched with htouched | ⟨hgone, _⟩
  · cases htouched.symm.trans hlast
    refine ⟨htouched, ?_⟩
    have hpos : 0 < PRESENCE_REFRESH := Nat.zero_lt_of_lt hfresh
    omega
  · cases hgone.symm.trans hlast

theorem Decided.silenced (h : Decided id interval s time) (hlt : s.clock < time + PRESENCE_REFRESH) :
    Silenced s.lastTouch id s.clock := by
  refine ⟨time, h.touched.resolve_right fun hgone => Nat.not_lt_of_le hgone.2 hlt, ?_⟩
  obtain ⟨beat, _, hle, hpast, _⟩ := h.beat
  omega

theorem touch_of_silenced (h : Silenced s.lastTouch id s.clock) : s.touch id =
    { s with
      lastTouch := sweep s.lastTouch s.clock
      beats := fun other => if other = id then some s.clock else s.beats other } := by
  rw [State.touch, isDue_of_silenced h]
  rfl

theorem touch_of_not_silenced (h : ¬ Silenced s.lastTouch id s.clock) : s.touch id =
    { s with
      lastTouch := (sweep s.lastTouch s.clock).set id s.clock
      pending := s.pending ++ [(id, s.clock)]
      beats := fun other => if other = id then some s.clock else s.beats other } := by
  rw [State.touch, isDue_of_not_silenced h]
  rfl

theorem Decided.touch_of_silenced (h : Decided id interval s time)
    (hsilenced : Silenced s.lastTouch id s.clock) : Decided id interval (s.touch id) time := by
  obtain ⟨htouched, hlt⟩ := h.lt_of_silenced hsilenced
  obtain ⟨beat, _, hle, hpast, _⟩ := h.beat
  rw [Presence.touch_of_silenced hsilenced]
  refine ⟨.inl ((get?_sweep_of_silenced hsilenced).trans htouched), s.clock, if_pos rfl, ?_⟩
  exact ⟨Nat.le_trans hle hpast, Nat.le_refl _, Nat.le_add_right .., hlt⟩

theorem decided_touch (h : ¬ Silenced s.lastTouch id s.clock) :
    Decided id interval (s.touch id) s.clock := by
  rw [touch_of_not_silenced h]
  refine ⟨.inl (Dictionary.get?_set_self ..), s.clock, if_pos rfl, Nat.le_refl _, Nat.le_refl _,
    Nat.le_add_right .., ?_⟩
  exact Nat.lt_add_of_pos_right (by decide)

theorem pendingOf_touch_of_ne (hne : id ≠ deviceId) :
    (s.touch deviceId).pendingOf id = s.pendingOf id := by
  by_cases h : Silenced s.lastTouch deviceId s.clock
  · rw [touch_of_silenced h]
    rfl
  · rw [touch_of_not_silenced h, State.pendingOf, List.filter_append,
      List.filter_singleton, decide_eq_false (Ne.symm hne)]
    exact List.append_nil _

theorem pendingOf_touch (h : ¬ Silenced s.lastTouch id s.clock) :
    (s.touch id).pendingOf id = s.pendingOf id ++ [(id, s.clock)] := by
  rw [touch_of_not_silenced h, State.pendingOf, List.filter_append, List.filter_singleton,
    decide_eq_true rfl]
  rfl

theorem Standing.heartbeat (h : Standing id interval delay s device)
    (hsum : interval + delay ≤ 30 * SECOND) : Standing id interval delay (s.touch id) device := by
  by_cases hsilenced : Silenced s.lastTouch id s.clock
  · refine h.imp ?_ rfl rfl (fun time hdecided => hdecided.touch_of_silenced hsilenced) fun _ _ h => h
    rw [touch_of_silenced hsilenced]
    rfl
  · have hdeciding : Recent id (s.touch id) device s.clock (2 * MINUTE + interval) →
        s.pendingOf id = [] → Standing id interval delay (s.touch id) device := by
      intro hrecent hnone
      refine .deciding s.clock ?_ (decided_touch hsilenced) (Nat.le_add_right ..) hrecent
      rw [pendingOf_touch hsilenced, hnone, List.nil_append]
    cases h with
    | unseen hnone hunseen =>
      refine hdeciding (fun hrecorded => ?_) hnone
      cases hunseen.symm.trans hrecorded
    | deciding time _ hdecided hdelay _ =>
      refine absurd (hdecided.silenced ?_) hsilenced
      unfold SECOND at hsum
      unfold PRESENCE_REFRESH SECOND
      omega
    | settled time hnone hdecided hrecent =>
      refine hdeciding (fun hrecorded => ?_) hnone
      obtain ⟨seen, hseen, hlt⟩ := hrecent hrecorded
      obtain ⟨beat, _, _, _, hpace, hlast⟩ := hdecided.beat
      refine ⟨seen, hseen, ?_⟩
      unfold PRESENCE_REFRESH at hlast
      unfold MINUTE at hlt ⊢
      omega

theorem update_of_writable (hdevice : s.devices.get? id = some device) (h : Writable s device) :
    s.update id = { s with
      devices := s.devices.set id { device with lastSeen := some (s.clock / MINUTE) }
      recorded := fun other => other = id || s.recorded other } := by
  rw [State.update, hdevice]
  exact if_pos h

theorem update_of_refused (hdevice : s.devices.get? id = some device) (h : ¬ Writable s device) :
    s.update id = s := by
  rw [State.update, hdevice]
  exact if_neg h

/-- The update of another device changes nothing of this one. -/
theorem update_of_ne (hne : id ≠ deviceId) :
    (s.update deviceId).devices.get? id = s.devices.get? id ∧
      (s.update deviceId).optedOut = s.optedOut ∧
      ∀ device, Standing id interval delay s device →
        Standing id interval delay (s.update deviceId) device := by
  cases hdevice : s.devices.get? deviceId with
  | none =>
    rw [State.update, hdevice]
    exact ⟨rfl, rfl, fun _ h => h⟩
  | some other =>
    by_cases hwritable : Writable s other
    · rw [update_of_writable hdevice hwritable]
      refine ⟨Dictionary.get?_set_of_ne _ _ hne, rfl, fun device h => h.imp rfl ?_ rfl
        (fun _ hdecided => hdecided.congr rfl rfl rfl) fun _ _ h => h⟩
      change (decide (id = deviceId) || s.recorded id) = s.recorded id
      rw [decide_eq_false hne, Bool.false_or]
    · rw [update_of_refused hdevice hwritable]
      exact ⟨rfl, rfl, fun _ h => h⟩

/-- What is left of the decisions of a device when one decision is taken out. -/
theorem pendingOf_eraseIdx (id : String) (h : s.pending[i]? = some decided) :
    ∃ before after, s.pendingOf id = before ++ (if decided.1 = id then [decided] else []) ++ after ∧
      ({ s with pending := s.pending.eraseIdx i } : State).pendingOf id = before ++ after := by
  obtain ⟨hi, rfl⟩ := List.getElem?_eq_some_iff.1 h
  refine ⟨(s.pending.take i).filter (·.1 = id), (s.pending.drop (i + 1)).filter (·.1 = id), ?_, ?_⟩
  · conv_lhs => rw [State.pendingOf, ← List.take_append_drop i s.pending,
      List.drop_eq_getElem_cons hi, List.filter_append, List.filter_cons]
    rw [List.append_assoc]
    refine congrArg _ ?_
    by_cases hid : s.pending[i].1 = id
    · rw [if_pos hid, if_pos (decide_eq_true hid)]
      rfl
    · rw [if_neg hid, if_neg (by rw [decide_eq_false hid]; exact Bool.false_ne_true)]
      rfl
  · rw [State.pendingOf, List.eraseIdx_eq_take_drop_succ, List.filter_append]

/-- The update a decision allows is made or refused: the device's time is recent either way. -/
theorem settled_update (hdevice : s.devices.get? id = some device)
    (hoptedOut : s.optedOut device.account = false) (hnone : s.pendingOf id = [])
    (hdecided : Decided id interval s time) :
    ∃ device', (s.update id).devices.get? id = some device' ∧ device'.account = device.account ∧
      device'.revoked = device.revoked ∧ (s.update id).optedOut = s.optedOut ∧
      Standing id interval delay (s.update id) device' := by
  have hpast : time ≤ s.clock := by
    obtain ⟨beat, _, hle, hpast, _⟩ := hdecided.beat
    exact Nat.le_trans hle hpast
  by_cases hwritable : Writable s device
  · rw [update_of_writable hdevice hwritable]
    refine ⟨_, Dictionary.get?_set_self .., rfl, rfl, rfl, .settled time hnone
      (hdecided.congr rfl rfl rfl) fun _ => ⟨_, rfl, ?_⟩⟩
    have hpos : 0 < MINUTE := by decide
    have hminute := Nat.div_add_mod' s.clock MINUTE
    have hlt := Nat.mod_lt s.clock hpos
    omega
  · rw [update_of_refused hdevice hwritable]
    refine ⟨device, hdevice, rfl, rfl, rfl, .settled time hnone hdecided fun _ => ?_⟩
    simp only [Writable, hoptedOut, true_and, not_forall] at hwritable
    obtain ⟨seen, hseen, hlt⟩ := hwritable
    refine ⟨seen, hseen, ?_⟩
    unfold MINUTE at hlt ⊢
    omega

theorem Inv.next (h : Inv id interval delay s) (hsum : interval + delay ≤ 30 * SECOND)
    (hguard : Timely id interval delay s a) (hstep : step s a = some t) : Inv id interval delay t := by
  obtain ⟨device, hdevice, hrevoked, hoptedOut, hstanding⟩ := h.standing
  cases a with
  | heartbeat deviceId =>
    cases hstep
    by_cases hid : id = deviceId
    · rw [← hid]
      exact ⟨device, hdevice, hrevoked, hoptedOut, hstanding.heartbeat hsum⟩
    · exact ⟨device, hdevice, hrevoked, hoptedOut, hstanding.imp (pendingOf_touch_of_ne hid) rfl rfl
        (fun _ hdecided => hdecided.touch_of_ne hid) fun _ _ h => h⟩
  | write i =>
    obtain ⟨decided, hget, rfl⟩ := Option.map_eq_some_iff.1 hstep
    obtain ⟨before, after, hbefore, hafter⟩ := pendingOf_eraseIdx id hget
    by_cases hid : decided.1 = id
    · rw [if_pos hid] at hbefore
      rw [hid]
      cases hstanding with
      | unseen hnone _ => simp [hnone] at hbefore
      | settled _ hnone _ _ => simp [hnone] at hbefore
      | deciding time hone hdecided _ _ =>
        have hempty : before ++ after = [] := by
          have hlength := congrArg List.length (hone.symm.trans hbefore)
          simp only [List.length_append, List.length_singleton] at hlength
          exact List.eq_nil_of_length_eq_zero (by rw [List.length_append]; omega)
        obtain ⟨device', hdevice', haccount, hrevoked', hopted, hsettled⟩ :=
          settled_update (s := { s with pending := s.pending.eraseIdx i }) hdevice hoptedOut
            (hafter.trans hempty) (hdecided.congr rfl rfl rfl)
        refine ⟨device', hdevice', hrevoked'.trans hrevoked, ?_, hsettled⟩
        rw [hopted, haccount]
        exact hoptedOut
    · rw [if_neg hid, List.append_nil] at hbefore
      obtain ⟨hdevices, hopted, hkept⟩ := update_of_ne
        (s := { s with pending := s.pending.eraseIdx i }) (Ne.symm hid)
      refine ⟨device, hdevices.trans hdevice, hrevoked, ?_, hkept device ?_⟩
      · rw [hopted]
        exact hoptedOut
      · exact hstanding.imp (hafter.trans hbefore.symm) rfl rfl
          (fun _ hdecided => hdecided.congr rfl rfl rfl) fun _ _ h => h
  | wait n =>
    cases hstep
    refine ⟨device, hdevice, hrevoked, hoptedOut, hstanding.imp rfl rfl rfl
      (fun _ hdecided => hdecided.wait hguard.1) fun time hone _ => ?_⟩
    have hmem : (id, time) ∈ s.pendingOf id := by
      rw [hone]
      exact List.mem_singleton_self _
    exact hguard.2 _ (List.mem_of_mem_filter hmem) rfl
  | optOut account optout =>
    cases hstep
    have hkept : Standing id interval delay (s.optOut account optout) device :=
      hstanding.imp rfl rfl rfl (fun _ hdecided => hdecided.congr rfl rfl rfl) fun _ _ h => h
    cases optout with
    | false =>
      refine ⟨device, hdevice, hrevoked, ?_, hkept⟩
      change (if device.account = account then false else s.optedOut device.account) = false
      rw [hoptedOut, ite_self]
    | true =>
      have hne := hguard rfl device hdevice
      refine ⟨device, ?_, hrevoked, (if_neg hne).trans hoptedOut, hkept⟩
      have hdevices : (s.optOut account true).devices = s.devices.map fun device =>
          if device.account = account then { device with lastSeen := none } else device := rfl
      rw [hdevices, Dictionary.get?_map, hdevice]
      exact congrArg some (if_neg hne)
  | register deviceId account =>
    have hstep : (match s.devices.get? deviceId with
      | some _ => none
      | none => some { s with devices := s.devices.set deviceId ⟨account, false, none⟩ }) = some t :=
      hstep
    cases hother : s.devices.get? deviceId with
    | some _ => simp [hother] at hstep
    | none =>
      rw [hother] at hstep
      cases hstep
      have hne : id ≠ deviceId := by
        rintro rfl
        cases hother.symm.trans hdevice
      exact ⟨device, (Dictionary.get?_set_of_ne _ _ hne).trans hdevice, hrevoked, hoptedOut,
        hstanding.imp rfl rfl rfl (fun _ hdecided => hdecided.congr rfl rfl rfl) fun _ _ h => h⟩
  | revoke deviceId =>
    obtain ⟨other, _, rfl⟩ := Option.map_eq_some_iff.1 hstep
    have hne : id ≠ deviceId := Ne.symm hguard
    exact ⟨device, (Dictionary.get?_set_of_ne _ _ hne).trans hdevice, hrevoked, hoptedOut,
      hstanding.imp rfl rfl rfl (fun _ hdecided => hdecided.congr rfl rfl rfl) fun _ _ h => h⟩

theorem steady_of_le (hsum : interval + delay ≤ 30 * SECOND) : Steady id interval delay := by
  intro s hstart t hreach hrecorded device hdevice
  have hinv : Inv id interval delay t := by
    refine hreach.invariant ?_ fun hinv hguard hstep => hinv.next hsum hguard hstep
    obtain ⟨device, hdevice, hrevoked, hoptedOut⟩ := hstart.device
    refine ⟨device, hdevice, hrevoked, hoptedOut, .unseen ?_ hstart.recorded⟩
    refine List.filter_eq_nil_iff.2 fun decided hmem h => ?_
    exact hstart.pending decided hmem (of_decide_eq_true h)
  exact hinv.online hsum hrecorded hdevice

end

/-! ## Too slow a pace -/

/-- The only device, just after a beat: the first minute is what is recorded of it, and the last
decision about it is of `time`. -/
structure Lone (deviceId : String) (time : Nat) (pending : List (String × Nat)) (s : State) :
    Prop where
  entries : s.devices.entries = [(deviceId, ⟨"", false, some 0⟩)]
  optedOut : s.optedOut "" = false
  touched : s.lastTouch.get? deviceId = some time
  undone : s.pending = pending
  beat : s.beats deviceId = some s.clock
  recorded : s.recorded deviceId = true

section
variable {s t : State} {id : String} {interval delay time : Nat} {pending : List (String × Nat)}

theorem Lone.get?_devices (h : Lone id time pending s) :
    s.devices.get? id = some ⟨"", false, some 0⟩ := by
  refine Dictionary.get?_eq_some_iff.2 ?_
  rw [h.entries]
  exact List.mem_singleton_self _

theorem Lone.offline (h : Lone id time pending s) (hclock : 150 * SECOND ≤ s.clock) :
    s.online "" = false := by
  have hread : s.read "" = some 0 := by
    rw [State.read, h.entries]
    rfl
  rw [State.online, hread]
  change decide (((s.clock / SECOND * 1000 : Nat) : Int) - (0 : Nat) < ONLINE_WINDOW_MS) = false
  refine decide_eq_false ?_
  unfold SECOND at hclock ⊢
  unfold ONLINE_WINDOW_MS
  omega

/-- Waiting, then beating. -/
theorem reach_beat (hpace : s.beats id = some s.clock) (hn : n ≤ interval)
    (hdelay : ∀ decided ∈ s.pending, s.clock + n ≤ decided.2 + delay) :
    Reach step (Timely id interval delay) s (({ s with clock := s.clock + n } : State).touch id) := by
  refine .tail (a := Action.heartbeat id) (.tail (a := Action.wait n) .refl ?_ rfl) trivial rfl
  refine ⟨fun beat hbeat => ?_, fun decided hmem _ => hdelay decided hmem⟩
  cases hpace.symm.trans hbeat
  exact Nat.add_le_add_left hn _

theorem Lone.silent (interval delay : Nat) (h : Lone id time pending s) (hn : n ≤ interval)
    (hle : time ≤ s.clock) (hfresh : s.clock + n < time + PRESENCE_REFRESH)
    (hdelay : ∀ decided ∈ pending, s.clock + n ≤ decided.2 + delay) :
    ∃ t, Reach step (Timely id interval delay) s t ∧ Lone id time pending t ∧
      t.clock = s.clock + n := by
  refine ⟨_, reach_beat h.beat hn (h.undone ▸ hdelay), ?_, rfl⟩
  have hsilenced : Silenced s.lastTouch id (s.clock + n) := ⟨time, h.touched, by omega⟩
  rw [touch_of_silenced (s := { s with clock := s.clock + n }) hsilenced]
  exact ⟨h.entries, h.optedOut, (get?_sweep_of_silenced hsilenced).trans h.touched, h.undone,
    if_pos rfl, h.recorded⟩

theorem Lone.due (interval delay : Nat) (h : Lone id time [] s) (hn : n ≤ interval)
    (hstale : time + PRESENCE_REFRESH ≤ s.clock + n) :
    ∃ t, Reach step (Timely id interval delay) s t ∧
      Lone id (s.clock + n) [(id, s.clock + n)] t ∧ t.clock = s.clock + n := by
  refine ⟨_, reach_beat h.beat hn ?_, ?_, rfl⟩
  · rw [h.undone]
    exact fun _ hmem => (List.not_mem_nil hmem).elim
  · have hdue : ¬ Silenced s.lastTouch id (s.clock + n) := by
      rintro ⟨last, hlast, hfresh⟩
      cases h.touched.symm.trans hlast
      omega
    rw [touch_of_not_silenced (s := { s with clock := s.clock + n }) hdue]
    refine ⟨h.entries, h.optedOut, Dictionary.get?_set_self .., ?_, if_pos rfl, h.recorded⟩
    exact congrArg (· ++ _) h.undone

/-- Within the minute that is recorded, and up to its end, an update is refused. -/
theorem Lone.refused (interval delay : Nat) (h : Lone id time [(id, time)] s)
    (hclock : s.clock ≤ 60 * SECOND) :
    ∃ t, Reach step (Timely id interval delay) s t ∧ Lone id time [] t ∧ t.clock = s.clock := by
  have hstep : step s (.write 0) = some { s with pending := [] } := by
    have hrefused : ¬ Writable { s with pending := [] } ⟨"", false, some 0⟩ := by
      intro hwritable
      have hlt : 0 * MINUTE + 60 * SECOND < s.clock := hwritable.2 0 rfl
      omega
    rw [step, h.undone]
    exact congrArg some (update_of_refused (s := { s with pending := [] }) h.get?_devices hrefused)
  refine ⟨_, .tail (a := Action.write 0) .refl trivial hstep, ?_, rfl⟩
  exact ⟨h.entries, h.optedOut, h.touched, rfl, h.beat, h.recorded⟩

/-- A device that beats as often as it likes, up to a time before its next decision. -/
theorem Lone.idle (interval delay : Nat) (h : Lone id time pending s) (hpos : 0 < interval)
    (hle : time ≤ s.clock) (hfresh : s.clock + n < time + PRESENCE_REFRESH)
    (hdelay : ∀ decided ∈ pending, s.clock + n ≤ decided.2 + delay) :
    ∃ t, Reach step (Timely id interval delay) s t ∧ Lone id time pending t ∧
      t.clock = s.clock + n := by
  induction n generalizing s with
  | zero => exact ⟨s, .refl, h, rfl⟩
  | succ n ih =>
    obtain ⟨t, hreach, ht, hclock⟩ := ih h hle (Nat.lt_of_succ_lt hfresh)
      fun decided hmem => Nat.le_of_succ_le (hdelay decided hmem)
    obtain ⟨u, hreach', hu, hclock'⟩ := ht.silent interval delay (n := 1) hpos (by omega)
      (by omega) fun decided hmem => hclock ▸ hdelay decided hmem
    exact ⟨u, hreach.trans hreach', hu, by omega⟩

/-- A server that knows of one device, and has yet to hear from it. -/
def fresh (deviceId : String) : State where
  optedOut _ := false
  devices := ⟨[(deviceId, ⟨"", false, none⟩)], List.nodup_singleton _⟩
  lastTouch := ∅
  pending := []
  clock := 0
  beats _ := none
  recorded _ := false

theorem starts_fresh : Starts id (fresh id) where
  device := ⟨_, Dictionary.get?_eq_some_iff.2 (List.mem_singleton_self _), rfl, rfl⟩
  pending _ hmem := (List.not_mem_nil hmem).elim
  beats := rfl
  recorded := rfl

theorem reach_recorded (id : String) (interval delay : Nat) :
    ∃ t, Reach step (Timely id interval delay) (fresh id) t ∧ Lone id 0 [] t ∧ t.clock = 0 := by
  have hdue : ¬ Silenced (fresh id).lastTouch id 0 := by
    rintro ⟨last, hlast, _⟩
    cases hlast
  have hbeat : step (fresh id) (.heartbeat id) = some ((fresh id).touch id) := rfl
  rw [touch_of_not_silenced hdue] at hbeat
  have hdevice : (fresh id).devices.get? id = some ⟨"", false, none⟩ :=
    Dictionary.get?_eq_some_iff.2 (List.mem_singleton_self _)
  refine ⟨_, .tail (a := Action.write 0) (.tail (a := Action.heartbeat id) .refl trivial hbeat) trivial
    (congrArg some (update_of_writable hdevice ⟨rfl, fun _ h => nomatch h⟩)), ?_, rfl⟩
  refine ⟨?_, rfl, Dictionary.get?_set_self .., rfl, if_pos rfl, ?_⟩
  · change Dictionary.setEntry id _ [(id, _)] = _
    rw [Dictionary.setEntry, if_pos rfl]
    exact congrArg (fun minute => [(id, (⟨"", false, some minute⟩ : Device))]) (Nat.zero_div MINUTE)
  · change (decide (id = id) || _) = true
    rw [decide_eq_true rfl]
    rfl

/-- The first decision is made at once; the second falls a minute later, to the tick, and its update
is refused; the third comes a pace after the minute that follows. -/
theorem not_steady_of_lt (id : String) (hpos : 0 < interval) (hsum : 30 * SECOND < interval + delay) :
    ¬ Steady id interval delay := by
  intro hsteady
  have hoffline : ∀ {t time pending}, Reach step (Timely id interval delay) (fresh id) t →
      Lone id time pending t → 150 * SECOND ≤ t.clock → False := by
    intro t time pending hreach h hclock
    have honline := hsteady _ starts_fresh t hreach h.recorded _ h.get?_devices
    rw [h.offline hclock] at honline
    cases honline
  have hrefresh : PRESENCE_REFRESH = 60 * SECOND := rfl
  have hsecond : 0 < SECOND := by decide
  obtain ⟨s₀, hreach₀, h₀, hclock₀⟩ := reach_recorded id interval delay
  obtain ⟨s₁, hreach₁, h₁, hclock₁⟩ := h₀.idle interval delay (n := 60 * SECOND - 1) hpos
    (Nat.zero_le _) (by omega) fun _ hmem => (List.not_mem_nil hmem).elim
  obtain ⟨s₂, hreach₂, h₂, hclock₂⟩ := h₁.due interval delay (n := 1) hpos (by omega)
  have htick : s₁.clock + 1 = 60 * SECOND := by omega
  rw [htick] at h₂ hclock₂
  obtain ⟨s₃, hreach₃, h₃, hclock₃⟩ := h₂.refused interval delay (Nat.le_of_eq hclock₂)
  obtain ⟨s₄, hreach₄, h₄, hclock₄⟩ := h₃.idle interval delay (n := 60 * SECOND - 1) hpos
    (by omega) (by omega) fun _ hmem => (List.not_mem_nil hmem).elim
  have hreach : Reach step (Timely id interval delay) (fresh id) s₄ :=
    (((hreach₀.trans hreach₁).trans hreach₂).trans hreach₃).trans hreach₄
  obtain ⟨s₅, hreach₅, h₅, hclock₅⟩ := h₄.due interval delay
    (n := min interval (30 * SECOND + 1)) (Nat.min_le_left ..) (by omega)
  by_cases hslow : 30 * SECOND + 1 ≤ interval
  · exact hoffline (hreach.trans hreach₅) h₅ (by omega)
  · obtain ⟨s₆, hreach₆, h₆, hclock₆⟩ := h₅.idle interval delay
      (n := 30 * SECOND + 1 - interval) hpos (by omega) (by omega)
      (List.forall_mem_singleton.2 (by dsimp only; omega))
    exact hoffline ((hreach.trans hreach₅).trans hreach₆) h₆ (by omega)

end

/-- Presence does not flicker exactly if what the pace and the delay come to fits in what the minute
of truncation and the minute of silence leave of the window. -/
theorem steady_iff (deviceId : String) (interval delay : Nat) (hpos : 0 < interval) :
    Steady deviceId interval delay ↔ interval + delay ≤ 30 * SECOND := by
  constructor
  · intro hsteady
    refine Nat.le_of_not_lt fun hlt => ?_
    exact not_steady_of_lt deviceId hpos hlt hsteady
  · exact steady_of_le

theorem steady_halved :
    0 < HEARTBEAT / 2 ∧ (Steady "d" (HEARTBEAT / 2) SECOND ↔ HEARTBEAT / 2 + SECOND ≤ 30 * SECOND) :=
  ⟨by decide, steady_iff "d" (HEARTBEAT / 2) SECOND (by decide)⟩

/-- At the announced pace, a second between a decision and its update is too much. -/
theorem flickers : ¬ ∀ deviceId delay, Steady deviceId HEARTBEAT delay :=
  fun h => not_steady_of_lt "d" (by decide) (by decide) (h "d" SECOND)

end Whispee.Server.Presence
