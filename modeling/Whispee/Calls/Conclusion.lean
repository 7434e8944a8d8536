import Whispee.Calls.Effect
import Whispee.Lib.Transition
import Mathlib.Logic.Function.Basic

/-!
# The conclusion of a call

Any number of devices, each with its `Calls`, the thread they announce to, and the media server.
The server knows who is in the room of a call and tells everybody in it each change in turn; a
device hears of the changes since its own arrival, in their order and as late as it likes. An
invitation rings once on each device of another account; ephemeral frames may say anything.

Each device decides for itself, from what it has heard of the room, whether it writes the
conclusion. There is one conclusion at most as long as what it has heard is up to date when it
decides, the caller does not give up a call that others have held without it, and nobody enters a
room after the call was concluded (`one_conclusion`).
-/

namespace Whispee.Calls

open Tasks Transition

/-- A device in the room of a call, which it has joined with this task. -/
structure Connection where
  device : Nat
  task : Nat
  call : String
  /-- Which state of the room it has heard of last. -/
  position : Nat
  deriving DecidableEq

structure World where
  device : Nat → Calls
  /-- Who has placed which call. -/
  placedBy : List (String × Nat)
  /-- Which devices have placed or been rung for which calls. -/
  taken : List (Nat × String)
  /-- Who was in the room of a call, one state after the other. -/
  rooms : String → List (List Nat)
  connections : List Connection
  /-- What each device has announced. -/
  thread : List (Nat × Announcement)
  /-- The calls that some device has hung up with a conclusion. -/
  concluded : List String

namespace World

inductive Move where
  /-- With a fresh id. -/
  | place (d : Nat) (call group : String) (awaited now : Nat)
  /-- The invitation at this place of the thread reaches the device. -/
  | ring (d i now : Nat)
  /-- The user, the channel, the clock or a task of the device. -/
  | act (d : Nat) (a : Action)
  /-- The server lets the device in, which has asked with task `k`. -/
  | connect (d k : Nat)
  /-- The room that the device has asked for comes. -/
  | joined (i now : Nat)
  /-- The next state of the room is reported, or the last one again. -/
  | report (i now : Nat)
  | again (i now : Nat)
  | closed (i : Nat)
  /-- The server loses the device, or lets it go. -/
  | drop (d : Nat) (call : String)

/-- What comes neither from the thread nor from a room. -/
def isOwn : Action → Bool
  | .accept | .hang | .mute _ | .absorb .. | .tick _ | .resolve .. | .reject _ => true
  | .place .. | .receive .. | .joined .. | .onPeers .. | .onClosed _ => false

/-- The account of a device, and its name in a room. -/
structure Setup where
  account : Nat → String
  name : Nat → String

variable (S : Setup) (w : World) {d : Nat} {a : Action} {t : Calls}

def start : World where
  device _ := Calls.start
  placedBy := []
  taken := []
  rooms _ := []
  connections := []
  thread := []
  concluded := []

/-- The call that the device has hung up with a conclusion in this step. -/
def decided (s t : Calls) : Option String :=
  match t.tasks[s.tasks.length]? with
  | some (.closing _ call _ (some _)) => some call
  | _ => none

/-- The device goes over to this state. -/
def update (d : Nat) (t : Calls) : World :=
  { w with
    device := Function.update w.device d t
    thread := w.thread ++ (t.announced.drop (w.device d).announced.length).map (d, ·)
    concluded := w.concluded ++ (decided (w.device d) t).toList }

/-- The device goes over to this state as it places the call, or is rung for it. -/
def take (d : Nat) (call : String) (placed : List (String × Nat)) (t : Calls) : World :=
  { w.update d t with
    placedBy := w.placedBy ++ placed
    taken := w.taken ++ [(d, call)] }

/-- Who is in the room now. -/
def current (call : String) : List Nat := (w.rooms call).getLastD []

def setRoom (call : String) (present : List Nat) : World :=
  { w with rooms := Function.update w.rooms call (w.rooms call ++ [present]) }

/-- The participants that a device hears of: the others. -/
def peersOf (d : Nat) (present : List Nat) : List String :=
  (present.filter (· ≠ d)).map S.name

/-- What a device does in a move that is its own or comes from a room. -/
def target : Move → Option (Nat × Action)
  | .act d a => if isOwn a then some (d, a) else none
  | .joined i now =>
    w.connections[i]?.bind fun connection =>
      (w.rooms connection.call)[connection.position]?.bind fun present =>
        if (w.device connection.device).tasks[connection.task]? =
            some (.joining connection.call) then
          some (connection.device,
            .joined connection.task (peersOf S connection.device present) now)
        else none
  | .report i now =>
    w.connections[i]?.bind fun connection =>
      (w.rooms connection.call)[connection.position + 1]?.bind fun present =>
        if connection.device ∈ present then
          some (connection.device,
            .onPeers connection.call (peersOf S connection.device present) now)
        else none
  | .again i now =>
    w.connections[i]?.bind fun connection =>
      (w.rooms connection.call)[connection.position]?.map fun present =>
        (connection.device, .onPeers connection.call (peersOf S connection.device present) now)
  | .closed i =>
    w.connections[i]?.map fun connection => (connection.device, .onClosed connection.call)
  | .place .. | .ring .. | .connect .. | .drop .. => none

/-- A report moves its connection on. -/
def moveOn : Move → List Connection
  | .report i _ => w.connections.modify i fun connection =>
      { connection with position := connection.position + 1 }
  | _ => w.connections

def step : Move → Option World
  | .place d call group awaited now =>
    if call ≠ "" ∧ call ∉ w.placedBy.map Prod.fst then
      if (w.device d).busy then some w
      else
        some (w.take d call [(call, d)]
          ((w.device d).place call group (S.account d) awaited now))
    else none
  | .ring d i now =>
    match w.thread[i]? with
    | some (sender, ⟨group, .invite, call, _⟩) =>
      if S.account sender ≠ S.account d ∧ (d, call) ∉ w.taken then
        some (w.take d call []
          ((w.device d).receive group call (S.account sender) now))
      else none
    | _ => none
  | .connect d k =>
    match (w.device d).tasks[k]? with
    | some (.joining call) =>
      some { w.setRoom call ((w.current call).insert d) with
        connections := w.connections ++ [⟨d, k, call, (w.rooms call).length⟩] }
    | _ => none
  | .drop d call => some (w.setRoom call ((w.current call).filter (· ≠ d)))
  | m =>
    (w.target S m).bind fun (d, a) =>
      ((w.device d).step a).map fun t => { w.update d t with connections := w.moveOn m }

/-! ## What has to be the case -/

/-- Two participants have been in the room of the call at once. -/
def EverTwo (call : String) : Prop :=
  ∃ present ∈ w.rooms call, ∃ d ∈ present, ∃ d' ∈ present, d ≠ d'

/-- The device is in the room of the call, and nobody else is. -/
def Alone (d : Nat) (call : String) : Prop :=
  d ∈ w.current call ∧ ∀ d' ∈ w.current call, d' = d

instance : Decidable (w.EverTwo call) := by
  unfold EverTwo
  infer_instance

instance : Decidable (w.Alone d call) := by
  unfold Alone
  infer_instance

/-- The participants a device sees as it acts: those it is told of, or those it was told of last. -/
def inSight (s : Calls) : Action → List String
  | .joined _ peers _ | .onPeers _ peers _ => peers
  | _ => s.state.peers

/-- A device that hangs up after it was connected, and sees nobody, is alone in the room; a caller
that hangs up before it was connected leaves a room in which no two have been. -/
def Warranted (d : Nat) (a : Action) (t : Calls) : Prop :=
  t.state.phase = .idle → (w.device d).state.phase ≠ .idle →
    ((w.device d).state.connectedAt ≠ 0 → inSight (w.device d) a = [] →
      w.Alone d (w.device d).state.call) ∧
    ((w.device d).state.connectedAt = 0 → (w.device d).placed → ¬ w.EverTwo (w.device d).state.call)

instance : Decidable (w.Warranted d a t) := by
  unfold Warranted
  infer_instance

/-- Whoever hangs up knows what has become of the call, and nobody enters the room of a call that
was concluded. -/
def guard : Move → Bool
  | .connect d k =>
    match (w.device d).tasks[k]? with
    | some (.joining call) => call ∉ w.concluded
    | _ => true
  | .place .. | .ring .. | .drop .. => true
  | m =>
    match w.target S m with
    | some (d, a) => ((w.device d).step a).all fun t => w.Warranted d a t
    | none => true

/-- The conclusions of the call in the thread: at most one; `ended` only if two have been in the
room at once, and `missed` only from the caller. -/
structure OneConclusion (call : String) : Prop where
  unique : ∀ {i j : Nat} {d d' : Nat} {x y : Announcement}, w.thread[i]? = some (d, x) →
    w.thread[j]? = some (d', y) → x.call = call → y.call = call → x.event ≠ .invite →
    y.event ≠ .invite → i = j
  ended : ∀ {i : Nat} {d : Nat} {x : Announcement}, w.thread[i]? = some (d, x) → x.call = call →
    x.event = .ended → w.EverTwo call
  missed : ∀ {i : Nat} {d : Nat} {x : Announcement}, w.thread[i]? = some (d, x) → x.call = call →
    x.event = .missed → (call, d) ∈ w.placedBy

/-! ## What holds of the devices -/

/-- A call of which no device will decide a conclusion any more: the one that decided it was alone
in the room, or no two have ever been in it. -/
def Settled (call : String) : Prop :=
  (∃ d, (d, call) ∈ w.taken ∧ (w.device d).state.call ≠ call ∧
    (∀ d' ∈ w.current call, d' = d) ∧ w.EverTwo call) ∨
  (¬ w.EverTwo call ∧ ∃ d, (call, d) ∈ w.placedBy ∧ (w.device d).state.call ≠ call)

/-- What a device knows of its call. -/
structure Sound (d : Nat) (s : Calls) : Prop where
  idle : s.state.phase = .idle → s.state.call = "" ∧ s.state.connectedAt = 0
  active : s.state.phase ≠ .idle → s.state.call ≠ "" ∧ (d, s.state.call) ∈ w.taken
  tasks : ∀ task ∈ s.tasks, ∀ c, task.call? = some c → c ≠ ""
  placed : s.placed → (s.state.call, d) ∈ w.placedBy
  connected : s.state.connectedAt ≠ 0 → w.EverTwo s.state.call

structure Inv (w : World) : Prop where
  sound : ∀ d, w.Sound d (w.device d)
  placer : ∀ {c d d'}, (c, d) ∈ w.placedBy → (c, d') ∈ w.placedBy → d = d'
  taken : ∀ {c d}, (c, d) ∈ w.placedBy → (d, c) ∈ w.taken
  known : ∀ {d c}, (d, c) ∈ w.taken → c ≠ "" ∧ c ∈ w.placedBy.map Prod.fst
  invited : ∀ {d x}, (d, x) ∈ w.thread → x.event = .invite →
    x.call ≠ "" ∧ x.call ∈ w.placedBy.map Prod.fst
  connections : ∀ connection ∈ w.connections, connection.call ≠ "" ∧
    ∃ present, (w.rooms connection.call)[connection.position]? = some present ∧
      connection.device ∈ present
  settled : ∀ c ∈ w.concluded, w.Settled c

variable {S} {w} {w' : World} {s : Calls}

/-- What a device knows stays true as calls are placed and rooms change. -/
theorem Sound.mono (h : w.Sound d s) (htaken : w.taken ⊆ w'.taken)
    (hplacedBy : w.placedBy ⊆ w'.placedBy) (htwo : ∀ c, w.EverTwo c → w'.EverTwo c) :
    w'.Sound d s where
  idle := h.idle
  active hphase := ⟨(h.active hphase).1, htaken (h.active hphase).2⟩
  tasks := h.tasks
  placed hplaced := hplacedBy (h.placed hplaced)
  connected hconnected := htwo _ (h.connected hconnected)

/-- Its tasks are for calls. -/
theorem Sound.tasks_of_known (h : w.Sound d s) (hknown : TasksKnown s t) :
    ∀ task ∈ t.tasks, ∀ c, task.call? = some c → c ≠ "" := by
  intro task htask c hc
  rcases hknown task htask c hc with ⟨task', htask', hc'⟩ | ⟨rfl, hphase⟩
  · exact h.tasks task' htask' c hc'
  · exact (h.active hphase).1

theorem Sound.quiet (h : w.Sound d s) (hquiet : Quiet s t) : w.Sound d t where
  idle hphase := by
    rw [hquiet.call, hquiet.connectedAt]
    exact h.idle (hquiet.idle.1 hphase)
  active hphase := by
    rw [hquiet.call]
    exact h.active fun hidle => hphase (hquiet.idle.2 hidle)
  tasks := h.tasks_of_known hquiet.tasks
  placed hplaced := by
    rw [hquiet.call]
    exact h.placed (hquiet.placed ▸ hplaced)
  connected hconnected := by
    rw [hquiet.call]
    exact h.connected (hquiet.connectedAt ▸ hconnected)

theorem Sound.ended (h : w.Sound d s) (hended : Ended s peers t) : w.Sound d t where
  idle _ := by
    rw [hended.state]
    exact ⟨rfl, rfl⟩
  active hphase := by
    rw [hended.state] at hphase
    exact absurd rfl hphase
  tasks := h.tasks_of_known hended.tasks
  placed hplaced := by
    rw [hended.placed] at hplaced
    cases hplaced
  connected hconnected := by
    rw [hended.state] at hconnected
    exact absurd rfl hconnected

/-- What a move that is the device's own, or comes from a room, does to it. -/
inductive Moved (w : World) (d : Nat) (a : Action) (t : Calls) : Prop where
  | own : inSight (w.device d) a = (w.device d).state.peers → Effect (w.device d) t →
    Moved w d a t
  | told (call : String) : call ≠ "" →
    (inSight (w.device d) a ≠ [] → w.EverTwo call) →
    Told (w.device d) call (inSight (w.device d) a) t → Moved w d a t

theorem everTwo_of_peers {present : List Nat} (hmem : present ∈ w.rooms call) (hd : d ∈ present)
    (hpeers : peersOf S d present ≠ []) : w.EverTwo call := by
  obtain ⟨name, hname⟩ := List.exists_mem_of_ne_nil _ hpeers
  obtain ⟨d', hd', _⟩ := List.mem_map.1 hname
  obtain ⟨hd', hne⟩ := List.mem_filter.1 hd'
  exact ⟨present, hmem, d', hd', d, hd, of_decide_eq_true hne⟩

theorem Inv.resume_idle {k : Nat} {task : Task} (h : Inv w)
    (htask : (w.device d).tasks[k]? = some task) : (w.device d).state.phase = .idle →
      ∀ group, task ≠ .announcing group (w.device d).state.call := by
  rintro hphase group rfl
  exact (h.sound d).tasks _ (List.mem_of_getElem? htask) _ rfl ((h.sound d).idle hphase).1

/-- A device that is told by one of its connections. -/
theorem Inv.moved (h : Inv w) (htarget : w.target S m = some (d, a))
    (hstep : (w.device d).step a = some t) : Moved w d a t := by
  unfold target at htarget
  split at htarget
  next d a =>
    obtain ⟨hown, heq⟩ := Option.ite_none_right_eq_some.1 htarget
    cases heq
    cases a with
    | accept =>
      cases hstep
      exact .own rfl accept_effect
    | hang =>
      cases hstep
      exact .own rfl hang_effect
    | mute =>
      cases hstep
      exact .own rfl mute_effect
    | absorb =>
      cases hstep
      exact .own rfl absorb_effect
    | tick =>
      cases hstep
      exact .own rfl tick_effect
    | resolve k now =>
      obtain ⟨task, htask, hresume⟩ := Option.bind_eq_some_iff.1 hstep
      exact .own rfl (resume_effect htask hresume (h.resume_idle htask))
    | reject k =>
      obtain ⟨task, htask, hfail⟩ := Option.bind_eq_some_iff.1 hstep
      exact .own rfl (failTask_effect htask hfail)
    | place | receive | joined | onPeers | onClosed => cases hown
  next i now =>
    obtain ⟨connection, hconnection, htarget⟩ := Option.bind_eq_some_iff.1 htarget
    obtain ⟨present, hpresent, htarget⟩ := Option.bind_eq_some_iff.1 htarget
    obtain ⟨htask, heq⟩ := Option.ite_none_right_eq_some.1 htarget
    cases heq
    obtain ⟨hne, present', hpresent', hd⟩ :=
      h.connections connection (List.mem_of_getElem? hconnection)
    cases hpresent.symm.trans hpresent'
    obtain ⟨task, htask', henter⟩ := Option.bind_eq_some_iff.1 hstep
    cases htask.symm.trans htask'
    exact .told connection.call hne (everTwo_of_peers (List.mem_of_getElem? hpresent) hd)
      (enterRoom_told htask henter)
  next i now =>
    obtain ⟨connection, hconnection, htarget⟩ := Option.bind_eq_some_iff.1 htarget
    obtain ⟨present, hpresent, htarget⟩ := Option.bind_eq_some_iff.1 htarget
    obtain ⟨hd, heq⟩ := Option.ite_none_right_eq_some.1 htarget
    cases heq
    obtain ⟨hne, _⟩ := h.connections connection (List.mem_of_getElem? hconnection)
    obtain ⟨_, heq⟩ := Option.ite_none_right_eq_some.1 hstep
    cases heq
    exact .told connection.call hne (everTwo_of_peers (List.mem_of_getElem? hpresent) hd)
      observed_told
  next i now =>
    obtain ⟨connection, hconnection, htarget⟩ := Option.bind_eq_some_iff.1 htarget
    obtain ⟨present, hpresent, heq⟩ := Option.map_eq_some_iff.1 htarget
    cases heq
    obtain ⟨hne, present', hpresent', hd⟩ :=
      h.connections connection (List.mem_of_getElem? hconnection)
    cases hpresent.symm.trans hpresent'
    obtain ⟨_, heq⟩ := Option.ite_none_right_eq_some.1 hstep
    cases heq
    exact .told connection.call hne (everTwo_of_peers (List.mem_of_getElem? hpresent) hd)
      observed_told
  next i =>
    obtain ⟨connection, hconnection, heq⟩ := Option.map_eq_some_iff.1 htarget
    cases heq
    obtain ⟨_, heq⟩ := Option.ite_none_right_eq_some.1 hstep
    cases heq
    exact .own rfl hang_effect
  all_goals cases htarget

/-- A device that moves still knows of its call what it should. -/
theorem Inv.sound_moved (h : Inv w) (hmoved : Moved w d a t) : w.Sound d t := by
  have hsound := h.sound d
  cases hmoved with
  | own _ heffect =>
    cases heffect with
    | quiet hquiet => exact hsound.quiet hquiet
    | ended hended => exact hsound.ended hended
    | announces k group c event seconds hpending hstate hplaced hannounced htasks =>
      obtain ⟨group', connectedAt, htask⟩ := hpending
      refine ⟨by rw [hstate]; exact hsound.idle, by rw [hstate]; exact hsound.active, ?_,
        by rw [hstate, hplaced]; exact hsound.placed, by rw [hstate]; exact hsound.connected⟩
      exact hsound.tasks_of_known (.of_set (.concluding c) htask (fun _ hc => hc) htasks)
  | told call hne htwo htold =>
    cases htold with
    | quiet hquiet => exact hsound.quiet hquiet
    | ended _ _ hended => exact hsound.ended hended
    | connects hcall hcall' hphase hpeers hplaced hannounced hlength hpending htasks =>
      have hactive : (w.device d).state.phase ≠ .idle :=
        fun hidle => hne (hcall.symm.trans (hsound.idle hidle).1)
      refine ⟨fun hidle => absurd hidle hphase, fun _ => ?_, hsound.tasks_of_known htasks,
        fun hp => ?_, fun _ => ?_⟩
      · rw [hcall', ← hcall]
        exact hsound.active hactive
      · rw [hcall', ← hcall]
        exact hsound.placed (hplaced ▸ hp)
      · rw [hcall']
        exact htwo hpeers

/-! ## What is to be announced -/

/-- Where a conclusion is: with a task of a device, or in the thread. -/
inductive Token where
  | pending (d k : Nat)
  | line (i : Nat)

def Holds (w : World) (c : String) : Token → Nat → CallEvent → Prop
  | .pending d' k, d, event => d' = d ∧ (w.device d).Pending k c event
  | .line i, d, event =>
    ∃ x, w.thread[i]? = some (d, x) ∧ x.call = c ∧ x.event = event ∧ event ≠ .invite

structure Counted (w : World) : Prop where
  concluded : ∀ {c token d event}, w.Holds c token d event → c ∈ w.concluded
  backed : ∀ {c token d event}, w.Holds c token d event →
    event = .ended ∧ w.EverTwo c ∨ event = .missed ∧ (c, d) ∈ w.placedBy
  exclusive : ∀ {c token token' d d' event event'}, w.Holds c token d event →
    w.Holds c token' d' event' → token = token'

/-- Conclusions that only move, from a task to the thread. -/
theorem Counted.of_map (h : Counted w) (f : Token → Token)
    (held : ∀ {c token d event}, w'.Holds c token d event → w.Holds c (f token) d event)
    (inj : ∀ {c token token' d d' event event'}, w'.Holds c token d event →
      w'.Holds c token' d' event' → f token = f token' → token = token')
    (hconcluded : w.concluded ⊆ w'.concluded) (hplacedBy : w.placedBy ⊆ w'.placedBy)
    (htwo : ∀ c, w.EverTwo c → w'.EverTwo c) : Counted w' where
  concluded hold := hconcluded (h.concluded (held hold))
  backed hold := (h.backed (held hold)).imp (And.imp_right (htwo _)) (And.imp_right (@hplacedBy _))
  exclusive hold hold' := inj hold hold' (h.exclusive (held hold) (held hold'))

theorem Counted.of_held (h : Counted w)
    (held : ∀ {c token d event}, w'.Holds c token d event → w.Holds c token d event)
    (hconcluded : w.concluded ⊆ w'.concluded) (hplacedBy : w.placedBy ⊆ w'.placedBy)
    (htwo : ∀ c, w.EverTwo c → w'.EverTwo c) : Counted w' :=
  h.of_map id held (fun _ _ h => h) hconcluded hplacedBy htwo

theorem decided_eq_some_iff :
    decided s t = some c ↔ ∃ event, t.Pending s.tasks.length c event := by
  unfold decided Pending
  constructor
  · intro h
    split at h
    next group call connectedAt event htask =>
      cases h
      exact ⟨event, group, connectedAt, htask⟩
    · cases h
  · rintro ⟨event, group, connectedAt, htask⟩
    rw [htask]

/-- A task that is not there yet. -/
theorem not_pending_length : ¬ s.Pending s.tasks.length c event := by
  rintro ⟨group, connectedAt, htask⟩
  rw [List.getElem?_eq_none (Nat.le_refl _)] at htask
  cases htask

theorem decided_eq_none (h : ∀ {k c event}, t.Pending k c event → s.Pending k c event) :
    decided s t = none := by
  rw [Option.eq_none_iff_forall_ne_some]
  intro c hc
  obtain ⟨event, hpending⟩ := decided_eq_some_iff.1 hc
  exact not_pending_length (h hpending)

theorem concluded_update : c ∈ (w.update d t).concluded ↔
    c ∈ w.concluded ∨ decided (w.device d) t = some c := by
  show c ∈ w.concluded ++ _ ↔ _
  rw [List.mem_append, Option.mem_toList]

theorem thread_update (h : t.announced = (w.device d).announced ++ new) :
    (w.update d t).thread = w.thread ++ new.map (d, ·) := by
  show w.thread ++ (t.announced.drop _).map _ = _
  rw [h, List.drop_left]

theorem device_update : (w.update d t).device d = t := Function.update_self ..

theorem device_update_ne (h : d' ≠ d) : (w.update d t).device d' = w.device d' :=
  Function.update_of_ne h ..

/-- The conclusions of a device that has nothing new to announce. -/
theorem holds_update (hannounced : t.announced = (w.device d).announced)
    (h : (w.update d t).Holds c token d' event) :
    w.Holds c token d' event ∨
      ∃ k, token = .pending d k ∧ d' = d ∧ t.Pending k c event := by
  cases token with
  | pending d'' k =>
    obtain ⟨rfl, hpending⟩ := h
    by_cases hd : d'' = d
    · subst hd
      rw [device_update] at hpending
      exact .inr ⟨k, rfl, rfl, hpending⟩
    · rw [device_update_ne hd] at hpending
      exact .inl ⟨rfl, hpending⟩
  | line i =>
    obtain ⟨x, hx, hat⟩ := h
    rw [thread_update (hannounced.trans (List.append_nil _).symm), List.map_nil,
      List.append_nil] at hx
    exact .inl ⟨x, hx, hat⟩

/-- Other calls stay settled when a device moves from its call, or goes over to a new one. -/
theorem Settled.mono (h : w.Settled c) (htaken : w.taken ⊆ w'.taken)
    (hplacedBy : w.placedBy ⊆ w'.placedBy) (hrooms : w'.rooms c = w.rooms c)
    (hplaced : ∀ {d}, (c, d) ∈ w.placedBy → (d, c) ∈ w.taken)
    (hcalls : ∀ d, (d, c) ∈ w.taken → (w.device d).state.call ≠ c →
      (w'.device d).state.call ≠ c) : w'.Settled c := by
  have hcurrent : w'.current c = w.current c := congrArg (List.getLastD · []) hrooms
  have htwo : w'.EverTwo c ↔ w.EverTwo c := by
    unfold EverTwo
    rw [hrooms]
  rcases h with ⟨d, hd, hcall, halone, hever⟩ | ⟨hnever, d, hd, hcall⟩
  · exact .inl ⟨d, htaken hd, hcalls d hd hcall, hcurrent ▸ halone, htwo.2 hever⟩
  · exact .inr ⟨fun h => hnever (htwo.1 h), d, hplacedBy hd, hcalls d (hplaced hd) hcall⟩

theorem Settled.update (h : w.Settled c) (inv : Inv w) (hc : c ≠ "")
    (hcall : t.state.call = (w.device d).state.call ∨ t.state.call = "") :
    (w.update d t).Settled c := by
  refine h.mono (List.Subset.refl _) (List.Subset.refl _) rfl inv.taken fun d' _ hne => ?_
  by_cases hd : d' = d
  · subst hd
    rw [device_update]
    rcases hcall with hcall | hcall
    · rw [hcall]
      exact hne
    · rw [hcall]
      exact hc.symm
  · rw [device_update_ne hd]
    exact hne

theorem Settled.ne_empty (h : w.Settled c) (inv : Inv w) : c ≠ "" := by
  rcases h with ⟨d, hd, _⟩ | ⟨_, d, hd, _⟩
  · exact (inv.known hd).1
  · exact (inv.known (inv.taken hd)).1

/-- A device that hangs up, and is warranted to, decides the conclusion of a call that was not
concluded before, and settles it. -/
theorem Inv.ended_settled (h : Inv w) (hended : Ended (w.device d) (inSight (w.device d) a) t)
    (hwarranted : w.Warranted d a t) (hdecided : decided (w.device d) t = some c) :
    c ∉ w.concluded ∧ (w.update d t).Settled c ∧
      ∀ event, t.Pending (w.device d).tasks.length c event →
        event = .ended ∧ w.EverTwo c ∨ event = .missed ∧ (c, d) ∈ w.placedBy := by
  have hsound := h.sound d
  have hidle : t.state.phase = .idle := by
    rw [hended.state]
    rfl
  obtain ⟨hempty, hgiven⟩ := hwarranted hidle hended.active
  obtain ⟨hne, htaken⟩ := hsound.active hended.active
  have hstate : ((w.update d t).device d).state.call ≠ (w.device d).state.call := by
    rw [device_update, hended.state]
    exact hne.symm
  have hconclusion : ∀ event, t.Pending (w.device d).tasks.length c event →
      c = (w.device d).state.call ∧
        (event = .ended ∧ w.EverTwo c ∧ w.Alone d c ∨
          event = .missed ∧ ¬ w.EverTwo c ∧ (c, d) ∈ w.placedBy) := by
    intro event hpending
    rcases hended.pending hpending with hold | ⟨_, rfl, hwhich⟩
    · exact absurd hold not_pending_length
    · refine ⟨rfl, hwhich.imp ?_ ?_⟩
      · rintro ⟨rfl, hconnected, hpeers⟩
        exact ⟨rfl, hsound.connected hconnected, hempty hconnected hpeers⟩
      · rintro ⟨rfl, hconnected, hplaced, _⟩
        exact ⟨rfl, hgiven hconnected hplaced, hsound.placed hplaced⟩
  obtain ⟨event, hpending⟩ := decided_eq_some_iff.1 hdecided
  obtain ⟨rfl, hwhich⟩ := hconclusion event hpending
  refine ⟨fun hmem => ?_, ?_, fun event hpending => ?_⟩
  · -- A settled call has nobody left to conclude it.
    rcases h.settled _ hmem with ⟨d', _, hcall, halone, hever⟩ | ⟨hnever, d', hd', hcall⟩
    · rcases hwhich with ⟨_, _, hin, _⟩ | ⟨_, hnever, _⟩
      · exact hcall (congrArg (fun d => (w.device d).state.call) (halone d hin).symm)
      · exact hnever hever
    · rcases hwhich with ⟨_, hever, _⟩ | ⟨_, _, hplaced⟩
      · exact hnever hever
      · exact hcall (congrArg (fun d => (w.device d).state.call) (h.placer hd' hplaced))
  · rcases hwhich with ⟨_, hever, _, halone⟩ | ⟨_, hnever, hplaced⟩
    · exact .inl ⟨d, htaken, hstate, halone, hever⟩
    · exact .inr ⟨hnever, d, hplaced, hstate⟩
  · obtain ⟨_, hwhich⟩ := hconclusion event hpending
    exact hwhich.imp (fun h => ⟨h.1, h.2.1⟩) (fun h => ⟨h.1, h.2.2⟩)

/-! ## One move -/

theorem Counted.of_quiet (h : Counted w) (hannounced : t.announced = (w.device d).announced)
    (hpending : ∀ {k c event}, t.Pending k c event → (w.device d).Pending k c event) :
    Counted (w.update d t) := by
  refine h.of_held (fun hold => ?_) (fun c hc => concluded_update.2 (.inl hc))
    (List.Subset.refl _) fun c h => h
  rcases holds_update hannounced hold with hold | ⟨k, rfl, rfl, hnew⟩
  · exact hold
  · exact ⟨rfl, hpending hnew⟩

theorem Counted.of_ended (h : Counted w) (hended : Ended (w.device d) peers t)
    (hnew : ∀ c, decided (w.device d) t = some c → c ∉ w.concluded ∧
      ∀ event, t.Pending (w.device d).tasks.length c event →
        event = .ended ∧ w.EverTwo c ∨ event = .missed ∧ (c, d) ∈ w.placedBy) :
    Counted (w.update d t) := by
  -- A token of the call that is ending is the new one, as there was none before.
  have held : ∀ {c token d' event}, (w.update d t).Holds c token d' event →
      w.Holds c token d' event ∨ token = .pending d (w.device d).tasks.length ∧ d' = d ∧
        t.Pending (w.device d).tasks.length c event ∧ decided (w.device d) t = some c := by
    intro c token d' event hold
    rcases holds_update hended.announced hold with hold | ⟨k, rfl, rfl, hpending⟩
    · exact .inl hold
    · rcases hended.pending hpending with hold | ⟨rfl, _⟩
      · exact .inl ⟨rfl, hold⟩
      · exact .inr ⟨rfl, rfl, hpending, decided_eq_some_iff.2 ⟨event, hpending⟩⟩
  refine ⟨fun hold => ?_, fun hold => ?_, fun hold hold' => ?_⟩
  · rcases held hold with hold | ⟨_, _, _, hdecided⟩
    · exact concluded_update.2 (.inl (h.concluded hold))
    · exact concluded_update.2 (.inr hdecided)
  · rcases held hold with hold | ⟨_, rfl, hpending, hdecided⟩
    · exact h.backed hold
    · exact (hnew _ hdecided).2 _ hpending
  · rcases held hold with hold | ⟨rfl, _, _, hdecided⟩
    · rcases held hold' with hold' | ⟨_, _, _, hdecided⟩
      · exact h.exclusive hold hold'
      · exact absurd (h.concluded hold) (hnew _ hdecided).1
    · rcases held hold' with hold' | ⟨rfl, _⟩
      · exact absurd (h.concluded hold') (hnew _ hdecided).1
      · rfl

theorem Counted.of_announces (h : Counted w) (hpending : (w.device d).Pending k c event)
    (hannounced : t.announced = (w.device d).announced ++ [⟨group, event, c, seconds⟩])
    (htasks : t.tasks = (w.device d).tasks.set k (.concluding c)) : Counted (w.update d t) := by
  have hthread := thread_update hannounced
  obtain ⟨group', connectedAt, htask⟩ := hpending
  have hgone : ∀ {c' event'}, ¬ t.Pending k c' event' := by
    rintro c' event' ⟨group, connectedAt, hk⟩
    rw [htasks, getElem?_set_eq_some_iff htask] at hk
    rcases hk with ⟨_, heq⟩ | ⟨hne, _⟩
    · cases heq
    · exact hne rfl
  have hpending_old : ∀ {j c' event'}, t.Pending j c' event' → (w.device d).Pending j c' event' :=
    pending_of_set htask (fun _ _ _ _ h => by cases h) htasks
  -- The new line stands for the task that has announced it.
  let f : Token → Token
    | .line i => if i = w.thread.length then .pending d k else .line i
    | token => token
  refine h.of_map f ?_ ?_ (fun c hc => concluded_update.2 (.inl hc)) (List.Subset.refl _)
    fun c h => h
  · rintro c' (⟨d', j⟩ | i) d'' event' hold
    · obtain ⟨rfl, hj⟩ := hold
      by_cases hd : d' = d
      · subst hd
        rw [device_update] at hj
        exact ⟨rfl, hpending_old hj⟩
      · rw [device_update_ne hd] at hj
        exact ⟨rfl, hj⟩
    · obtain ⟨x, hx, hc, hevent, hinvite⟩ := hold
      rw [hthread] at hx
      rcases getElem?_concat_eq_some_iff.1 hx with hx | ⟨rfl, heq⟩
      · have hlt := (List.getElem?_eq_some_iff.1 hx).1
        show w.Holds c' (if i = _ then _ else _) d'' event'
        rw [if_neg (Nat.ne_of_lt hlt)]
        exact ⟨x, hx, hc, hevent, hinvite⟩
      · cases heq
        show w.Holds c' (if _ = _ then _ else _) d event'
        rw [if_pos rfl]
        cases hc
        cases hevent
        exact ⟨rfl, group', connectedAt, htask⟩
  · have not_held : ∀ {c' d'' event'}, ¬ (w.update d t).Holds c' (.pending d k) d'' event' := by
      rintro c' d'' event' ⟨rfl, hk⟩
      rw [device_update] at hk
      exact hgone hk
    rintro c' (⟨d₁, j₁⟩ | i₁) (⟨d₂, j₂⟩ | i₂) d' d'' event' event'' hold hold' heq
    · exact heq
    · dsimp only [f] at heq
      split at heq
      · cases heq
        exact absurd hold not_held
      · cases heq
    · dsimp only [f] at heq
      split at heq
      · cases heq
        exact absurd hold' not_held
      · cases heq
    · dsimp only [f] at heq
      split at heq <;> split at heq
      next h₁ h₂ => rw [h₁, h₂]
      · cases heq
      · cases heq
      · exact heq

theorem Inv.of_update (h : Inv w) (hsound : w.Sound d t)
    (hcall : t.state.call = (w.device d).state.call ∨ t.state.call = "")
    (hlines : ∀ x ∈ t.announced.drop (w.device d).announced.length, x.event ≠ .invite)
    (hnew : ∀ c, decided (w.device d) t = some c → (w.update d t).Settled c) :
    Inv (w.update d t) where
  sound d' := by
    by_cases hd : d' = d
    · subst hd
      rw [device_update]
      exact ⟨hsound.idle, hsound.active, hsound.tasks, hsound.placed, hsound.connected⟩
    · rw [device_update_ne hd]
      have hother := h.sound d'
      exact ⟨hother.idle, hother.active, hother.tasks, hother.placed, hother.connected⟩
  placer := h.placer
  taken := h.taken
  known := h.known
  invited := by
    intro d' x hx hinvite
    rcases List.mem_append.1 hx with hx | hx
    · exact h.invited hx hinvite
    · obtain ⟨x, hx, heq⟩ := List.mem_map.1 hx
      cases heq
      exact absurd hinvite (hlines x hx)
  connections := h.connections
  settled c hc := by
    rcases concluded_update.1 hc with hc | hdecided
    · have hsettled := h.settled c hc
      exact hsettled.update h (hsettled.ne_empty h) hcall
    · exact hnew c hdecided

theorem no_lines (h : t.announced = s.announced) :
    ∀ x ∈ t.announced.drop s.announced.length, x.event ≠ .invite := by
  intro x hx
  rw [h, List.drop_length] at hx
  cases hx

theorem moved (h : Inv w) (hcounted : Counted w) (hmoved : Moved w d a t)
    (hwarranted : w.Warranted d a t) : Inv (w.update d t) ∧ Counted (w.update d t) := by
  have hsound := h.sound_moved hmoved
  have ended : Ended (w.device d) (inSight (w.device d) a) t →
      Inv (w.update d t) ∧ Counted (w.update d t) := by
    intro hended
    refine ⟨h.of_update hsound (.inr (by rw [hended.state]; rfl)) (no_lines hended.announced) ?_,
      hcounted.of_ended hended ?_⟩
    · exact fun c hdecided => (h.ended_settled hended hwarranted hdecided).2.1
    · intro c hdecided
      obtain ⟨hnot, _, hwhich⟩ := h.ended_settled hended hwarranted hdecided
      exact ⟨hnot, hwhich⟩
  have quiet : t.state.call = (w.device d).state.call → t.announced = (w.device d).announced →
      (∀ {k c event}, t.Pending k c event → (w.device d).Pending k c event) →
      Inv (w.update d t) ∧ Counted (w.update d t) := by
    intro hcall hannounced hpending
    refine ⟨h.of_update hsound (.inl hcall) (no_lines hannounced) ?_,
      hcounted.of_quiet hannounced hpending⟩
    intro c hdecided
    rw [decided_eq_none hpending] at hdecided
    cases hdecided
  cases hmoved with
  | own hsight heffect =>
    cases heffect with
    | quiet hquiet => exact quiet hquiet.call hquiet.announced hquiet.pending
    | ended hended => exact ended (by rw [hsight]; exact hended)
    | announces k group c event seconds hpending hstate hplaced hannounced htasks =>
      refine ⟨h.of_update hsound (.inl (by rw [hstate])) ?_ ?_,
        hcounted.of_announces hpending hannounced htasks⟩
      · intro x hx
        rw [hannounced, List.drop_left] at hx
        obtain rfl := List.mem_singleton.1 hx
        have hholds : w.Holds c (.pending d k) d event := ⟨rfl, hpending⟩
        rcases hcounted.backed hholds with ⟨rfl, _⟩ | ⟨rfl, _⟩
        · exact fun h => by cases h
        · exact fun h => by cases h
      · intro c' hdecided
        obtain ⟨_, _, htask⟩ := hpending
        have hold := decided_eq_none (s := w.device d)
          (pending_of_set htask (fun _ _ _ _ h => by cases h) htasks)
        rw [hold] at hdecided
        cases hdecided
  | told call _ _ htold =>
    cases htold with
    | quiet hquiet => exact quiet hquiet.call hquiet.announced hquiet.pending
    | ended _ _ hended => exact ended hended
    | connects hcall hcall' _ _ _ hannounced _ hpending _ =>
      exact quiet (hcall'.trans hcall.symm) hannounced hpending

/-- A report moves a connection to a state of the room that the device is part of. -/
theorem Inv.connections_moveOn (h : Inv w) (htarget : w.target S m = some (d, a)) :
    ∀ connection ∈ w.moveOn m, connection.call ≠ "" ∧
      ∃ present, (w.rooms connection.call)[connection.position]? = some present ∧
        connection.device ∈ present := by
  cases m with
  | report i now =>
    obtain ⟨old, hold, htarget⟩ := Option.bind_eq_some_iff.1 htarget
    obtain ⟨present, hpresent, htarget⟩ := Option.bind_eq_some_iff.1 htarget
    obtain ⟨hd, _⟩ := Option.ite_none_right_eq_some.1 htarget
    intro connection hmem
    obtain ⟨j, hj⟩ := List.getElem?_of_mem hmem
    rw [moveOn, List.getElem?_modify] at hj
    split at hj
    next heq =>
      subst heq
      rw [hold] at hj
      cases hj
      exact ⟨(h.connections old (List.mem_of_getElem? hold)).1, present, hpresent, hd⟩
    next hne =>
      rw [Option.map_eq_map, Option.map_id'] at hj
      exact h.connections connection (List.mem_of_getElem? hj)
  | act | joined | again | closed => exact h.connections
  | place | ring | connect | drop => cases htarget

theorem moved_step (h : Inv w) (hcounted : Counted w) (htarget : w.target S m = some (d, a))
    (hstep : (w.device d).step a = some t) (hwarranted : w.Warranted d a t) :
    Inv { w.update d t with connections := w.moveOn m } ∧
      Counted { w.update d t with connections := w.moveOn m } := by
  obtain ⟨h', hcounted'⟩ := moved h hcounted (h.moved htarget hstep) hwarranted
  refine ⟨?_, ⟨hcounted'.concluded, hcounted'.backed, hcounted'.exclusive⟩⟩
  refine ⟨fun d' => ?_, h'.placer, h'.taken, h'.known, h'.invited, h.connections_moveOn htarget,
    h'.settled⟩
  exact (h'.sound d').mono (List.Subset.refl _) (List.Subset.refl _) fun _ h => h

/-- A device is rung for a call it has had no part in, or places it. -/
theorem begun (h : Inv w) (hcounted : Counted w) {placed : List (String × Nat)}
    (hplaced : ∀ x ∈ placed, x = (call, d) ∧ call ∉ w.placedBy.map Prod.fst)
    (hne : call ≠ "") (hknown : call ∈ (w.placedBy ++ placed).map Prod.fst)
    (hfresh : (d, call) ∉ w.taken)
    (hsound : (w.take d call placed t).Sound d t)
    (hcall : t.state.call = call ∨ t.state.call = (w.device d).state.call)
    (hpending : ∀ {k c event}, t.Pending k c event → (w.device d).Pending k c event)
    (hannounced : t.announced = (w.device d).announced ++ new)
    (hnew : ∀ x ∈ new, x.event = .invite ∧ x.call = call) :
    Inv (w.take d call placed t) ∧ Counted (w.take d call placed t) := by
  have hself : (w.take d call placed t).device d = t := device_update
  have hother : ∀ {d'}, d' ≠ d → (w.take d call placed t).device d' = w.device d' :=
    fun hd => device_update_ne hd
  have hthread : (w.take d call placed t).thread = w.thread ++ new.map (d, ·) :=
    thread_update hannounced
  have hnone := decided_eq_none hpending
  refine ⟨⟨fun d' => ?_, ?_, ?_, ?_, ?_, h.connections, ?_⟩, hcounted.of_held ?_ ?_
    (List.subset_append_left ..) fun c h => h⟩
  · by_cases hd : d' = d
    · subst hd
      rw [hself]
      exact hsound
    · rw [hother hd]
      exact (h.sound d').mono (List.subset_append_left ..) (List.subset_append_left ..)
        fun _ h => h
  · intro c d₁ d₂ h₁ h₂
    rcases List.mem_append.1 h₁ with h₁ | h₁ <;> rcases List.mem_append.1 h₂ with h₂ | h₂
    · exact h.placer h₁ h₂
    · obtain ⟨heq, hnot⟩ := hplaced _ h₂
      cases heq
      exact absurd (List.mem_map_of_mem h₁) hnot
    · obtain ⟨heq, hnot⟩ := hplaced _ h₁
      cases heq
      exact absurd (List.mem_map_of_mem h₂) hnot
    · cases (hplaced _ h₁).1
      cases (hplaced _ h₂).1
      rfl
  · intro c d' hmem
    rcases List.mem_append.1 hmem with hmem | hmem
    · exact List.mem_append_left _ (h.taken hmem)
    · cases (hplaced _ hmem).1
      exact List.mem_append_right _ (List.mem_singleton_self _)
  · intro d' c hmem
    rcases List.mem_append.1 hmem with hmem | hmem
    · exact ⟨(h.known hmem).1, List.map_subset _ (List.subset_append_left ..) (h.known hmem).2⟩
    · cases List.mem_singleton.1 hmem
      exact ⟨hne, hknown⟩
  · intro d' x hmem hinvite
    rw [hthread] at hmem
    rcases List.mem_append.1 hmem with hmem | hmem
    · obtain ⟨hne', hplaced'⟩ := h.invited hmem hinvite
      exact ⟨hne', List.map_subset _ (List.subset_append_left ..) hplaced'⟩
    · obtain ⟨x, hx, heq⟩ := List.mem_map.1 hmem
      cases heq
      obtain ⟨_, rfl⟩ := hnew x hx
      exact ⟨hne, hknown⟩
  · intro c hc
    rcases concluded_update.1 hc with hc | hdecided
    · refine (h.settled c hc).mono (List.subset_append_left ..) (List.subset_append_left ..) rfl
        h.taken fun d' hd' hne' => ?_
      by_cases hd : d' = d
      · subst hd
        rw [hself]
        rcases hcall with hcall | hcall
        · rw [hcall]
          rintro rfl
          exact hfresh hd'
        · rw [hcall]
          exact hne'
      · rw [hother hd]
        exact hne'
    · rw [hnone] at hdecided
      cases hdecided
  · rintro c (⟨d', k⟩ | i) d'' event hold
    · obtain ⟨rfl, hk⟩ := hold
      by_cases hd : d' = d
      · subst hd
        rw [hself] at hk
        exact ⟨rfl, hpending hk⟩
      · rw [hother hd] at hk
        exact ⟨rfl, hk⟩
    · obtain ⟨x, hx, hc, rfl, hinvite⟩ := hold
      rw [hthread] at hx
      rcases Nat.lt_or_ge i w.thread.length with hlt | hge
      · rw [List.getElem?_append_left hlt] at hx
        exact ⟨x, hx, hc, rfl, hinvite⟩
      · rw [List.getElem?_append_right hge] at hx
        obtain ⟨x', hx', heq⟩ := List.mem_map.1 (List.mem_of_getElem? hx)
        cases heq
        exact absurd (hnew _ hx').1 hinvite
  · exact fun c hc => concluded_update.2 (.inl hc)

theorem place_step (h : Inv w) (hcounted : Counted w) (hne : call ≠ "")
    (hfresh : call ∉ w.placedBy.map Prod.fst) (hphase : (w.device d).state.phase = .idle)
    (group fromAccount : String) (awaited now : Nat) :
    Inv (w.take d call [(call, d)] ((w.device d).place call group fromAccount awaited now)) ∧
      Counted (w.take d call [(call, d)]
        ((w.device d).place call group fromAccount awaited now)) := by
  obtain ⟨hdialling, hcall, hconnected, _, hannounced, htasks⟩ :=
    place_effect call group fromAccount awaited now hphase
  refine begun h hcounted ?_ hne ?_ ?_ ⟨fun hidle => ?_, fun _ => ?_, ?_, fun _ => ?_, ?_⟩
    (.inl hcall) (pending_of_concat (fun _ _ _ _ h => by cases h) htasks) hannounced ?_
  · intro x hx
    exact ⟨List.mem_singleton.1 hx, hfresh⟩
  · rw [List.map_append]
    exact List.mem_append_right _ (List.mem_singleton_self _)
  · exact fun htaken => hfresh (h.known htaken).2
  · rw [hdialling] at hidle
    cases hidle
  · rw [hcall]
    exact ⟨hne, List.mem_append_right _ (List.mem_singleton_self _)⟩
  · intro task htask c hc
    rw [htasks] at htask
    rcases List.mem_append.1 htask with htask | htask
    · exact (h.sound d).tasks task htask c hc
    · obtain rfl := List.mem_singleton.1 htask
      cases hc
      exact hne
  · rw [hcall]
    exact List.mem_append_right _ (List.mem_singleton_self _)
  · exact fun hconnected' => absurd hconnected hconnected'
  · intro x hx
    obtain rfl := List.mem_singleton.1 hx
    exact ⟨rfl, rfl⟩

theorem ring_step (h : Inv w) (hcounted : Counted w) (hne : call ≠ "")
    (hknown : call ∈ w.placedBy.map Prod.fst) (hfresh : (d, call) ∉ w.taken)
    (group fromAccount : String) (now : Nat) :
    Inv (w.take d call [] ((w.device d).receive group call fromAccount now)) ∧
      Counted (w.take d call [] ((w.device d).receive group call fromAccount now)) := by
  have hnone : ∀ x ∈ ([] : List (String × Nat)),
      x = (call, d) ∧ call ∉ w.placedBy.map Prod.fst := fun x hx => by cases hx
  have hknown' : call ∈ (w.placedBy ++ []).map Prod.fst := by rwa [List.append_nil]
  by_cases hphase : (w.device d).state.phase = .idle
  · obtain ⟨hincoming, hcall, hconnected, hplaced, hannounced, htasks⟩ :=
      receive_effect call group fromAccount now hphase
    refine begun h hcounted hnone hne hknown' hfresh
      ⟨fun hidle => ?_, fun _ => ?_, ?_, fun hplaced' => ?_, ?_⟩ (.inl hcall) ?_
      (hannounced.trans (List.append_nil _).symm) fun x hx => by cases hx
    · rw [hincoming] at hidle
      cases hidle
    · rw [hcall]
      exact ⟨hne, List.mem_append_right _ (List.mem_singleton_self _)⟩
    · rw [htasks]
      exact (h.sound d).tasks
    · rw [hplaced] at hplaced'
      cases hplaced'
    · exact fun hconnected' => absurd hconnected hconnected'
    · rintro k c event ⟨group', connectedAt, htask⟩
      exact ⟨group', connectedAt, htasks ▸ htask⟩
  · have hquiet : Quiet (w.device d) ((w.device d).receive group call fromAccount now) :=
      receive_busy hphase
    refine begun h hcounted hnone hne hknown' hfresh ?_ (.inr hquiet.call) hquiet.pending
      (hquiet.announced.trans (List.append_nil _).symm) fun x hx => by cases hx
    exact ((h.sound d).quiet hquiet).mono (List.subset_append_left ..)
      (List.subset_append_left ..) fun _ h => h

/-! ### The rooms -/

theorem rooms_setRoom_ne (hne : c ≠ call) : (w.setRoom call present).rooms c = w.rooms c :=
  Function.update_of_ne hne ..

theorem rooms_setRoom : (w.setRoom call present).rooms call = w.rooms call ++ [present] :=
  Function.update_self ..

theorem current_setRoom : (w.setRoom call present).current call = present := by
  unfold current
  rw [rooms_setRoom, List.getLastD_concat]

theorem getElem?_setRoom {i : Nat} (h : (w.rooms c)[i]? = some x) :
    ((w.setRoom call present).rooms c)[i]? = some x := by
  by_cases hc : c = call
  · subst hc
    rw [rooms_setRoom, List.getElem?_append_left (List.getElem?_eq_some_iff.1 h).1]
    exact h
  · rwa [rooms_setRoom_ne hc]

/-- The history of a room only grows. -/
theorem EverTwo.setRoom (h : w.EverTwo c) : (w.setRoom call present).EverTwo c := by
  obtain ⟨x, hx, htwo⟩ := h
  obtain ⟨i, hi⟩ := List.getElem?_of_mem hx
  exact ⟨x, List.mem_of_getElem? (getElem?_setRoom hi), htwo⟩

theorem Counted.setRoom (h : Counted w) : Counted (w.setRoom call present) :=
  h.of_held (fun {_ token _ _} hold => by cases token <;> exact hold) (List.Subset.refl _)
    (List.Subset.refl _) fun _ h => h.setRoom

theorem Inv.setRoom (h : Inv w)
    (hsettled : call ∈ w.concluded → (w.setRoom call present).Settled call) :
    Inv (w.setRoom call present) where
  sound d := (h.sound d).mono (List.Subset.refl _) (List.Subset.refl _) fun _ h => h.setRoom
  placer := h.placer
  taken := h.taken
  known := h.known
  invited := h.invited
  connections connection hmem := by
    obtain ⟨hne, present, hpresent, hd⟩ := h.connections connection hmem
    exact ⟨hne, present, getElem?_setRoom hpresent, hd⟩
  settled c hc := by
    by_cases heq : c = call
    · subst heq
      exact hsettled hc
    · exact (h.settled c hc).mono (List.Subset.refl _) (List.Subset.refl _)
        (rooms_setRoom_ne heq) h.taken fun _ _ hne => hne

/-- Whoever goes leaves the call as settled as it was. -/
theorem Settled.drop (h : w.Settled call) :
    (w.setRoom call ((w.current call).filter (· ≠ d))).Settled call := by
  rcases h with ⟨d', hd', hcall, halone, hever⟩ | ⟨hnever, d', hd', hcall⟩
  · refine .inl ⟨d', hd', hcall, fun d'' hmem => ?_, hever.setRoom⟩
    rw [current_setRoom] at hmem
    exact halone d'' (List.mem_filter.1 hmem).1
  · refine .inr ⟨?_, d', hd', hcall⟩
    rintro ⟨present, hpresent, d₁, h₁, d₂, h₂, hne⟩
    rw [rooms_setRoom] at hpresent
    rcases List.mem_append.1 hpresent with hold | hlast
    · exact hnever ⟨present, hold, d₁, h₁, d₂, h₂, hne⟩
    · obtain rfl := List.mem_singleton.1 hlast
      have hd₁ := (List.mem_filter.1 h₁).1
      have hd₂ := (List.mem_filter.1 h₂).1
      unfold current at hd₁ hd₂
      cases hrooms : (w.rooms call).getLast? with
      | none =>
        rw [List.getLastD_eq_getLast?, hrooms] at hd₁
        cases hd₁
      | some last =>
        rw [List.getLastD_eq_getLast?, hrooms] at hd₁ hd₂
        exact hnever ⟨last, List.mem_of_getLast? hrooms, d₁, hd₁, d₂, hd₂, hne⟩

theorem connect_step {k : Nat} (h : Inv w) (hcounted : Counted w)
    (htask : (w.device d).tasks[k]? = some (.joining call)) (hnot : call ∉ w.concluded) :
    Inv { w.setRoom call ((w.current call).insert d) with
      connections := w.connections ++ [⟨d, k, call, (w.rooms call).length⟩] } ∧
    Counted { w.setRoom call ((w.current call).insert d) with
      connections := w.connections ++ [⟨d, k, call, (w.rooms call).length⟩] } := by
  have h' : Inv (w.setRoom call ((w.current call).insert d)) :=
    h.setRoom fun hc => absurd hc hnot
  have hcounted' : Counted (w.setRoom call ((w.current call).insert d)) := hcounted.setRoom
  refine ⟨⟨fun d' => ?_, h'.placer, h'.taken, h'.known, h'.invited, ?_, h'.settled⟩,
    ⟨hcounted'.concluded, hcounted'.backed, hcounted'.exclusive⟩⟩
  · exact (h'.sound d').mono (List.Subset.refl _) (List.Subset.refl _) fun _ h => h
  · intro connection hmem
    rcases List.mem_append.1 hmem with hold | hlast
    · exact h'.connections connection hold
    · obtain rfl := List.mem_singleton.1 hlast
      refine ⟨(h.sound d).tasks _ (List.mem_of_getElem? htask) call rfl,
        (w.current call).insert d, ?_, List.mem_insert_self⟩
      show ((w.setRoom call ((w.current call).insert d)).rooms call)[(w.rooms call).length]? = _
      rw [rooms_setRoom, List.getElem?_concat_length]

/-! ## Every run -/

/-- What every world has that has been reached by moves within the guard. -/
def Orderly (w : World) : Prop := Inv w ∧ Counted w

theorem not_holds_start : ¬ start.Holds c token d event := by
  cases token with
  | pending d' k =>
    rintro ⟨_, group, connectedAt, h⟩
    cases h
  | line i =>
    rintro ⟨x, h, _⟩
    cases h

theorem orderly_start : Orderly start := by
  refine ⟨⟨fun d => ⟨fun _ => ⟨rfl, rfl⟩, fun h => absurd rfl h, ?_, ?_, fun h => absurd rfl h⟩,
    ?_, ?_, ?_, ?_, ?_, ?_⟩, ⟨fun h => absurd h not_holds_start, fun h => absurd h not_holds_start,
      fun h => absurd h not_holds_start⟩⟩
  · exact fun task htask => by cases htask
  · exact fun hplaced => by cases hplaced
  · exact fun h => by cases h
  · exact fun h => by cases h
  · exact fun h => by cases h
  · exact fun h => by cases h
  · exact fun connection h => by cases h
  · exact fun c h => by cases h

theorem Orderly.target_step (h : Orderly w) (hguard : ∀ d a t, w.target S m = some (d, a) →
      (w.device d).step a = some t → w.Warranted d a t)
    (hstep : ((w.target S m).bind fun (d, a) =>
      ((w.device d).step a).map fun t => { w.update d t with connections := w.moveOn m }) =
        some w') : Orderly w' := by
  obtain ⟨⟨d, a⟩, htarget, hstep⟩ := Option.bind_eq_some_iff.1 hstep
  obtain ⟨t, ht, rfl⟩ := Option.map_eq_some_iff.1 hstep
  exact moved_step h.1 h.2 htarget ht (hguard d a t htarget ht)

/-- The guard on a move that a device makes. -/
theorem warranted_of_guard (h : (match w.target S m with
      | some (d, a) => ((w.device d).step a).all fun t => w.Warranted d a t
      | none => true) = true) (d : Nat) (a : Action) (t : Calls)
    (htarget : w.target S m = some (d, a)) (hstep : (w.device d).step a = some t) :
    w.Warranted d a t := by
  rw [htarget] at h
  dsimp only at h
  rw [hstep] at h
  exact of_decide_eq_true h

theorem Orderly.step (h : Orderly w) (hguard : w.guard S m) (hstep : w.step S m = some w') :
    Orderly w' := by
  cases m with
  | place d call group awaited now =>
    obtain ⟨⟨hne, hfresh⟩, hstep⟩ := Option.ite_none_right_eq_some.1 hstep
    split at hstep
    · cases hstep
      exact h
    next hbusy =>
      cases hstep
      have hphase : (w.device d).state.phase = .idle := by simpa [busy] using hbusy
      exact place_step h.1 h.2 hne hfresh hphase group (S.account d) awaited now
  | ring d i now =>
    simp only [World.step] at hstep
    split at hstep
    next sender group call seconds hline =>
      obtain ⟨⟨_, hfresh⟩, hstep⟩ := Option.ite_none_right_eq_some.1 hstep
      cases hstep
      obtain ⟨hne, hknown⟩ := h.1.invited (List.mem_of_getElem? hline) rfl
      exact ring_step h.1 h.2 hne hknown hfresh group (S.account sender) now
    · cases hstep
  | connect d k =>
    simp only [World.step] at hstep
    simp only [World.guard] at hguard
    split at hstep
    next call htask =>
      cases hstep
      rw [htask] at hguard
      exact connect_step h.1 h.2 htask (of_decide_eq_true hguard)
    · cases hstep
  | drop d call =>
    cases hstep
    exact ⟨h.1.setRoom fun hc => (h.1.settled call hc).drop, h.2.setRoom⟩
  | act | joined | report | again | closed =>
    exact h.target_step (warranted_of_guard hguard) hstep

/-- When whoever hangs up knows what has become of the call, and nobody enters the room of a call
that was concluded, every call has one conclusion at most: `ended` if two have been in its room at
once, or `missed` from its caller. -/
theorem one_conclusion (h : Reach (step S) (fun w m => w.guard S m) start w) (call : String) :
    w.OneConclusion call := by
  have orderly : Orderly w := h.invariant orderly_start fun h hguard hstep => h.step hguard hstep
  obtain ⟨_, hcounted⟩ := orderly
  refine ⟨fun {i j d d' x y} hi hj hx hy hinvite hinvite' => ?_, fun {i d x} hi hx hended => ?_,
    fun {i d x} hi hx hmissed => ?_⟩
  · have held : w.Holds call (.line i) d x.event := ⟨x, hi, hx, rfl, hinvite⟩
    have held' : w.Holds call (.line j) d' y.event := ⟨y, hj, hy, rfl, hinvite'⟩
    injection hcounted.exclusive held held'
  · have held : w.Holds call (.line i) d .ended := ⟨x, hi, hx, hended, by decide⟩
    rcases hcounted.backed held with ⟨_, htwo⟩ | ⟨heq, _⟩
    · exact htwo
    · cases heq
  · have held : w.Holds call (.line i) d .missed := ⟨x, hi, hx, hmissed, by decide⟩
    rcases hcounted.backed held with ⟨heq, _⟩ | ⟨_, hplaced⟩
    · cases heq
    · exact hplaced

/-- Each device is an account of its own. -/
def threeAccounts : Setup where
  account d := toString d
  name d := toString d

/-- Device 0 calls, 1 and 2 answer and join; 0 leaves first, then 2, and 1 is told so in time. -/
def callOfThree : List Move :=
  List.flatten [
    [.place 0 "c" "g" 2 1000, .act 0 (.resolve 0 1001), .act 0 (.resolve 0 1002), .connect 0 0,
      .joined 0 1003],
    [.ring 1 0 1100, .act 1 .accept, .act 1 (.resolve 0 1101), .connect 1 0, .joined 1 1102,
      .report 0 1103],
    [.ring 2 0 1200, .act 2 .accept, .act 2 (.resolve 0 1201), .connect 2 0, .joined 2 1202,
      .report 0 1203, .report 1 1203],
    [.act 0 .hang, .drop 0 "c", .report 1 5000, .report 2 5000, .act 0 (.resolve 1 5001)],
    [.act 2 .hang, .drop 2 "c", .report 1 9000, .act 1 (.resolve 1 9001)]]

theorem one_conclusion_callOfThree :
    ∃ w, Reach (step threeAccounts) (fun w m => w.guard threeAccounts m) start w ∧
      w.thread = [(0, ⟨"g", .invite, "c", 0⟩), (1, ⟨"g", .ended, "c", 8⟩)] ∧
      w.OneConclusion "c" := by
  have evaluated : (run (fun w m => if w.guard threeAccounts m then w.step threeAccounts m
      else none) start callOfThree).map World.thread =
        some [(0, ⟨"g", .invite, "c", 0⟩), (1, ⟨"g", .ended, "c", 8⟩)] := by decide +kernel
  obtain ⟨w, hrun, hthread⟩ := Option.map_eq_some_iff.1 evaluated
  have reach := reach_of_run_guarded hrun
  exact ⟨w, reach, hthread, one_conclusion reach "c"⟩

/-- Device 0 calls and 1 answers. As 1 leaves, 2 answers too: it enters the room that 0 has just
been told is empty, and is let down by 0's departure. -/
def lateAnswer : List Move :=
  List.flatten [
    [.place 0 "c" "g" 2 1000, .act 0 (.resolve 0 1001), .act 0 (.resolve 0 1002), .connect 0 0,
      .joined 0 1003],
    [.ring 1 0 1100, .act 1 .accept, .act 1 (.resolve 0 1101), .connect 1 0, .joined 1 1102,
      .report 0 1103],
    [.ring 2 0 1200, .act 2 .accept, .act 2 (.resolve 0 1201)],
    [.act 1 .hang, .drop 1 "c", .connect 2 0, .joined 2 5000, .report 0 5001],
    [.drop 0 "c", .act 0 (.resolve 1 5002), .report 2 5003, .act 2 (.resolve 1 5004)]]

/-- Both 0 and 2 were the last one out. -/
theorem late_answer_concludes_twice :
    ∃ w, run (step threeAccounts) start lateAnswer = some w ∧
      w.thread = [(0, ⟨"g", .invite, "c", 0⟩), (0, ⟨"g", .ended, "c", 4⟩),
        (2, ⟨"g", .ended, "c", 0⟩)] ∧
      ¬ w.OneConclusion "c" := by
  have evaluated : (run (step threeAccounts) start lateAnswer).map World.thread =
      some [(0, ⟨"g", .invite, "c", 0⟩), (0, ⟨"g", .ended, "c", 4⟩),
        (2, ⟨"g", .ended, "c", 0⟩)] := by decide +kernel
  obtain ⟨w, hrun, hthread⟩ := Option.map_eq_some_iff.1 evaluated
  refine ⟨w, hrun, hthread, fun h => ?_⟩
  have first : w.thread[1]? = some (0, ⟨"g", .ended, "c", 4⟩) := by
    rw [hthread]
    rfl
  have second : w.thread[2]? = some (2, ⟨"g", .ended, "c", 0⟩) := by
    rw [hthread]
    rfl
  have same := h.unique first second rfl rfl (by decide) (by decide)
  cases same

end World

end Whispee.Calls
