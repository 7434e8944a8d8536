import Whispee.Bytes
import Whispee.Lib.Base64
import Whispee.Lib.Transition
import Mathlib.Data.List.Nodup
import Mathlib.Logic.Function.Basic

/-!
# The hub

`Hub` of `crates/server/src/stream.rs`, of any number of instances over one database, one step for
each of its awaits: what a handler publishes, the task that hands it to `pg_notify`, the task that
listens, and the receivers. A publication is numbered, which nothing in the source reads.

An instance listens to the channel it notifies, and Postgres notifies a session of what it sent
itself: what an instance publishes comes back to it.
-/

namespace Whispee.Server.Stream

open Transition

/-! ## Notices and their wire -/

/-- `CAPACITY`, of a receiver's queue. -/
def CAPACITY : Nat := 64

/-- Ceiling for the payload of a `NOTIFY`. -/
def NOTIFY_MAX : Nat := 7800

/-- Depth of the outbound queue. -/
def RELAY_CAPACITY : Nat := 1024

inductive Notice where
  | envelope (groupId : Bytes) (seq : Int)
  | signal (groupId payload : Bytes)
  deriving DecidableEq, Repr

def Notice.groupId : Notice → Bytes
  | .envelope groupId _ => groupId
  | .signal groupId _ => groupId

inductive Wire where
  | envelope (g : String) (s : Int)
  | signal (g p : String)
  deriving DecidableEq, Repr

def Wire.ofNotice : Notice → Wire
  | .envelope groupId seq => .envelope (toHex groupId) seq
  | .signal groupId payload => .signal (toHex groupId) (Base64.encode payload)

def Wire.intoNotice : Wire → Option Notice
  | .envelope g s => (fromHex g).map (.envelope · s)
  | .signal g p => (fromHex g).bind fun groupId => (Base64.decode p).map (.signal groupId ·)

/-- `serde_json::to_string`, of what needs no escape. -/
def Wire.text : Wire → String
  | .envelope g s => "\x7b\"k\":\"e\",\"g\":\"" ++ g ++ "\",\"s\":" ++ toString s ++ "\x7d"
  | .signal g p => "\x7b\"k\":\"s\",\"g\":\"" ++ g ++ "\",\"p\":\"" ++ p ++ "\"\x7d"

theorem Wire.intoNotice_ofNotice (notice : Notice) :
    (Wire.ofNotice notice).intoNotice = some notice := by
  cases notice <;> simp [Wire.ofNotice, Wire.intoNotice]

/-! ## Instances -/

variable {ι : Type u}

/-- A publication: its number, the instance, and what was published. -/
structure Publication (ι : Type u) where
  id : Nat
  origin : ι
  notice : Notice
  deriving DecidableEq

/-- What `pg_notify` was given of a publication. -/
structure Notification (ι : Type u) where
  id : Nat
  origin : ι
  wire : Wire
  deriving DecidableEq

def Publication.notification (x : Publication ι) : Notification ι where
  id := x.id
  origin := x.origin
  wire := .ofNotice x.notice

/-- A `broadcast::Receiver`: `since` counts the publications before it subscribed. -/
structure Receiver (ι : Type u) where
  groupId : Bytes
  since : Nat
  queue : List (Publication ι)
  received : List (Publication ι)

/-- `inbox` is what its session with Postgres has been notified of; `none` while it does not
listen. -/
structure Instance (ι : Type u) where
  channels : List Bytes
  receivers : List (Receiver ι)
  relay : Option (List (Publication ι))
  inbox : Option (List (Notification ι))

/-- What a receiver that lags behind keeps is the end of its queue. -/
def Receiver.push (x : Publication ι) (r : Receiver ι) : Receiver ι :=
  if r.groupId = x.notice.groupId then
    { r with queue := (r.queue ++ [x]).drop (r.queue.length + 1 - CAPACITY) }
  else r

def Receiver.recv (r : Receiver ι) : Option (Receiver ι) :=
  match r.queue with
  | [] => none
  | x :: queue => some { r with queue, received := r.received ++ [x] }

namespace Instance

variable (s : Instance ι)

def publishLocal (x : Publication ι) : Instance ι :=
  let groupId := x.notice.groupId
  if s.channels.contains groupId then
    if s.receivers.any (·.groupId = groupId) then
      { s with receivers := s.receivers.map (.push x) }
    else { s with channels := s.channels.erase groupId }
  else s

/-- `relay.try_send`. -/
def trySend (x : Publication ι) : Instance ι :=
  { s with relay := s.relay.map fun queue =>
      if queue.length < RELAY_CAPACITY then queue ++ [x] else queue }

def publish (x : Publication ι) : Instance ι := (s.trySend x).publishLocal x

def subscribe (groupId : Bytes) (since : Nat) : Instance ι :=
  { s with
    channels := s.channels.insert groupId
    receivers := s.receivers ++ [⟨groupId, since, [], []⟩] }

def recv (index : Nat) : Option (Instance ι) :=
  (s.receivers[index]?.bind Receiver.recv).map fun r =>
    { s with receivers := s.receivers.set index r }

end Instance

theorem notification_injective : Function.Injective (Publication.notification (ι := ι)) := by
  intro x y h
  obtain ⟨hid, horigin, hwire⟩ := (Notification.mk.injEq ..).mp h
  have hnotice := congrArg Wire.intoNotice hwire
  rw [Wire.intoNotice_ofNotice, Wire.intoNotice_ofNotice] at hnotice
  cases x
  cases y
  exact (Publication.mk.injEq ..).mpr ⟨hid, horigin, Option.some.inj hnotice⟩

theorem publishLocal_frame (x : Publication ι) (t : Instance ι) :
    (t.publishLocal x).relay = t.relay ∧ (t.publishLocal x).inbox = t.inbox := by
  unfold Instance.publishLocal
  dsimp only
  split
  · split <;> exact ⟨rfl, rfl⟩
  · exact ⟨rfl, rfl⟩

/-- A receiver after a local publication is one from before it, or one of the group that was given
it. -/
theorem mem_publishLocal {x : Publication ι} {t : Instance ι} {r' : Receiver ι}
    (h : r' ∈ (t.publishLocal x).receivers) :
    ∃ r ∈ t.receivers, r' = r ∨ r.groupId = x.notice.groupId ∧ r' = r.push x := by
  unfold Instance.publishLocal at h
  dsimp only at h
  split at h
  · split at h
    · obtain ⟨r, hr, rfl⟩ := List.mem_map.1 h
      refine ⟨r, hr, ?_⟩
      by_cases hgroup : r.groupId = x.notice.groupId
      · exact .inr ⟨hgroup, rfl⟩
      · exact .inl (if_neg hgroup)
    · exact ⟨r', h, .inl rfl⟩
  · exact ⟨r', h, .inl rfl⟩

/-! ## The system -/

/-- `notified` are the publications given to `pg_notify`, in order. -/
structure System (ι : Type u) where
  instances : ι → Instance ι
  published : Nat
  notified : List (Publication ι)

inductive Action (ι : Type u) where
  | attach (i : ι)
  | listen (i : ι)
  /-- The session with Postgres is lost. -/
  | cut (i : ι)
  | subscribe (i : ι) (groupId : Bytes)
  /-- The receiver is dropped. -/
  | leave (i : ι) (index : Nat)
  | publish (i : ι) (notice : Notice)
  /-- The outbound task takes the next notice off its queue. -/
  | relay (i : ι) (reached : Bool)
  /-- The listener takes the next notification. -/
  | hear (i : ι)
  | recv (i : ι) (index : Nat)

variable [DecidableEq ι]

namespace System

variable (s : System ι)

def set (i : ι) (t : Instance ι) : System ι :=
  { s with instances := Function.update s.instances i t }

/-- `pg_notify`: every session that listens is notified. -/
def notify (x : Publication ι) : System ι :=
  { s with
    instances := fun j => { s.instances j with
      inbox := (s.instances j).inbox.map (· ++ [x.notification]) }
    notified := s.notified ++ [x] }

end System

def step (s : System ι) : Action ι → Option (System ι)
  | .attach i =>
    if (s.instances i).relay.isSome then none
    else some (s.set i { s.instances i with relay := some [] })
  | .listen i =>
    if (s.instances i).relay.isNone ∨ (s.instances i).inbox.isSome then none
    else some (s.set i { s.instances i with inbox := some [] })
  | .cut i => some (s.set i { s.instances i with inbox := none })
  | .subscribe i groupId => some (s.set i ((s.instances i).subscribe groupId s.published))
  | .leave i index => some (s.set i { s.instances i with
      receivers := (s.instances i).receivers.eraseIdx index })
  | .publish i notice =>
    some { s.set i ((s.instances i).publish ⟨s.published, i, notice⟩) with
      published := s.published + 1 }
  | .relay i reached =>
    match (s.instances i).relay with
    | some (x :: queue) =>
      let taken := s.set i { s.instances i with relay := some queue }
      if (Wire.ofNotice x.notice).text.utf8ByteSize > NOTIFY_MAX then some taken
      else if reached then some (taken.notify x) else some taken
    | _ => none
  | .hear i =>
    match (s.instances i).inbox with
    | some (n :: inbox) =>
      let taken := { s.instances i with inbox := some inbox }
      match n.wire.intoNotice with
      | some notice => some (s.set i (taken.publishLocal ⟨n.id, n.origin, notice⟩))
      | none => some (s.set i taken)
    | _ => none
  | .recv i index => ((s.instances i).recv index).map (s.set i)

/-- Instances that have just been started. -/
def started : System ι where
  instances := fun _ => ⟨[], [], none, none⟩
  published := 0
  notified := []

/-! ## What is asked of it -/

/-- No receiver is given a publication twice. -/
def System.DeliveredOnce (s : System ι) : Prop :=
  ∀ i, ∀ r ∈ (s.instances i).receivers, r.received.Nodup

/-- No publication is given to the database twice, and none that no handler made. -/
def System.NotifiedOnce (s : System ι) : Prop :=
  s.notified.Nodup ∧ ∀ x ∈ s.notified, x.id < s.published

/-- The listener of an instance is about to take a notification of its own, and a receiver of that
group had subscribed before the publication. -/
def System.echoes (s : System ι) : Action ι → Bool
  | .hear i =>
    match (s.instances i).inbox with
    | some (n :: _) => n.origin = i && n.wire.intoNotice.any fun notice =>
        (s.instances i).receivers.any fun r => r.groupId = notice.groupId && r.since ≤ n.id
    | _ => false
  | _ => false

/-! ## What goes to the database -/

/-- A publication is in the outbound queue of its instance until it is notified, and in an inbox
only then. -/
structure System.Relayed (s : System ι) : Prop where
  notified : s.NotifiedOnce
  relay : ∀ i queue, (s.instances i).relay = some queue → queue.Nodup ∧
    ∀ x ∈ queue, x.origin = i ∧ x.id < s.published ∧ x ∉ s.notified
  inbox : ∀ i inbox, (s.instances i).inbox = some inbox → inbox.Nodup ∧
    ∀ n ∈ inbox, ∃ x ∈ s.notified, n = x.notification

omit [DecidableEq ι] in
theorem relayed_started : (started : System ι).Relayed where
  notified := ⟨List.nodup_nil, fun _ h => by cases h⟩
  relay := fun _ _ h => by cases h
  inbox := fun _ _ h => by cases h

variable {s s' : System ι} {t : Instance ι}

@[simp] theorem set_self (s : System ι) (i : ι) (t : Instance ι) : (s.set i t).instances i = t :=
  Function.update_self ..

theorem set_of_ne (s : System ι) (t : Instance ι) (h : j ≠ i) :
    (s.set i t).instances j = s.instances j :=
  Function.update_of_ne h ..

/-- A step of one instance that takes what it likes off its two queues. -/
theorem System.Relayed.set (h : s.Relayed)
    (hrelay : ∀ queue, t.relay = some queue →
      queue = [] ∨ ∃ old, (s.instances i).relay = some old ∧ queue.Sublist old)
    (hinbox : ∀ inbox, t.inbox = some inbox →
      inbox = [] ∨ ∃ old, (s.instances i).inbox = some old ∧ inbox.Sublist old) :
    (s.set i t).Relayed where
  notified := h.notified
  relay := fun j queue hqueue => by
    rcases eq_or_ne j i with rfl | hne
    · rw [set_self] at hqueue
      rcases hrelay queue hqueue with rfl | ⟨old, hold, hsub⟩
      · exact ⟨List.nodup_nil, fun _ hx => by cases hx⟩
      · obtain ⟨hnodup, hall⟩ := h.relay j old hold
        exact ⟨hnodup.sublist hsub, fun x hx => hall x (hsub.subset hx)⟩
    · rw [set_of_ne s t hne] at hqueue
      exact h.relay j queue hqueue
  inbox := fun j inbox hbox => by
    rcases eq_or_ne j i with rfl | hne
    · rw [set_self] at hbox
      rcases hinbox inbox hbox with rfl | ⟨old, hold, hsub⟩
      · exact ⟨List.nodup_nil, fun _ hx => by cases hx⟩
      · obtain ⟨hnodup, hall⟩ := h.inbox j old hold
        exact ⟨hnodup.sublist hsub, fun n hn => hall n (hsub.subset hn)⟩
    · rw [set_of_ne s t hne] at hbox
      exact h.inbox j inbox hbox

omit [DecidableEq ι] in
theorem System.Relayed.notify (h : s.Relayed) (hx : x.id < s.published) (hnew : x ∉ s.notified)
    (hqueued : ∀ i queue, (s.instances i).relay = some queue → x ∉ queue) :
    (s.notify x).Relayed where
  notified := by
    refine ⟨List.nodup_append_comm.1 (List.nodup_cons.2 ⟨hnew, h.notified.1⟩), fun y hy => ?_⟩
    rcases List.mem_append.1 hy with hy | hy
    · exact h.notified.2 y hy
    · exact List.mem_singleton.1 hy ▸ hx
  relay := fun i queue hqueue => by
    obtain ⟨hnodup, hall⟩ := h.relay i queue hqueue
    refine ⟨hnodup, fun y hy => ⟨(hall y hy).1, (hall y hy).2.1, fun hmem => ?_⟩⟩
    rcases List.mem_append.1 hmem with hmem | hmem
    · exact (hall y hy).2.2 hmem
    · exact hqueued i queue hqueue (List.mem_singleton.1 hmem ▸ hy)
  inbox := fun i inbox hinbox => by
    obtain ⟨old, hold, rfl⟩ := Option.map_eq_some_iff.1 hinbox
    obtain ⟨hnodup, hall⟩ := h.inbox i old hold
    have hfresh : x.notification ∉ old := fun hmem => by
      obtain ⟨y, hy, heq⟩ := hall _ hmem
      exact hnew (notification_injective heq ▸ hy)
    refine ⟨List.nodup_append_comm.1 (List.nodup_cons.2 ⟨hfresh, hnodup⟩), fun n hn => ?_⟩
    rcases List.mem_append.1 hn with hn | hn
    · obtain ⟨y, hy, heq⟩ := hall n hn
      exact ⟨y, List.mem_append_left _ hy, heq⟩
    · exact ⟨x, List.mem_append_right _ (List.mem_singleton.2 rfl), List.mem_singleton.1 hn⟩

theorem relayed_publish (h : s.Relayed) (i : ι) (notice : Notice) :
    System.Relayed { s.set i ((s.instances i).publish ⟨s.published, i, notice⟩) with
      published := s.published + 1 } where
  notified := ⟨h.notified.1, fun x hx => Nat.lt_succ_of_lt (h.notified.2 x hx)⟩
  relay := fun j queue hqueue => by
    dsimp only at hqueue
    rcases eq_or_ne j i with rfl | hne
    · rw [set_self, Instance.publish, (publishLocal_frame _ _).1] at hqueue
      obtain ⟨old, hold, rfl⟩ := Option.map_eq_some_iff.1 hqueue
      obtain ⟨hnodup, hall⟩ := h.relay j old hold
      have hkept : ∀ x ∈ old, x.origin = j ∧ x.id < s.published + 1 ∧ x ∉ s.notified :=
        fun x hx => ⟨(hall x hx).1, Nat.lt_succ_of_lt (hall x hx).2.1, (hall x hx).2.2⟩
      split
      · have hfresh : (⟨s.published, j, notice⟩ : Publication ι) ∉ old :=
          fun hmem => absurd (hall _ hmem).2.1 (Nat.lt_irrefl _)
        refine ⟨List.nodup_append_comm.1 (List.nodup_cons.2 ⟨hfresh, hnodup⟩), fun x hx => ?_⟩
        rcases List.mem_append.1 hx with hx | hx
        · exact hkept x hx
        · rw [List.mem_singleton.1 hx]
          exact ⟨rfl, Nat.lt_succ_self _, fun hmem =>
            absurd (h.notified.2 _ hmem) (Nat.lt_irrefl _)⟩
      · exact ⟨hnodup, hkept⟩
    · rw [set_of_ne s _ hne] at hqueue
      obtain ⟨hnodup, hall⟩ := h.relay j queue hqueue
      exact ⟨hnodup, fun x hx =>
        ⟨(hall x hx).1, Nat.lt_succ_of_lt (hall x hx).2.1, (hall x hx).2.2⟩⟩
  inbox := fun j inbox hinbox => by
    dsimp only at hinbox
    rcases eq_or_ne j i with rfl | hne
    · rw [set_self, Instance.publish, (publishLocal_frame _ _).2] at hinbox
      exact h.inbox j inbox hinbox
    · rw [set_of_ne s _ hne] at hinbox
      exact h.inbox j inbox hinbox

theorem relayed_step (h : s.Relayed) (hstep : step s a = some s') : s'.Relayed := by
  have keepRelay : ∀ {i}, ∀ queue, (s.instances i).relay = some queue →
      queue = [] ∨ ∃ old, (s.instances i).relay = some old ∧ queue.Sublist old :=
    fun queue hqueue => .inr ⟨queue, hqueue, .refl _⟩
  have keepInbox : ∀ {i}, ∀ inbox, (s.instances i).inbox = some inbox →
      inbox = [] ∨ ∃ old, (s.instances i).inbox = some old ∧ inbox.Sublist old :=
    fun inbox hinbox => .inr ⟨inbox, hinbox, .refl _⟩
  cases a with
  | attach i =>
    rw [step] at hstep
    split at hstep
    · cases hstep
    · cases hstep
      exact h.set (fun queue hqueue => .inl (Option.some.inj hqueue).symm) keepInbox
  | listen i =>
    rw [step] at hstep
    split at hstep
    · cases hstep
    · cases hstep
      exact h.set keepRelay fun inbox hinbox => .inl (Option.some.inj hinbox).symm
  | cut i =>
    cases hstep
    exact h.set keepRelay fun inbox hinbox => by cases hinbox
  | subscribe i groupId =>
    cases hstep
    exact h.set keepRelay keepInbox
  | leave i index =>
    cases hstep
    exact h.set keepRelay keepInbox
  | publish i notice =>
    cases hstep
    exact relayed_publish h i notice
  | relay i reached =>
    rw [step] at hstep
    split at hstep
    · rename_i x queue hrelay
      obtain ⟨hnodup, hall⟩ := h.relay i _ hrelay
      have htaken : (s.set i { s.instances i with relay := some queue }).Relayed :=
        h.set (fun q hq => .inr ⟨_, hrelay, Option.some.inj hq ▸ List.sublist_cons_self x queue⟩)
          keepInbox
      have hqueued : ∀ j q, ((s.set i { s.instances i with
          relay := some queue }).instances j).relay = some q → x ∉ q := by
        intro j q hq hmem
        rcases eq_or_ne j i with rfl | hne
        · rw [set_self] at hq
          exact (List.nodup_cons.1 hnodup).1 (Option.some.inj hq ▸ hmem)
        · rw [set_of_ne s _ hne] at hq
          exact hne (((h.relay j q hq).2 x hmem).1.symm.trans
            (hall x List.mem_cons_self).1)
      dsimp only at hstep
      split at hstep
      · cases hstep
        exact htaken
      · split at hstep
        · cases hstep
          exact htaken.notify (hall x List.mem_cons_self).2.1 (hall x List.mem_cons_self).2.2
            hqueued
        · cases hstep
          exact htaken
    · cases hstep
  | hear i =>
    rw [step] at hstep
    split at hstep
    · rename_i n inbox hinbox
      dsimp only at hstep
      have htail : ∀ l, some inbox = some l →
          l = [] ∨ ∃ old, (s.instances i).inbox = some old ∧ l.Sublist old :=
        fun l hl => .inr ⟨_, hinbox, Option.some.inj hl ▸ List.sublist_cons_self n inbox⟩
      split at hstep
      · cases hstep
        refine h.set ?_ ?_
        · rw [(publishLocal_frame _ _).1]
          exact keepRelay
        · rw [(publishLocal_frame _ _).2]
          exact htail
      · cases hstep
        exact h.set keepRelay htail
    · cases hstep
  | recv i index =>
    obtain ⟨t, ht, rfl⟩ := Option.map_eq_some_iff.1 hstep
    obtain ⟨r, _, rfl⟩ := Option.map_eq_some_iff.1 ht
    exact h.set keepRelay keepInbox

/-! ## What the receivers are given -/

def Receiver.taken (r : Receiver ι) : List (Publication ι) := r.received ++ r.queue

/-- What a receiver was given it was given once, and it is to come again only to a receiver of the
instance that published it. -/
structure Receiver.Sound (i : ι) (published : Nat) (notified : List (Publication ι))
    (inbox : Option (List (Notification ι))) (r : Receiver ι) : Prop where
  since : r.since ≤ published
  nodup : r.taken.Nodup
  settled : ∀ x ∈ r.taken, x.id < published ∧
    (x.origin = i ∧ r.since ≤ x.id ∨ x ∈ notified ∧ ∀ l, inbox = some l → x.notification ∉ l)

def System.Sound (s : System ι) : Prop :=
  ∀ i, ∀ r ∈ (s.instances i).receivers, r.Sound i s.published s.notified (s.instances i).inbox

structure System.Settled (s : System ι) : Prop where
  relayed : s.Relayed
  sound : s.Sound

omit [DecidableEq ι] in
theorem Receiver.Sound.mono {r : Receiver ι} (h : r.Sound i published notified inbox)
    (hpublished : published ≤ published') (hnotified : notified ⊆ notified')
    (hinbox : ∀ x ∈ notified, (∀ l, inbox = some l → x.notification ∉ l) →
      ∀ l, inbox' = some l → x.notification ∉ l) :
    r.Sound i published' notified' inbox' where
  since := Nat.le_trans h.since hpublished
  nodup := h.nodup
  settled := fun x hx => by
    obtain ⟨hid, hsettled⟩ := h.settled x hx
    refine ⟨by omega, hsettled.imp_right fun ⟨hmem, hgone⟩ => ⟨hnotified hmem, hinbox x hmem hgone⟩⟩

omit [DecidableEq ι] in
theorem Receiver.Sound.push {r : Receiver ι} (h : r.Sound i published notified inbox)
    (hid : x.id < published) (hnew : x ∉ r.taken)
    (hsettled : x.origin = i ∧ r.since ≤ x.id ∨
      x ∈ notified ∧ ∀ l, inbox = some l → x.notification ∉ l) :
    (r.push x).Sound i published notified inbox := by
  unfold Receiver.push
  split
  · have hsub : (r.received ++ (r.queue ++ [x]).drop (r.queue.length + 1 - CAPACITY)).Sublist
        (r.taken ++ [x]) := by
      rw [Receiver.taken, List.append_assoc]
      exact (List.drop_sublist _ _).append_left _
    refine ⟨h.since, ?_, fun y hy => ?_⟩
    · exact (List.nodup_append_comm.1 (List.nodup_cons.2 ⟨hnew, h.nodup⟩)).sublist hsub
    · rcases List.mem_append.1 (hsub.subset hy) with hy | hy
      · exact h.settled y hy
      · obtain rfl := List.mem_singleton.1 hy
        exact ⟨hid, hsettled⟩
  · exact h

omit [DecidableEq ι] in
theorem Receiver.Sound.recv {r r' : Receiver ι} (h : r.Sound i published notified inbox)
    (hr : r.recv = some r') : r'.Sound i published notified inbox := by
  unfold Receiver.recv at hr
  split at hr
  · cases hr
  · rename_i x queue hqueue
    cases hr
    have htaken : r.received ++ [x] ++ queue = r.taken := by
      rw [Receiver.taken, hqueue, List.append_assoc, List.singleton_append]
    refine ⟨h.since, ?_, fun y hy => ?_⟩
    · rw [Receiver.taken]
      exact htaken ▸ h.nodup
    · exact h.settled y (htaken ▸ hy)

theorem System.Sound.set (h : s.Sound)
    (ht : ∀ r ∈ t.receivers, r.Sound i s.published s.notified t.inbox) : (s.set i t).Sound := by
  intro j r hr
  rcases eq_or_ne j i with rfl | hne
  · rw [set_self] at hr ⊢
    exact ht r hr
  · rw [set_of_ne s t hne] at hr ⊢
    exact h j r hr

theorem sound_publish (h : s.Sound) (i : ι) (notice : Notice) :
    System.Sound { s.set i ((s.instances i).publish ⟨s.published, i, notice⟩) with
      published := s.published + 1 } := by
  intro j r hmem
  have hlater : ∀ r ∈ (s.instances j).receivers,
      r.Sound j (s.published + 1) s.notified (s.instances j).inbox := fun r hr =>
    (h j r hr).mono (Nat.le_succ _) (List.Subset.refl _) fun _ _ hgone => hgone
  dsimp only at hmem ⊢
  rcases eq_or_ne j i with rfl | hne
  · rw [set_self, Instance.publish] at hmem
    rw [set_self, Instance.publish, (publishLocal_frame _ _).2]
    obtain ⟨old, hold, rfl | ⟨_, rfl⟩⟩ := mem_publishLocal hmem
    · exact hlater _ hold
    · refine (hlater old hold).push (Nat.lt_succ_self _) (fun hin => ?_) (.inl ⟨rfl, ?_⟩)
      · exact absurd ((h j old hold).settled _ hin).1 (Nat.lt_irrefl _)
      · exact (h j old hold).since
  · rw [set_of_ne s _ hne] at hmem ⊢
    exact hlater r hmem

theorem sound_hear (hrelayed : s.Relayed) (h : s.Sound) (hecho : s.echoes (.hear i) = false)
    (hinbox : (s.instances i).inbox = some (n :: inbox))
    (hnotice : n.wire.intoNotice = some notice) :
    (s.set i (({ s.instances i with inbox := some inbox } : Instance ι).publishLocal
      ⟨n.id, n.origin, notice⟩)).Sound := by
  obtain ⟨hnodup, hall⟩ := hrelayed.inbox i _ hinbox
  obtain ⟨x, hx, rfl⟩ := hall n List.mem_cons_self
  have hback := Wire.intoNotice_ofNotice x.notice
  cases Option.some.inj (hnotice.symm.trans hback)
  have htail : ∀ r ∈ (s.instances i).receivers,
      r.Sound i s.published s.notified (some inbox) := fun r hr =>
    (h i r hr).mono (Nat.le_refl _) (List.Subset.refl _) fun y _ hgone l hl hmem =>
      hgone _ hinbox (List.mem_cons_of_mem _ (Option.some.inj hl ▸ hmem))
  refine h.set fun r hr => ?_
  rw [(publishLocal_frame _ _).2]
  obtain ⟨old, hold, rfl | ⟨hgroup, rfl⟩⟩ := mem_publishLocal hr
  · exact htail _ hold
  · refine (htail old hold).push (hrelayed.notified.2 x hx) (fun hin => ?_)
      (.inr ⟨hx, fun l hl hmem => ?_⟩)
    · rcases ((h i old hold).settled x hin).2 with ⟨horigin, hsince⟩ | ⟨_, hgone⟩
      · have hechoes : s.echoes (.hear i) = true := by
          rw [System.echoes, hinbox]
          change (decide (x.origin = i) && (Wire.ofNotice x.notice).intoNotice.any _) = true
          rw [hback, Option.any_some, Bool.and_eq_true, decide_eq_true_eq, List.any_eq_true]
          exact ⟨horigin, old, hold, by simpa using ⟨hgroup, hsince⟩⟩
        rw [hechoes] at hecho
        cases hecho
      · exact hgone _ hinbox List.mem_cons_self
    · exact (List.nodup_cons.1 hnodup).1 (Option.some.inj hl ▸ hmem)

theorem sound_step (hrelayed : s.Relayed) (h : s.Sound) (hecho : s.echoes a = false)
    (hstep : step s a = some s') : s'.Sound := by
  cases a with
  | attach i =>
    rw [step] at hstep
    split at hstep
    · cases hstep
    · cases hstep
      exact h.set (h i)
  | listen i =>
    rw [step] at hstep
    split at hstep
    · cases hstep
    · cases hstep
      refine h.set fun r hr =>
        (h i r hr).mono (Nat.le_refl _) (List.Subset.refl _) fun _ _ _ l hl hmem => ?_
      cases Option.some.inj hl
      cases hmem
  | cut i =>
    cases hstep
    exact h.set fun r hr =>
      (h i r hr).mono (Nat.le_refl _) (List.Subset.refl _) fun _ _ _ l hl => by cases hl
  | subscribe i groupId =>
    cases hstep
    refine h.set fun r hr => ?_
    rcases List.mem_append.1 hr with hr | hr
    · exact h i r hr
    · rw [List.mem_singleton.1 hr]
      exact ⟨(Nat.le_refl _), List.nodup_nil, fun _ hx => by cases hx⟩
  | leave i index =>
    cases hstep
    exact h.set fun r hr => h i r (List.mem_of_mem_eraseIdx hr)
  | publish i notice =>
    cases hstep
    exact sound_publish h i notice
  | relay i reached =>
    rw [step] at hstep
    split at hstep
    · rename_i x queue hrelay
      have htaken : (s.set i { s.instances i with relay := some queue }).Sound := h.set (h i)
      have hnew := (((hrelayed.relay i _ hrelay).2 x List.mem_cons_self)).2.2
      dsimp only at hstep
      split at hstep
      · cases hstep
        exact htaken
      · split at hstep
        · cases hstep
          intro j r hr
          refine (htaken j r hr).mono (Nat.le_refl _) (List.subset_append_left _ _) ?_
          intro y hy hgone l hl hmem
          obtain ⟨old, hold, rfl⟩ := Option.map_eq_some_iff.1 hl
          rcases List.mem_append.1 hmem with hmem | hmem
          · exact hgone old hold hmem
          · exact hnew (notification_injective (List.mem_singleton.1 hmem) ▸ hy)
        · cases hstep
          exact htaken
    · cases hstep
  | hear i =>
    rw [step] at hstep
    split at hstep
    · rename_i n inbox hinbox
      dsimp only at hstep
      split at hstep
      · rename_i notice hnotice
        cases hstep
        exact sound_hear hrelayed h hecho hinbox hnotice
      · cases hstep
        exact h.set fun r hr => (h i r hr).mono (Nat.le_refl _) (List.Subset.refl _)
          fun _ _ hgone l hl hmem =>
            hgone _ hinbox (List.mem_cons_of_mem _ (Option.some.inj hl ▸ hmem))
    · cases hstep
  | recv i index =>
    obtain ⟨t, ht, rfl⟩ := Option.map_eq_some_iff.1 hstep
    obtain ⟨r', hr', rfl⟩ := Option.map_eq_some_iff.1 ht
    obtain ⟨r, hr, hrecv⟩ := Option.bind_eq_some_iff.1 hr'
    refine h.set fun q hq => ?_
    rcases List.mem_or_eq_of_mem_set hq with hq | rfl
    · exact h i q hq
    · exact (h i r (List.mem_of_getElem? hr)).recv hrecv

/-! ## Runs -/

/-- Relaying never publishes again, in any run. A receiver is given each publication at most once in
every run in which no instance takes back a notification of its own that a receiver of the group was
already there for. -/
theorem delivered_once :
    (∀ s : System ι, Reach step (fun _ _ => True) started s → s.NotifiedOnce) ∧
      ∀ s : System ι, Reach step (fun s a => s.echoes a = false) started s → s.DeliveredOnce := by
  refine ⟨fun s h => ?_, fun s h => ?_⟩
  · exact (h.invariant relayed_started fun hr _ hstep => relayed_step hr hstep).notified
  · have hsettled : s.Settled :=
      h.invariant ⟨relayed_started, fun _ _ hr => by cases hr⟩ fun hs hecho hstep =>
        ⟨relayed_step hs.relayed hstep, sound_step hs.relayed hs.sound hecho hstep⟩
    exact fun i r hr => (hsettled.sound i r hr).nodup.sublist (List.sublist_append_left _ _)

/-- Two instances, one receiver on each, and one publication: the other instance hears of it, and
the one it is from has not yet heard of it itself. -/
def relayedOnce : List (Action Bool) :=
  [.attach true, .attach false, .listen true, .listen false, .subscribe true [7],
    .subscribe false [7], .publish true (.envelope [7] 1), .relay true true, .hear false,
    .recv true 0, .recv false 0]

def received (s : System Bool) : List (List (Publication Bool)) :=
  [true, false].flatMap fun i => (s.instances i).receivers.map (·.received)

def posted : Publication Bool := ⟨0, true, .envelope [7] 1⟩

/-- Each of the two has it once. -/
theorem delivered_once_relayedOnce : ∃ s : System Bool, received s = [[posted], [posted]] ∧
    s.NotifiedOnce ∧ s.DeliveredOnce := by
  have hrun : ((run (fun s a => if s.echoes a = false then step s a else none) started
      relayedOnce).map received) = some [[posted], [posted]] := by
    decide +kernel
  obtain ⟨s, hs, hreceived⟩ := Option.map_eq_some_iff.1 hrun
  have hreach : Reach step (fun s a => s.echoes a = false) started s := reach_of_run_guarded hs
  exact ⟨s, hreceived, delivered_once.1 s (hreach.mono fun _ _ _ => trivial),
    delivered_once.2 s hreach⟩

/-- The instance that published hears of it too, and its receiver has it twice. -/
theorem delivered_twice : ∃ s : System Bool, Reach step (fun _ _ => True) started s ∧
    received s = [[posted, posted], [posted]] ∧ ¬ s.DeliveredOnce := by
  have hrun : ((run step started (relayedOnce ++ [.hear true, .recv true 0])).map received) =
      some [[posted, posted], [posted]] := by
    decide +kernel
  obtain ⟨s, hs, hreceived⟩ := Option.map_eq_some_iff.1 hrun
  refine ⟨s, reach_of_run hs, hreceived, fun honce => ?_⟩
  have hfirst : [posted, posted] ∈ received s := hreceived ▸ List.mem_cons_self
  obtain ⟨i, _, hmem⟩ := List.mem_flatMap.1 hfirst
  obtain ⟨r, hr, htwice⟩ := List.mem_map.1 hmem
  have hnodup := honce i r hr
  rw [htwice] at hnodup
  exact (List.nodup_cons.1 hnodup).1 List.mem_cons_self

end Whispee.Server.Stream
