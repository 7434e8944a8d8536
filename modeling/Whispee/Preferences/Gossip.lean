import Whispee.Lib.Tasks
import Whispee.Lib.Transition
import Whispee.Preferences.Device
import Mathlib.Logic.Function.Basic

/-!
# Devices announcing their preferences to each other

Any number of devices of one account. What is announced stays available: it may be absorbed late,
many times, in any order or never. A record that `persist` has read is written whenever it likes, or
not at all, and the session that is opened next starts from the record written last. `heard` and
`made` are kept for the statements only: the decisions a device knows of, its own and those in the
snapshots it has absorbed, directly or through another device, and all there are.
-/

namespace Whispee.Preferences

/-- The two scalars as the device that decided about one of them then held them. -/
structure ScalarsDecision where
  by_ : Nat
  at_ : Nat
  disclose : Bool
  vault : Bool
  deriving DecidableEq

/-- The signalling settings as the device that decided about one of them then held them. -/
structure SignalsDecision where
  by_ : Nat
  at_ : Nat
  signals : SignalSettings
  deriving DecidableEq

/-- Decisions, by what they are about. -/
structure History where
  flags : List (Decision Nat ConversationFlags) := []
  petnames : List (Decision Nat String) := []
  blocked : List (Decision Nat Unit) := []
  scalars : List ScalarsDecision := []
  signals : List SignalsDecision := []

namespace History

instance : Append History where
  append h h' :=
    { flags := h.flags ++ h'.flags
      petnames := h.petnames ++ h'.petnames
      blocked := h.blocked ++ h'.blocked
      scalars := h.scalars ++ h'.scalars
      signals := h.signals ++ h'.signals }

/-- The stamps of the preferences. -/
def stamps (h : History) : List Nat :=
  h.flags.map (·.at_) ++ h.petnames.map (·.at_) ++ h.blocked.map (·.at_) ++ h.scalars.map (·.at_)

/-- Every decision of one about the preferences is among those of the other. -/
structure Within (h h' : History) : Prop where
  flags : h.flags ⊆ h'.flags
  petnames : h.petnames ⊆ h'.petnames
  blocked : h.blocked ⊆ h'.blocked
  scalars : h.scalars ⊆ h'.scalars

instance (h h' : History) : Decidable (h.Within h') :=
  decidable_of_iff (h.flags ⊆ h'.flags ∧ h.petnames ⊆ h'.petnames ∧ h.blocked ⊆ h'.blocked ∧
      h.scalars ⊆ h'.scalars)
    ⟨fun ⟨flags, petnames, blocked, scalars⟩ => ⟨flags, petnames, blocked, scalars⟩,
      fun within => ⟨within.flags, within.petnames, within.blocked, within.scalars⟩⟩

end History

/-- What a user does on one device, past the requests it begins with. -/
inductive Change where
  | conversationFlags (groupId : String) (flags : ConversationFlags)
  | petname (handle : String) (cleaned : Option String)
  | blocked (account : String) (value : Bool)
  | disclose (value : Bool)
  | disableVault
  | signal (setting : Device.SignalSetting)

def Device.change (d : Device) (now : Nat) : Change → Device
  | .conversationFlags groupId flags => d.setConversationFlags now groupId flags
  | .petname handle cleaned => d.setPetname now handle cleaned
  | .blocked account value => d.setBlocked now account value
  | .disclose value => d.setDiscloseConversationName now value
  | .disableVault => d.disableVault now
  | .signal setting => d.setSignalSetting now setting

/-- The history with the decision of a device `d` that has made a change. -/
def Change.record (i now : Nat) (d : Device) (h : History) : Change → History
  | .conversationFlags groupId flags =>
    { h with flags := h.flags ++ [⟨groupId, now, if Device.isEmpty flags then none else some flags⟩] }
  | .petname handle cleaned => { h with petnames := h.petnames ++ [⟨handle, now, cleaned⟩] }
  | .blocked account value =>
    { h with blocked := h.blocked ++ [⟨account, now, if value then some () else none⟩] }
  | .disclose _ | .disableVault => { h with scalars := h.scalars ++ [⟨i, now, d.disclose, d.vault⟩] }
  | .signal _ => { h with signals := h.signals ++ [⟨i, now, d.signals⟩] }

structure Announcement where
  signals : SyncedSignals Nat
  preferences : Option (SyncedPreferences Nat)
  /-- What the device had heard when it read the preferences. -/
  heard : History

/-- A record as `persist` read it. -/
structure Record where
  stored : Stored
  /-- What the device had heard by then. -/
  heard : History
  /-- All that had been decided by then. -/
  made : History
  /-- The vault was as the pair had it. -/
  settled : Bool

/-- Two records hold the same preferences, whatever they say of the vault. -/
def Stored.same (s s' : Stored) : Bool :=
  s.disclose = s'.disclose && s.conversations = s'.conversations && s.petnames = s'.petnames &&
    s.blocked = s'.blocked && s.prefStamps.scalars = s'.prefStamps.scalars &&
    s.prefStamps.flags.getD ∅ = s'.prefStamps.flags.getD ∅ &&
    s.prefStamps.petnames.getD ∅ = s'.prefStamps.petnames.getD ∅ &&
    s.prefStamps.blocked.getD ∅ = s'.prefStamps.blocked.getD ∅

structure World where
  devices : Nat → Device
  /-- `Date.now()` on each device. -/
  clock : Nat → Nat
  /-- The records each device is about to write. -/
  saving : Nat → List Record
  /-- The record each device has written last. -/
  stored : Nat → Record
  posted : List Announcement
  made : History
  heard : Nat → History

inductive Action where
  /-- Time passes on a device. -/
  | tick (i now : Nat)
  | decide (i : Nat) (change : Change)
  | enableVault (i : Nat)
  /-- `emitSignals` in one conversation, at an epoch or after a decision. -/
  | emit (i : Nat)
  /-- What a call waits for is done, and it goes on. -/
  | resume (i call : Nat)
  /-- What a call waits for fails: the import of a key, or the announcement. -/
  | fail (i call : Nat)
  | absorb (i announcement : Nat)
  /-- `persist`, for whatever reason. -/
  | persist (i : Nat)
  /-- A record is written. -/
  | saved (i record : Nat)
  /-- The application is closed and opened again. -/
  | reopen (i : Nat) (imported : Bool)

namespace World

def setDevice (w : World) (i : Nat) (d : Device) : World :=
  { w with devices := Function.update w.devices i d }

/-- A device becomes `d` and has then heard `h`. -/
def learn (w : World) (i : Nat) (d : Device) (h : History) : World :=
  { w.setDevice i d with heard := Function.update w.heard i h }

/-- What `persist` reads. -/
def read (w : World) (i : Nat) : Record where
  stored := (w.devices i).composeStored
  heard := w.heard i
  made := w.made
  settled := (w.devices i).vaultSettled

def persist (w : World) (i : Nat) : World :=
  { w with saving := Function.update w.saving i (w.saving i ++ [w.read i]) }

/-- A decision: the device becomes `d`, which is written down. -/
def decided (w : World) (i : Nat) (d : Device) (record : History → History) : World :=
  { w.learn i d (record (w.heard i)) with made := record w.made }.persist i

variable (fits : SyncedPreferences Nat → Bool)

def resume (w : World) (i j : Nat) : Task → World
  | .applying => w.setDevice i { w.devices i with
      vault := true, tasks := (w.devices i).tasks.eraseIdx j }
  | .enabling => w.setDevice i { w.devices i with
      vault := true, tasks := (w.devices i).tasks.set j .stamping }
  | .stamping =>
    let d := { w.devices i with tasks := (w.devices i).tasks.eraseIdx j }.stampScalars (w.clock i)
    w.decided i d (Change.record i (w.clock i) d · (.disclose d.disclose))
  | .emitting signals =>
    let d := { w.devices i with tasks := (w.devices i).tasks.eraseIdx j }
    { w.setDevice i d with
      posted := w.posted ++ [⟨signals, d.syncedPreferences fits, w.heard i⟩] }

/-- `absorbSignals` of an announcement as the receiver's clock lets it through. -/
def absorbed (w : World) (i : Nat) (a : Announcement) : Device × Bool :=
  let now := clamp (w.clock i)
  (w.devices i).absorbSignals (a.signals.mapStamp now) (a.preferences.map (·.mapStamps now))

def absorb (w : World) (i : Nat) (a : Announcement) : World :=
  let heard := if a.preferences.isSome then w.heard i ++ a.heard else w.heard i
  let learned := w.learn i (w.absorbed i a).1 heard
  if (w.absorbed i a).2 then learned.persist i else learned

def saved (w : World) (i j : Nat) (r : Record) : World :=
  { w with
    saving := Function.update w.saving i ((w.saving i).eraseIdx j)
    stored := Function.update w.stored i r }

/-- The device knows what it knew when the record was read, and has lost nothing where that holds
the same preferences. What was still to be written is not. -/
def reopen (w : World) (i : Nat) (imported : Bool) : World :=
  let r := w.stored i
  let heard := if r.stored.same (w.devices i).composeStored then w.heard i else r.heard
  { w.learn i (Device.reopen r.stored imported) heard with saving := Function.update w.saving i [] }

def step (w : World) : Action → Option World
  | .tick i now =>
    if w.clock i ≤ now then some { w with clock := Function.update w.clock i now } else none
  | .decide i change =>
    let d := (w.devices i).change (w.clock i) change
    some (w.decided i d (change.record i (w.clock i) d))
  | .enableVault i =>
    some (w.setDevice i { w.devices i with tasks := (w.devices i).tasks ++ [.enabling] })
  | .emit i =>
    let signals := (w.devices i).syncedSignals (w.clock i)
    some (w.setDevice i { w.devices i with tasks := (w.devices i).tasks ++ [.emitting signals] })
  | .resume i j => (w.devices i).tasks[j]?.map (w.resume fits i j)
  | .fail i j =>
    match (w.devices i).tasks[j]? with
    | none | some .stamping => none
    | some _ => some (w.setDevice i { w.devices i with tasks := (w.devices i).tasks.eraseIdx j })
  | .absorb i n => w.posted[n]?.map (w.absorb i)
  | .persist i => some (w.persist i)
  | .saved i j => (w.saving i)[j]?.map (w.saved i j)
  | .reopen i imported => some (w.reopen i imported)

end World

/-! ## Steps, announcements and records -/

namespace World

/-- What is kept by `persist` need not look at whether anything moved. -/
theorem absorb_of {P : World → Prop} {w : World} {a : Announcement}
    (learned : P (w.learn i (w.absorbed i a).1
      (if a.preferences.isSome then w.heard i ++ a.heard else w.heard i)))
    (persist : ∀ w, P w → P (w.persist i)) : P (w.absorb i a) := by
  rw [absorb]
  split
  · exact persist _ learned
  · exact learned

/-- What fails is dropped; `enableVault` waits for nothing once it has only to stamp its decision. -/
theorem step_fail {w : World} (h : w.step fits (.fail i j) = some w') :
    ∃ task, (w.devices i).tasks[j]? = some task ∧ task ≠ .stamping ∧
      w' = w.setDevice i { w.devices i with tasks := (w.devices i).tasks.eraseIdx j } := by
  rw [step] at h
  split at h
  · cases h
  · cases h
  next task stamping at_ =>
    cases h
    exact ⟨task, at_, stamping, rfl⟩

/-- What holds of all the preferences that were announced, and of what a device holds, holds of all
of them once the device has announced its own. -/
theorem forall_posted {P : Announcement → SyncedPreferences Nat → Prop} {posted : List Announcement}
    {d : Device} {heard : History} (h : ∀ a ∈ posted, ∀ p ∈ a.preferences, P a p)
    (new : P ⟨signals, d.syncedPreferences fits, heard⟩ d.snapshot) :
    ∀ a ∈ posted ++ [⟨signals, d.syncedPreferences fits, heard⟩], ∀ p ∈ a.preferences, P a p := by
  refine Tasks.forall_mem_concat h fun p hp => ?_
  obtain ⟨_, hp⟩ := Option.ite_none_right_eq_some.1 hp
  exact Option.some.inj hp ▸ new

/-- What `P` says of a device's records holds of the one that is stored and of those under way. -/
structure RecordsAre (P : Nat → Record → Prop) (w : World) : Prop where
  stored : ∀ i, P i (w.stored i)
  saving : ∀ i, ∀ r ∈ w.saving i, P i r

namespace RecordsAre

variable {P : Nat → Record → Prop} {w : World}

theorem persist (h : w.RecordsAre P) (new : P i (w.read i)) : (w.persist i).RecordsAre P :=
  { h with
    saving := (Function.forall_update_iff w.saving fun i records => ∀ r ∈ records, P i r).2
      ⟨Tasks.forall_mem_concat (h.saving i) new, fun j _ => h.saving j⟩ }

theorem saved (h : w.RecordsAre P) (at_ : (w.saving i)[j]? = some r) :
    (w.saved i j r).RecordsAre P where
  stored := (Function.forall_update_iff w.stored P).2
    ⟨h.saving i r (List.mem_of_getElem? at_), fun k _ => h.stored k⟩
  saving := (Function.forall_update_iff w.saving fun i records => ∀ r ∈ records, P i r).2
    ⟨fun r hr => h.saving i r (List.mem_of_mem_eraseIdx hr), fun k _ => h.saving k⟩

theorem reopen (h : w.RecordsAre P) : (w.reopen i imported).RecordsAre P where
  stored := h.stored
  saving := (Function.forall_update_iff w.saving fun i records => ∀ r ∈ records, P i r).2
    ⟨fun _ hr => absurd hr List.not_mem_nil, fun j _ => h.saving j⟩

end RecordsAre

end World

/-- A device that has never decided nor heard anything of what is shared. -/
structure Device.Undecided (d : Device) : Prop where
  signalsAt : d.signalsAt = none
  prefStamps : d.prefStamps = ⟨none, none, none, none⟩
  tasks : d.tasks = []

/-- The devices before any of them decided or announced anything, written down as they are, their
clocks past 1970. -/
structure World.Initial (w : World) : Prop where
  undecided : ∀ i, (w.devices i).Undecided
  clock : ∀ i, 0 < w.clock i
  saving : ∀ i, w.saving i = []
  stored : ∀ i, w.stored i = w.read i
  posted : w.posted = []
  made : w.made = {}
  heard : ∀ i, w.heard i = {}

end Whispee.Preferences
