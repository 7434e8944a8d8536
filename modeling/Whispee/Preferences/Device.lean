import Whispee.Lib.Json
import Whispee.Preferences.Stamped

/-!
# The preferences of a device

What `Session` of `apps/web/src/lib/session.ts` holds of the settings an account's devices share, the
setters that decide about them, what `emitSignals` announces, what `absorbSignals` and
`absorbPreferences` make of an announcement, and what `persist` writes down and `Session.open` reads
again. Times are milliseconds; `now` is what `Date.now()` answers to the call.
-/

namespace Whispee.Preferences

structure ConversationFlags where
  pinned : Option Bool
  archived : Option Bool
  mutedUntil : Option Json.Number
  discloseName : Option Bool
  archiveToVault : Option Bool
  deriving DecidableEq

/-- Absent means enabled, for the two flags that may be: they only ever record a refusal. -/
structure SignalSettings where
  readReceipts : Bool
  typingIndicator : Bool
  presence : Option Bool
  calls : Option Bool
  deriving DecidableEq

/-- The signalling settings as they travel. -/
structure SyncedSignals (τ : Type v) where
  readReceipts : Bool
  typingIndicator : Bool
  presence : Bool
  calls : Bool
  at_ : τ
  deriving DecidableEq

/-- The two preferences that move together as one decision. -/
structure Scalars (τ : Type v) where
  at_ : τ
  disclose : Bool
  vault : Bool
  deriving DecidableEq

/-- The preferences as they travel. A blocked account is a key that is present; its value is always
`true`. -/
structure SyncedPreferences (τ : Type v) where
  scalars : Scalars τ
  flags : StampedPatch τ ConversationFlags
  petnames : StampedPatch τ String
  blocked : StampedPatch τ Unit

structure PrefStamps where
  scalars : Option Nat
  flags : Option (Stamps Nat)
  petnames : Option (Stamps Nat)
  blocked : Option (Stamps Nat)

/-- A call of the session that waits. -/
inductive Task where
  /-- `archive.enable` as `absorbPreferences` calls it, waiting for the key; nobody waits for it. -/
  | applying
  /-- `enableVault`, waiting for the key. -/
  | enabling
  /-- `enableVault`, about to stamp its decision. -/
  | stamping
  /-- `emitSignals`, waiting for the device-sync key, with the settings it has read. -/
  | emitting (signals : SyncedSignals Nat)
  deriving DecidableEq

/-- What is stored of all this, as it was when `persist` was called. -/
structure Stored where
  signals : SignalSettings
  signalsAt : Option Nat
  disclose : Bool
  conversations : Dictionary ConversationFlags
  petnames : Dictionary String
  blocked : List String
  /-- `false` is a refusal; absent reads as on. -/
  vaultEnabled : Option Bool
  prefStamps : PrefStamps

structure Device where
  signals : SignalSettings
  signalsAt : Option Nat
  disclose : Bool
  conversations : Dictionary ConversationFlags
  petnames : Dictionary String
  blocked : List String
  /-- `archive.enabled`: the archive holds a key. -/
  vault : Bool
  prefStamps : PrefStamps
  tasks : List Task

namespace Device

variable (d : Device) (now : Nat)

/-! ## Deciding -/

def stampFlags (key : String) : Device :=
  { d with prefStamps.flags := some ((d.prefStamps.flags.getD ∅).set key now) }

def stampPetnames (key : String) : Device :=
  { d with prefStamps.petnames := some ((d.prefStamps.petnames.getD ∅).set key now) }

def stampBlocked (key : String) : Device :=
  { d with prefStamps.blocked := some ((d.prefStamps.blocked.getD ∅).set key now) }

def stampScalars : Device := { d with prefStamps.scalars := some now }

def setDiscloseConversationName (value : Bool) : Device := { d with disclose := value }.stampScalars now

def disableVault : Device := { d with vault := false }.stampScalars now

/-- `Object.values(flags).every((value) => value === undefined)`. -/
def isEmpty (flags : ConversationFlags) : Bool :=
  flags.pinned.isNone && flags.archived.isNone && flags.mutedUntil.isNone &&
    flags.discloseName.isNone && flags.archiveToVault.isNone

/-- An empty set of flags clears the entry. -/
def setConversationFlags (groupId : String) (flags : ConversationFlags) : Device :=
  let conversations :=
    if isEmpty flags then d.conversations.erase groupId else d.conversations.set groupId flags
  { d with conversations }.stampFlags now groupId

/-- `cleaned` is what `clean` makes of the name that was typed. -/
def setPetname (handle : String) (cleaned : Option String) : Device :=
  let petnames := match cleaned with
    | none => d.petnames.erase handle
    | some name => d.petnames.set handle name
  { d with petnames }.stampPetnames now handle

def setBlocked (account : String) (blocked : Bool) : Device :=
  let rest := d.blocked.filter (· ≠ account)
  { d with blocked := if blocked then rest ++ [account] else rest }.stampBlocked now account

/-- One of the settings of `SignalSettings` and the value it gets. -/
inductive SignalSetting where
  | readReceipts (value : Bool)
  | typingIndicator (value : Bool)
  | presence (value : Bool)
  | calls (value : Bool)

def withSetting (signals : SignalSettings) : SignalSetting → SignalSettings
  | .readReceipts value => { signals with readReceipts := value }
  | .typingIndicator value => { signals with typingIndicator := value }
  | .presence value => { signals with presence := some value }
  | .calls value => { signals with calls := some value }

/-- Past the call that tells the server about `presence`. -/
def setSignalSetting (setting : SignalSetting) : Device :=
  { d with signals := withSetting d.signals setting, signalsAt := some now }

/-! ## Announcing -/

/-- The settings as `emitSignals` reads them. -/
def syncedSignals : SyncedSignals Nat where
  readReceipts := d.signals.readReceipts
  typingIndicator := d.signals.typingIndicator
  presence := d.signals.presence ≠ some false
  calls := d.signals.calls ≠ some false
  at_ := d.signalsAt.getD now

/-- `Object.fromEntries(blocked.map((account) => [account, true]))`. -/
def blockedRecord (blocked : List String) : Dictionary Unit :=
  .ofEntries (blocked.map fun account => (account, ()))

/-- The whole preference set. -/
def snapshot : SyncedPreferences Nat where
  scalars := { at_ := d.prefStamps.scalars.getD 0, disclose := d.disclose, vault := d.vault }
  flags := patchOf d.conversations (d.prefStamps.flags.getD ∅)
  petnames := patchOf d.petnames (d.prefStamps.petnames.getD ∅)
  blocked := patchOf (blockedRecord d.blocked) (d.prefStamps.blocked.getD ∅)

/-- `fits` says whether the text of a snapshot keeps to `MAX_PREFERENCES_BYTES`. -/
def syncedPreferences (fits : SyncedPreferences Nat → Bool) : Option (SyncedPreferences Nat) :=
  if fits d.snapshot then some d.snapshot else none

/-! ## Absorbing -/

/-- The pair is later than the one the device holds. -/
def newer (incoming : Scalars Nat) : Bool := d.prefStamps.scalars.all (· < incoming.at_)

/-- The two scalars. Switching the vault on waits for its key. -/
def absorbScalars (incoming : Scalars Nat) : Device × Bool :=
  if d.newer incoming then
    ({ d with
      disclose := incoming.disclose
      vault := d.vault && incoming.vault
      tasks := if incoming.vault && !d.vault then d.tasks ++ [.applying] else d.tasks
      prefStamps.scalars := some incoming.at_ },
     d.disclose ≠ incoming.disclose || d.vault ≠ incoming.vault ||
      d.prefStamps.scalars ≠ some incoming.at_)
  else (d, false)

/-- The merges of `absorbPreferences`. Values are written back only when the merge reports a
change, stamps always. -/
def absorbMaps (incoming : SyncedPreferences Nat) : Device × Bool :=
  let flags := merge d.conversations (d.prefStamps.flags.getD ∅) incoming.flags
  let petnames := merge d.petnames (d.prefStamps.petnames.getD ∅) incoming.petnames
  let blocked := merge (blockedRecord d.blocked) (d.prefStamps.blocked.getD ∅) incoming.blocked
  ({ d with
    conversations := if flags.changed then flags.values else d.conversations
    petnames := if petnames.changed then petnames.values else d.petnames
    blocked := if blocked.changed then blocked.values.keys else d.blocked
    prefStamps.flags := some flags.stamps
    prefStamps.petnames := some petnames.stamps
    prefStamps.blocked := some blocked.stamps },
   flags.changed || petnames.changed || blocked.changed ||
    flags.stampsMoved || petnames.stampsMoved || blocked.stampsMoved)

/-- The device afterwards, and whether anything moved. -/
def absorbPreferences (incoming : SyncedPreferences Nat) : Device × Bool :=
  let scalars := d.absorbScalars incoming.scalars
  let maps := scalars.1.absorbMaps incoming
  (maps.1, scalars.2 || maps.2)

/-- The signalling half of `absorbSignals`. -/
def absorbSettings (incoming : SyncedSignals Nat) : Device × Bool :=
  if d.signalsAt.all (· < incoming.at_) then
    ({ d with
      signals :=
        { readReceipts := incoming.readReceipts
          typingIndicator := incoming.typingIndicator
          presence := some incoming.presence
          calls := some incoming.calls }
      signalsAt := some incoming.at_ }, true)
  else (d, false)

theorem prefStamps_absorbSettings (incoming : SyncedSignals Nat) :
    (d.absorbSettings incoming).1.prefStamps = d.prefStamps := by
  rw [absorbSettings]
  split <;> rfl

theorem disclose_absorbSettings (incoming : SyncedSignals Nat) :
    (d.absorbSettings incoming).1.disclose = d.disclose := by
  rw [absorbSettings]
  split <;> rfl

theorem tasks_absorbSettings (incoming : SyncedSignals Nat) :
    (d.absorbSettings incoming).1.tasks = d.tasks := by
  rw [absorbSettings]
  split <;> rfl

theorem newer_absorbSettings (signals : SyncedSignals Nat) (incoming : Scalars Nat) :
    (d.absorbSettings signals).1.newer incoming = d.newer incoming := by
  rw [newer, prefStamps_absorbSettings, newer]

/-- The device afterwards, and whether it has something to write down. -/
def absorbSignals (signals : SyncedSignals Nat) (preferences : Option (SyncedPreferences Nat)) :
    Device × Bool :=
  let settings := d.absorbSettings signals
  match preferences with
  | none => settings
  | some incoming =>
    let absorbed := settings.1.absorbPreferences incoming
    (absorbed.1, absorbed.2 || settings.2)

/-! ## Writing down and opening again -/

/-- The vault is as the pair has it: `enableVault` has nothing left to stamp, and a key is missing
for no pair that was absorbed. -/
def vaultSettled : Bool := .stamping ∉ d.tasks && (d.vault || .applying ∉ d.tasks)

/-- `Archive.snapshot` says that the vault is on where it has its key. -/
def composeStored : Stored where
  signals := d.signals
  signalsAt := d.signalsAt
  disclose := d.disclose
  conversations := d.conversations
  petnames := d.petnames
  blocked := d.blocked
  vaultEnabled := some d.vault
  prefStamps := d.prefStamps

/-- `Session.open`. `imported` says whether the vault's key could be imported, where it is asked
for. -/
def reopen (stored : Stored) (imported : Bool) : Device where
  signals := { stored.signals with calls := some (stored.signals.calls.getD true) }
  signalsAt := stored.signalsAt
  disclose := stored.disclose
  conversations := stored.conversations
  petnames := stored.petnames
  blocked := stored.blocked
  vault := stored.vaultEnabled ≠ some false && imported
  prefStamps := stored.prefStamps
  tasks := []

end Device

/-! ## Opening an announcement -/

def CLOCK_SKEW_MS : Nat := 5 * 60 * 1000

/-- A time too far ahead of the receiver's clock is replaced by it. -/
def clamp (now at_ : Nat) : Nat := if now + CLOCK_SKEW_MS < at_ then now else at_

def SyncedSignals.mapStamp (f : τ → σ) (signals : SyncedSignals τ) : SyncedSignals σ :=
  { signals with at_ := f signals.at_ }

def SyncedPreferences.mapStamps (f : τ → σ) (preferences : SyncedPreferences τ) :
    SyncedPreferences σ where
  scalars := { preferences.scalars with at_ := f preferences.scalars.at_ }
  flags := preferences.flags.map fun entry => { entry with at_ := f entry.at_ }
  petnames := preferences.petnames.map fun entry => { entry with at_ := f entry.at_ }
  blocked := preferences.blocked.map fun entry => { entry with at_ := f entry.at_ }

namespace SyncedPreferences

variable (f : τ → σ) (preferences : SyncedPreferences τ)

theorem at_mapStamps : (preferences.mapStamps f).scalars.at_ = f preferences.scalars.at_ := rfl

theorem disclose_mapStamps :
    (preferences.mapStamps f).scalars.disclose = preferences.scalars.disclose := rfl

theorem vault_mapStamps : (preferences.mapStamps f).scalars.vault = preferences.scalars.vault := rfl

end SyncedPreferences

end Whispee.Preferences
