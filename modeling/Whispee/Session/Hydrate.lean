import Whispee.Lib.Base64
import Whispee.Lib.Dictionary
import Whispee.Lib.Fallible
import Whispee.Session.Content
import Whispee.Session.Naming
import Whispee.Session.Storage
import Mathlib.Data.List.Sort

/-!
# From the session to the record and back

`composeStored` of `apps/web/src/lib/session-persist.ts` and `Session.open` of
`apps/web/src/lib/session.ts`, with the halves of the mapping that they call: `history.ts`,
`session-naming.ts`, `session-preferences.ts`, `session-trust.ts`, `session-log.ts`,
`session-lock.ts`, `session-vault.ts` and `expiry.ts`. What is sealed is held as what it opens to,
and the history as the data its JSON says. A group is named by the hexadecimal form of its id.
-/

namespace Whispee.Session.Hydrate

open Wire (Content Thrown Stamped)
open Naming (Names Profile)

/-! ## The session -/

structure Message where
  seq : Nat
  sender : Option String
  mine : Bool
  sentAt : Option Rat
  expiresAt : Option Rat
  content : Content

inductive PendingState where
  | sending
  | failed
  deriving DecidableEq, Repr

structure Pending where
  localId : String
  text : String
  sentAt : Rat
  state : PendingState
  deriving DecidableEq, Repr

/-- A conversation, of what reaches the disk and the cursor that the read cursor follows. -/
structure View where
  groupId : String
  key : String
  messages : List Message
  outbox : List Pending
  cursor : Nat
  postingKey : Option Bytes
  readCursor : Nat
  contentCursor : Nat

/-- `presence` may be absent, which means enabled. -/
structure SignalSettings where
  readReceipts : Bool
  typingIndicator : Bool
  presence : Option Bool
  calls : Bool
  deriving DecidableEq, Repr

structure Preferences where
  conversations : Dictionary Js
  searchCoverage : Dictionary Js
  blocked : List String
  recentEmojis : List String
  locale : Option String
  contactPolicy : Option Js
  skinTone : Option Nat

structure PreferencesStore where
  preferences : Preferences
  disclose : Bool

structure TrustStore where
  fingerprints : Dictionary String
  devices : Dictionary (List String)

structure SeenHead where
  size : Nat
  root : Bytes
  logKey : Bytes
  deriving DecidableEq, Repr

/-- The MLS state, and the groups it is asked about. -/
structure Client where
  state : Bytes
  conversations : List String

/-- `archive` is the vault key that is held or not. -/
structure Live where
  deviceId : String
  accountId : String
  handle : String
  accountSeed : Bytes
  client : Client
  lockbox : Option Js
  archive : Bool
  conversations : Dictionary View
  trust : TrustStore
  signals : SignalSettings
  signalsAt : Option Nat
  prefStamps : Dictionary Js
  settings : PreferencesStore
  names : Names
  witness : Option SeenHead

/-! ## The record -/

structure StoredMessage where
  seq : Nat
  sender : Option String
  mine : Bool
  body : Bytes
  expiresAt : Option Rat

structure StoredHistory where
  conversations : Dictionary (List StoredMessage)
  outbox : Dictionary (List Pending)
  read : Dictionary Nat

/-- What a record may lack of the signalling settings. -/
structure StoredSignals where
  readReceipts : Option Bool
  typingIndicator : Option Bool
  presence : Option Bool
  calls : Option Bool

structure HandleClaim where
  handle : String
  at_ : Nat

structure LogHead where
  size : Nat
  root : String
  logKey : String

structure StoredSession where
  deviceId : String
  account : Option String
  handle : String
  handles : Option (Dictionary HandleClaim)
  accountSeed : Bytes
  lock : Option Js
  /-- Absent means enabled; `false` is a refusal. -/
  vaultEnabled : Option Bool
  state : Option Bytes
  groupIds : List String
  verified : Option (Dictionary String)
  cursors : Option (Dictionary Nat)
  knownDevices : Option (Dictionary (List String))
  signals : Option StoredSignals
  signalsAt : Option Nat
  prefStamps : Option (Dictionary Js)
  postingKeys : Option (Dictionary String)
  logHead : Option LogHead
  history : Option StoredHistory
  discloseConversationName : Option Bool
  conversationFlags : Option (Dictionary Js)
  locale : Option String
  searchCoverage : Option (Dictionary Js)
  contactPolicy : Option Js
  blocked : Option (List String)
  recentEmojis : Option (List String)
  skinTone : Option Nat
  displayName : Option String
  profiles : Option (Dictionary Profile)
  petnames : Option (Dictionary String)

/-! ## Writing -/

def RECENT_PER_CONVERSATION : Nat := 200

/-- The tail of a conversation, in sequence order. -/
def recent (messages : List Message) : List Message :=
  let sorted := messages.insertionSort (·.seq ≤ ·.seq)
  sorted.drop (sorted.length - RECENT_PER_CONVERSATION)

section Write

variable (number : Rat → List Char)

def encodeMessage (message : Message) : Except Thrown StoredMessage := do
  return {
    seq := message.seq
    sender := message.sender
    mine := message.mine
    body := ← Wire.encode number message.content message.sentAt
    expiresAt := message.expiresAt }

def encodeHistory (conversations : Dictionary View) : Except Thrown StoredHistory := do
  let out ← conversations.entries.mapM fun (key, view) => do
    return (key, ← (recent view.messages).mapM (encodeMessage number))
  return {
    conversations := (Dictionary.ofEntries out).filterMap fun stored =>
      if stored.isEmpty then none else some stored
    outbox := conversations.filterMap fun view =>
      if view.outbox.isEmpty then none else some view.outbox
    read := conversations.filterMap fun view =>
      if view.readCursor > 0 then some view.readCursor else none }

end Write

def toBase64 (bytes : Bytes) : String := Base64.encode bytes

/-- A dictionary that is left out when there is nothing in it. -/
def whenFilled (d : Dictionary α) : Option (Dictionary α) := if d.keys.isEmpty then none else some d

def witnessSnapshot (witness : Option SeenHead) : Option LogHead :=
  witness.map fun seen => ⟨seen.size, toBase64 seen.root, toBase64 seen.logKey⟩

/-- The record, around its history: each slice is what the part of the session that owns it
writes. -/
def storedWith (s : Live) (history : StoredHistory) : StoredSession :=
  let views := s.conversations.entries.map Prod.snd
  let preferences := s.settings.preferences
  { cursors := some (.ofEntries (views.map fun view => (view.key, view.cursor)))
    deviceId := s.deviceId
    account := some s.accountId
    handle := s.handle
    accountSeed := s.accountSeed
    lock := s.lockbox
    vaultEnabled := some s.archive
    state := some s.client.state
    groupIds := s.client.conversations
    verified := some s.trust.fingerprints
    knownDevices := some s.trust.devices
    signals := some {
      readReceipts := some s.signals.readReceipts
      typingIndicator := some s.signals.typingIndicator
      presence := s.signals.presence
      calls := some s.signals.calls }
    signalsAt := s.signalsAt
    prefStamps := some s.prefStamps
    postingKeys := some (.ofEntries (views.filterMap fun view =>
      view.postingKey.map fun postingKey => (view.key, toBase64 postingKey)))
    discloseConversationName := some s.settings.disclose
    conversationFlags := some preferences.conversations
    searchCoverage := some preferences.searchCoverage
    blocked := some preferences.blocked
    recentEmojis := some preferences.recentEmojis
    locale := preferences.locale
    contactPolicy := preferences.contactPolicy
    skinTone := preferences.skinTone
    displayName := s.names.own
    profiles := whenFilled s.names.declared
    handles := whenFilled (s.names.claimed.map fun claim => ⟨claim.name, claim.at_⟩)
    petnames := whenFilled s.names.given
    history := some history
    logHead := witnessSnapshot s.witness }

def composeStored (number : Rat → List Char) (s : Live) : Except Thrown StoredSession :=
  (encodeHistory number s.conversations).map (storedWith s)

/-! ## Reading -/

structure Cached where
  messages : List Message
  outbox : List Pending
  readCursor : Nat

/-- An entry that does not decode is dropped on its own. -/
def decodeMessage (now : Nat) (entry : StoredMessage) : Option Message :=
  match Wire.decode now (.whole entry.body) with
  | .ok ⟨body, sentAt⟩ => some {
      seq := entry.seq
      sender := entry.sender
      mine := entry.mine
      content := body
      sentAt
      expiresAt := entry.expiresAt }
  | .error _ => none

/-- What is restored of a conversation so far. -/
def restoredAt (restored : Dictionary Cached) (key : String) : Cached :=
  (restored.get? key).getD ⟨[], [], 0⟩

def pushMessage (key : String) (restored : Dictionary Cached) (message : Message) :
    Dictionary Cached :=
  let cached := restoredAt restored key
  restored.set key { cached with messages := cached.messages ++ [message] }

/-- What was in flight comes back as failed. -/
def pushPending (key : String) (restored : Dictionary Cached) (pending : Pending) :
    Dictionary Cached :=
  let cached := restoredAt restored key
  restored.set key { cached with outbox := cached.outbox ++ [{ pending with state := .failed }] }

def restoreMessages (now : Nat) (restored : Dictionary Cached)
    (entry : String × List StoredMessage) : Dictionary Cached :=
  (entry.2.filterMap (decodeMessage now)).foldl (pushMessage entry.1) restored

def restoreOutbox (restored : Dictionary Cached) (entry : String × List Pending) :
    Dictionary Cached :=
  entry.2.foldl (pushPending entry.1) restored

def restoreRead (restored : Dictionary Cached) (entry : String × Nat) : Dictionary Cached :=
  if restored.has entry.1 then
    restored.set entry.1 { restoredAt restored entry.1 with readCursor := entry.2 }
  else restored

def decodeHistory (now : Nat) (payload : StoredHistory) : Dictionary Cached :=
  let restored := payload.conversations.entries.foldl (restoreMessages now) ∅
  let restored := payload.outbox.entries.foldl restoreOutbox restored
  let restored := payload.read.entries.foldl restoreRead restored
  restored.filterMap fun cached =>
    if cached.messages.isEmpty && cached.outbox.isEmpty then none else some cached

/-- Why a session does not open. -/
inductive OpenError where
  | storedSessionTooOld
  | invalidCharacter
  deriving DecidableEq, Repr

def fromBase64 (text : String) : Except OpenError Bytes :=
  match Base64.decode text with
  | some bytes => .ok bytes
  | none => .error .invalidCharacter

/-- What a session is opened with: the clock, whether the vault key can be derived and imported, the
order in which the client lists its groups, and what a group's context says of its lifetime. -/
structure Opening where
  now : Nat
  importsVaultKey : Bool
  conversationIds : List String → List String
  lifetimeSeconds : Bytes → String → Option Nat

/-- `expiryOf`. -/
def expiryOf (sentAt : Option Rat) (seenAt : Rat) (lifetimeSeconds : Nat) : Option Rat :=
  if lifetimeSeconds = 0 then none
  else sentAt.map fun sentAt => min sentAt seenAt + lifetimeSeconds * 1000

def isExpired (message : Message) (now : Rat) : Bool := message.expiresAt.any (· ≤ now)

def prune (messages : List Message) (now : Rat) : List Message :=
  messages.filter fun message => !isExpired message now

section Read

variable (o : Opening)

/-- A deadline for a message that has none. -/
def stampMissing (lifetime : Nat) (message : Message) : Message :=
  if message.expiresAt.isSome then message
  else { message with expiresAt := expiryOf message.sentAt o.now lifetime }

def stampAndPrune (state : Bytes) (view : View) : View :=
  let lifetime := (o.lifetimeSeconds state view.groupId).getD 0
  if lifetime = 0 then view
  else { view with messages := prune (view.messages.map (stampMissing o lifetime)) o.now }

def openPostingKey (stored : StoredSession) (key : String) : Except OpenError (Option Bytes) :=
  match (stored.postingKeys.getD ∅).get? key with
  | none => .ok none
  | some text => if text = "" then .ok none else (fromBase64 text).map some

/-- The view of a group, before its deadlines are looked at. -/
def openView (stored : StoredSession) (cached : Dictionary Cached) (groupId : String) :
    Except OpenError View := do
  let kept := cached.get? groupId
  return {
    groupId
    key := groupId
    messages := (kept.map (·.messages)).getD []
    cursor := ((stored.cursors.getD ∅).get? groupId).getD 0
    postingKey := ← openPostingKey stored groupId
    outbox := (kept.map (·.outbox)).getD []
    readCursor := (kept.map (·.readCursor)).getD 0
    contentCursor := 0 }

def openSignals (stored : Option StoredSignals) : SignalSettings where
  readReceipts := (stored.bind (·.readReceipts)).getD true
  typingIndicator := (stored.bind (·.typingIndicator)).getD true
  presence := stored.bind (·.presence)
  calls := (stored.bind (·.calls)).getD true

def PreferencesStore.hydrate (stored : StoredSession) : PreferencesStore where
  disclose := stored.discloseConversationName == some true
  preferences := {
    conversations := stored.conversationFlags.getD ∅
    searchCoverage := stored.searchCoverage.getD ∅
    blocked := stored.blocked.getD []
    recentEmojis := stored.recentEmojis.getD []
    locale := stored.locale
    contactPolicy := stored.contactPolicy
    skinTone := stored.skinTone }

def hydrateNames (stored : StoredSession) : Names where
  own := stored.displayName
  declared := stored.profiles.getD ∅
  claimed := (stored.handles.getD ∅).map fun claim => ⟨claim.handle, claim.at_⟩
  given := stored.petnames.getD ∅

def TrustStore.hydrate (stored : StoredSession) : TrustStore where
  fingerprints := stored.verified.getD ∅
  devices := stored.knownDevices.getD ∅

def hydrateWitness (stored : StoredSession) : Except OpenError (Option SeenHead) :=
  match stored.logHead with
  | none => .ok none
  | some head => do
    return some ⟨head.size, ← fromBase64 head.root, ← fromBase64 head.logKey⟩

/-- `Session.open`: no session without an MLS state, a refusal without an account id. -/
def openSession (stored : StoredSession) : Except OpenError (Option Live) :=
  match stored.state with
  | none => .ok none
  | some state =>
    match stored.account.filter isAccountId with
    | none => .error .storedSessionTooOld
    | some account => do
      let cached := (stored.history.map (decodeHistory o.now)).getD ∅
      let views ← stored.groupIds.mapM (openView stored cached)
      let conversations := Dictionary.ofEntries (views.map fun view => (view.key, view))
      return some {
        deviceId := stored.deviceId
        accountId := account
        handle := stored.handle
        client := { state, conversations := o.conversationIds stored.groupIds }
        accountSeed := stored.accountSeed
        lockbox := stored.lock
        archive := if stored.vaultEnabled = some false then false else o.importsVaultKey
        conversations := conversations.map (stampAndPrune o state)
        trust := .hydrate stored
        signals := openSignals stored.signals
        signalsAt := stored.signalsAt
        prefStamps := stored.prefStamps.getD ∅
        settings := .hydrate stored
        names := hydrateNames stored
        witness := ← hydrateWitness stored }

end Read

/-! ## The history -/

/-- What a conversation with nothing to restore comes to. -/
def cachedOf (messages : List Message) (outbox : List Pending) (readCursor : Nat) : Option Cached :=
  if messages.isEmpty && outbox.isEmpty then none else some ⟨messages, outbox, readCursor⟩

def Pending.fail (pending : Pending) : Pending := { pending with state := .failed }

theorem get?_foldl_push (f : Cached → β → Cached) (key k : String) (l : List β)
    (restored : Dictionary Cached) :
    (l.foldl (fun r b => r.set key (f (restoredAt r key) b)) restored).get? k =
      if k = key ∧ l ≠ [] then some (l.foldl f (restoredAt restored key))
      else restored.get? k := by
  induction l generalizing restored with
  | nil => simp
  | cons b l ih =>
    rw [List.foldl_cons, ih]
    have hat : restoredAt (restored.set key (f (restoredAt restored key) b)) key =
        f (restoredAt restored key) b := by
      rw [restoredAt, Dictionary.get?_set_self, Option.getD_some]
    rcases eq_or_ne k key with rfl | hne
    · rw [hat, if_pos (c := k = k ∧ b :: l ≠ []) ⟨rfl, List.cons_ne_nil b l⟩, List.foldl_cons]
      split
      · rfl
      · rename_i hnil
        rw [not_and, not_not] at hnil
        rw [Dictionary.get?_set_self, hnil rfl, List.foldl_nil]
    · rw [if_neg (fun h => hne h.1), if_neg (fun h => hne h.1), Dictionary.get?_set_of_ne _ _ hne]

theorem foldl_messages (l : List Message) (cached : Cached) :
    l.foldl (fun cached m => { cached with messages := cached.messages ++ [m] }) cached =
      { cached with messages := cached.messages ++ l } := by
  induction l generalizing cached with
  | nil => rw [List.append_nil]; rfl
  | cons m l ih => rw [List.foldl_cons, ih, List.append_assoc, List.singleton_append]

theorem foldl_outbox (l : List Pending) (cached : Cached) :
    l.foldl (fun cached p => { cached with outbox := cached.outbox ++ [p.fail] }) cached =
      { cached with outbox := cached.outbox ++ l.map Pending.fail } := by
  induction l generalizing cached with
  | nil => rw [List.map_nil, List.append_nil]; rfl
  | cons p l ih =>
    rw [List.foldl_cons, ih, List.append_assoc, List.map_cons, List.singleton_append]

theorem get?_restoreMessages (now : Nat) (conversations : Dictionary (List StoredMessage))
    (key : String) :
    (conversations.entries.foldl (restoreMessages now) ∅).get? key =
      cachedOf (((conversations.get? key).getD []).filterMap (decodeMessage now)) [] 0 := by
  have turn : ∀ restored entry (k : String), (restoreMessages now restored entry).get? k =
      if k = entry.1 ∧ entry.2.filterMap (decodeMessage now) ≠ [] then
        some { restoredAt restored entry.1 with
          messages := (restoredAt restored entry.1).messages ++
            entry.2.filterMap (decodeMessage now) }
      else restored.get? k := fun restored entry k => by
    rw [← foldl_messages]
    exact get?_foldl_push (fun cached m => { cached with messages := cached.messages ++ [m] }) ..
  rw [Dictionary.view_foldl (v := Dictionary.get?)
    (g := fun _ old (stored : List StoredMessage) =>
      if stored.filterMap (decodeMessage now) ≠ [] then
        some { old.getD ⟨[], [], 0⟩ with
          messages := (old.getD ⟨[], [], 0⟩).messages ++ stored.filterMap (decodeMessage now) }
      else old)
    (fun restored entry key hne => by rw [turn, if_neg fun h => hne h.1])
    (fun restored entry => by rw [turn]; simp [restoredAt])]
  cases conversations.get? key with
  | none => rfl
  | some stored =>
    rw [Option.elim_some, Option.getD_some]
    cases stored.filterMap (decodeMessage now) <;> simp [cachedOf]

theorem get?_restoreOutbox (outbox : Dictionary (List Pending)) (restored : Dictionary Cached)
    (key : String) :
    (outbox.entries.foldl restoreOutbox restored).get? key =
      if (outbox.get? key).getD [] ≠ [] then
        some { restoredAt restored key with
          outbox := (restoredAt restored key).outbox ++
            ((outbox.get? key).getD []).map Pending.fail }
      else restored.get? key := by
  have turn : ∀ restored entry (k : String), (restoreOutbox restored entry).get? k =
      if k = entry.1 ∧ entry.2 ≠ [] then
        some { restoredAt restored entry.1 with
          outbox := (restoredAt restored entry.1).outbox ++ entry.2.map Pending.fail }
      else restored.get? k := fun restored entry k => by
    rw [← foldl_outbox]
    exact get?_foldl_push
      (fun cached (p : Pending) => { cached with outbox := cached.outbox ++ [p.fail] }) ..
  rw [Dictionary.view_foldl (v := Dictionary.get?)
    (g := fun _ old (stored : List Pending) => if stored ≠ [] then
      some { old.getD ⟨[], [], 0⟩ with
        outbox := (old.getD ⟨[], [], 0⟩).outbox ++ stored.map Pending.fail }
      else old)
    (fun restored entry key hne => by rw [turn, if_neg fun h => hne h.1])
    (fun restored entry => by rw [turn]; simp [restoredAt])]
  cases outbox.get? key with
  | none => rfl
  | some stored => rfl

theorem get?_restoreRead (read : Dictionary Nat) (restored : Dictionary Cached) (key : String) :
    (read.entries.foldl restoreRead restored).get? key =
      (restored.get? key).map fun cached =>
        { cached with readCursor := (read.get? key).getD cached.readCursor } := by
  rw [Dictionary.view_foldl (v := Dictionary.get?)
    (g := fun _ old (cursor : Nat) => old.map fun cached => { cached with readCursor := cursor })
    (fun restored entry key hne => by
      rw [restoreRead]
      split
      · rw [Dictionary.get?_set_of_ne _ _ hne]
      · rfl)
    (fun restored entry => by
      rw [restoreRead, Dictionary.has]
      cases h : restored.get? entry.1 with
      | none => simp [h]
      | some cached => simp [h, Dictionary.get?_set_self, restoredAt])]
  cases read.get? key with
  | none => simp
  | some cursor => rfl

theorem get?_decodeHistory (now : Nat) (payload : StoredHistory) (key : String) :
    (decodeHistory now payload).get? key =
      cachedOf (((payload.conversations.get? key).getD []).filterMap (decodeMessage now))
        (((payload.outbox.get? key).getD []).map Pending.fail)
        ((payload.read.get? key).getD 0) := by
  rw [decodeHistory, Dictionary.get?_filterMap, get?_restoreRead, get?_restoreOutbox, restoredAt,
    get?_restoreMessages]
  generalize ((payload.conversations.get? key).getD []).filterMap (decodeMessage now) = messages
  generalize (payload.outbox.get? key).getD [] = outbox
  cases messages <;> cases outbox <;> simp [cachedOf]

end Whispee.Session.Hydrate
