import Whispee.Lib.Transition
import Mathlib.Data.Finset.Card

/-!
# Moving an install to native storage

`decide` and `migrate` of `apps/web/src/lib/migration.ts`, with the steps that `migrateToNative`,
`fromSeed` and `attach` of `apps/web/src/lib/session.ts` give them, and `start`, which offers the
migration. The app runs in one page at a time, which may close at any moment; `migrate` stands at
one of its awaits, and while it waits the two devices gain and lose conversations, and every session
in memory may be written to its anchor. What a page with no web session does is left out.
-/

namespace Whispee.Migration

/-- What is known about a stored session that has not been opened. -/
structure Presence where
  handle : String
  /-- Absent is not a refusal. -/
  vaultEnabled : Option Bool
  deriving DecidableEq

inductive Decision where
  | fresh
  | native
  | start (handle : String)
  | resume (handle : String)
  | fallback (reason : String)
  deriving DecidableEq

def NO_VAULT : String :=
  "History backup is turned off: migrating to app storage would permanently lose your " ++
  "conversations, which the new device could not re-read anywhere. The app keeps working as " ++
  "before."

def CONFLICT : String :=
  "App storage already holds another account's session. No migration is attempted: overwriting " ++
  "it would destroy an identity the server still knows about and that nothing could prove any more."

def decide (web native : Option Presence) : Decision :=
  match web, native with
  | none, none => .fresh
  | none, some _ => .native
  | some web, none =>
    if web.vaultEnabled = some false then .fallback NO_VAULT else .start web.handle
  | some web, some native =>
    if native.handle ≠ web.handle then .fallback CONFLICT else .resume web.handle

/-- How many waiting rounds before giving up on propagation. -/
def MAX_ROUNDS : Nat := 20

inductive DeviceKind where
  | desktop
  | mobile
  deriving DecidableEq

def DeviceKind.name : DeviceKind → String
  | .desktop => "desktop"
  | .mobile => "mobile"

def deviceNameCandidates (kind : DeviceKind) : List String :=
  kind.name :: (List.range' 2 19).map fun n => kind.name ++ "-" ++ toString n

/-! ## Sessions -/

/-- What an anchor holds of a session. -/
structure Stored where
  deviceId : String
  account : String
  handle : String
  vaultEnabled : Option Bool
  groupIds : Finset String
  deriving DecidableEq

def Stored.presence (stored : Stored) : Presence where
  handle := stored.handle
  vaultEnabled := stored.vaultEnabled

/-- A session in memory. -/
structure Session where
  deviceId : String
  account : String
  handle : String
  /-- Is the key of the archive there? -/
  archive : Bool
  /-- The groups its MLS client is in. -/
  groupIds : Finset String
  conversations : Finset String
  deriving DecidableEq

/-- `Session.open`; importing the key of the archive may fail. -/
def Stored.reopen (stored : Stored) (opened : Bool) : Session where
  deviceId := stored.deviceId
  account := stored.account
  handle := stored.handle
  archive := stored.vaultEnabled ≠ some false && opened
  groupIds := stored.groupIds
  conversations := stored.groupIds

/-- What `persist` writes. -/
def Session.stored (s : Session) : Stored where
  deviceId := s.deviceId
  account := s.account
  handle := s.handle
  vaultEnabled := some s.archive
  groupIds := s.groupIds

def Session.gain (s : Session) (group : String) : Session :=
  { s with groupIds := insert group s.groupIds, conversations := insert group s.conversations }

/-- `dropEmptyConversations`, which leaves the MLS client alone. -/
def Session.lose (s : Session) (group : String) : Session :=
  { s with conversations := s.conversations.erase group }

/-- Where a run of `migrate` stands. -/
inductive Position where
  /-- It is offered, or was given up. -/
  | idle
  /-- `Session.open(native)` -/
  | opening
  /-- `Api.resolveHandle`, in `fromSeed` -/
  | resolving
  /-- `Api.register`, with the names there are left. -/
  | registering (id : String) (names : List String)
  /-- The server has the device; its session is not stored yet. -/
  | storing (session : Session)
  | propagating (round : Nat)
  | counting (round : Nat)
  | waiting (round : Nat)
  | restoring
  /-- `revokeDevice` -/
  | revoking
  /-- The poll that follows it. -/
  | settling
  | forgetting
  | done
  deriving DecidableEq

/-- Past the wait for the propagation. -/
def Position.committed : Position → Bool
  | .restoring | .revoking | .settling | .forgetting => true
  | _ => false

def Position.isStoring : Position → Bool
  | .storing _ => true
  | _ => false

structure Page where
  kind : DeviceKind
  old : Session
  /-- Of the old session: nothing is written for it any more. -/
  forgotten : Bool
  decision : Decision
  /-- `nextSession` -/
  next : Option Session
  position : Position

def Page.starts (p : Page) : Bool :=
  match p.decision with
  | .start _ => true
  | _ => false

/-- The groups the new device has joined. -/
def Page.joined (p : Page) : Finset String := (p.next.map Session.groupIds).getD ∅

/-- The session that `attach` makes of a registered device. -/
def Page.attached (p : Page) (id name : String) : Session where
  deviceId := id ++ ":" ++ name
  account := id
  handle := p.old.handle
  archive := true
  groupIds := ∅
  conversations := ∅

/-- What is done to the server and to the two anchors. -/
inductive Deed where
  /-- A native device is registered. -/
  | register (device : String)
  /-- Something is written to native storage. -/
  | write (before : Option Stored) (after : Stored)
  /-- The old device is revoked: its conversations, and the groups the new one has joined. -/
  | revoke (conversations joined : Finset String)
  /-- The web session is erased. -/
  | erase (conversations joined : Finset String)
  deriving DecidableEq

structure World where
  web : Option Stored
  native : Option Stored
  /-- The device ids that are taken. -/
  devices : List String
  page : Option Page
  history : List Deed

inductive Action where
  /-- The app starts, and the web session can be opened. -/
  | restart (kind : DeviceKind) (opened : Bool)
  | crash
  /-- On the start screen, an account is created in the app storage or restored to it. -/
  | install (session : Stored)
  /-- A session joins a conversation or creates one. -/
  | gainOld (group : String)
  | gainNext (group : String)
  | loseOld (group : String)
  | loseNext (group : String)
  /-- The old session's archive is switched. -/
  | switch (archive : Bool)
  | persistOld
  | persistNext
  /-- The user takes up the offer. -/
  | execute
  /-- The awaited call answers. -/
  | opened (archive : Bool)
  | resolved (id : String)
  | registered
  | saved (archive : Bool)
  | polled
  | counted
  | waited
  | restored
  | revoked
  | cleared
  /-- The awaited call fails, and does nothing. -/
  | fail
  /-- The server does what it is asked, and its answer is lost. -/
  | registeredUnheard
  | revokedUnheard

namespace World

variable (w : World) (p : Page)

def put (p : Page) : World := { w with page := some p }

/-- The run ends with an error, and may be started again. -/
def abandon : World := w.put { p with next := none, position := .idle }

def write (after : Stored) : World :=
  { w with native := some after, history := w.history ++ [.write w.native after] }

def register (device : String) : World :=
  { w with devices := device :: w.devices, history := w.history ++ [.register device] }

def revoke : World := { w with history := w.history ++ [.revoke p.old.conversations p.joined] }

def erase : World :=
  { w with web := none, history := w.history ++ [.erase p.old.conversations p.joined] }

/-- The server answers a registration: the attestation is the old session's account's, and a name
that is taken is refused with a 409. -/
def answerRegister (id : String) : List String → World
  | [] => w.abandon p
  | name :: names =>
    if id ≠ p.old.account then w.abandon p
    else if id ++ ":" ++ name ∈ w.devices then
      if names = [] then w.abandon p
      else w.put { p with position := .registering id names }
    else (w.register (id ++ ":" ++ name)).put
      { p with position := .storing (p.attached id name) }

/-- `progress`, and the test of the loop: two sizes. -/
def count (round : Nat) : World :=
  if p.old.conversations.card ≤ ((p.next.map Session.conversations).getD ∅).card then
    w.put { p with position := .restoring }
  else if MAX_ROUNDS ≤ round then w.abandon p
  else w.put { p with position := .waiting round }

/-- `revokeOld`, up to the request. -/
def startRevoke : World :=
  match p.next with
  | none => w.abandon p
  | some next =>
    if next.deviceId = p.old.deviceId then w.abandon p
    else w.put { p with position := .revoking }

/-- A device revokes those of its own account. -/
def mayRevoke (p : Page) : Bool :=
  match p.next with
  | none => false
  | some next => next.account = p.old.account

/-- What a page may do, or hear. -/
def stepPage : Action → Option World
  | .crash => some { w with page := none }
  | .gainOld group => some (w.put { p with old := p.old.gain group })
  | .gainNext group => some (w.put { p with next := p.next.map (·.gain group) })
  | .loseOld group => some (w.put { p with old := p.old.lose group })
  | .loseNext group => some (w.put { p with next := p.next.map (·.lose group) })
  | .switch archive => some (w.put { p with old := { p.old with archive } })
  | .persistOld => if p.forgotten then none else some { w with web := some p.old.stored }
  | .persistNext => p.next.map fun next => w.write next.stored
  | .execute =>
    match p.position, p.decision with
    | .idle, .start _ | .idle, .resume _ => some (w.put { p with position := .opening })
    | _, _ => none
  | .opened archive =>
    if p.position = .opening then
      match p.decision with
      | .start _ => some (w.put
          { p with next := w.native.map (·.reopen archive), position := .resolving })
      | _ => some (w.put
          { p with next := w.native.map (·.reopen archive), position := .propagating 0 })
    else none
  | .resolved id =>
    if p.position = .resolving then
      some (w.put { p with position := .registering id (deviceNameCandidates p.kind) })
    else none
  | .registered =>
    match p.position with
    | .registering id names => some (w.answerRegister p id names)
    | _ => none
  | .registeredUnheard =>
    match p.position with
    | .registering id (name :: _) =>
      if id = p.old.account ∧ id ++ ":" ++ name ∉ w.devices then
        some ((w.register (id ++ ":" ++ name)).abandon p)
      else none
    | _ => none
  | .saved archive =>
    match p.position with
    | .storing session => some ((w.write { session with archive }.stored).put
        { p with next := some { session with archive }, position := .propagating 0 })
    | _ => none
  | .polled =>
    match p.position with
    | .propagating round => some (w.put { p with position := .counting round })
    | .settling => some (w.put { p with forgotten := true, position := .forgetting })
    | _ => none
  | .counted =>
    match p.position with
    | .counting round => some (w.count p round)
    | _ => none
  | .waited =>
    match p.position with
    | .waiting round => some (w.put { p with position := .propagating (round + 1) })
    | _ => none
  | .restored => if p.position = .restoring then some (w.startRevoke p) else none
  | .revoked =>
    if p.position = .revoking then
      if mayRevoke p then some ((w.revoke p).put { p with position := .settling })
      else some (w.abandon p)
    else none
  | .revokedUnheard =>
    if p.position = .revoking ∧ mayRevoke p then some ((w.revoke p).abandon p) else none
  | .cleared =>
    if p.position = .forgetting then some ((w.erase p).put { p with position := .done }) else none
  | .fail => if p.position = .idle ∨ p.position = .done then none else some (w.abandon p)
  | .restart .. | .install _ => none

def step (w : World) (a : Action) : Option World :=
  match w.page with
  | some p => w.stepPage p a
  | none =>
    match a with
    | .restart kind opened => w.web.map fun stored => w.put {
        kind
        old := stored.reopen opened
        forgotten := false
        decision := decide (some stored.presence) (w.native.map Stored.presence)
        next := none
        position := .idle }
    | .install session => if w.native = none then some { w with native := some session } else none
    | _ => none

/-- No page is open, and nothing has been done. -/
def start (web native : Option Stored) (devices : List String) : World where
  web
  native
  devices
  page := none
  history := []

end World

/-! ## What the migration owes -/

def Deed.registers : Deed → Bool
  | .register _ => true
  | _ => false

structure Safe (history : List Deed) : Prop where
  revoked : ∀ {conversations joined}, .revoke conversations joined ∈ history →
    conversations ⊆ joined
  erased : ∀ {conversations joined}, .erase conversations joined ∈ history →
    conversations ⊆ joined
  /-- Native storage stays with the account whose session it holds. -/
  kept : ∀ {before after}, .write (some before) after ∈ history → before.account = after.account
  once : history.countP Deed.registers ≤ 1

/-- The two counts stand for inclusion; what the old device gains after they were compared the new
one has; a run whose device the server has registered gets to store its session; and the offer to
start is taken up only while native storage is empty. -/
def World.guard (w : World) (a : Action) : Bool :=
  match w.page with
  | none => true
  | some p =>
    match a with
    | .counted =>
      p.old.conversations.card ≤ ((p.next.map Session.conversations).getD ∅).card →
        p.old.conversations ⊆ p.joined
    | .gainOld group => p.position.committed → group ∈ p.joined
    | .crash | .fail => !p.position.isStoring
    | .registeredUnheard => false
    | .execute => p.starts → w.native = none
    | _ => true

end Whispee.Migration
