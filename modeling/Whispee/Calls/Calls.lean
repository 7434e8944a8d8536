import Mathlib.Data.List.Basic
import Mathlib.Data.Int.Order.Basic

/-!
# Calls

The class `Calls` of `apps/web/src/lib/session-call.ts`: what one device is doing about a call, and
the awaits its methods are suspended at. `admit`, `announce` and the media layer are whatever their
answers are; a method runs up to its next await in one step. `rekey` only hands a key to the room
and is left out, as is `changed`, which repaints.
-/

namespace Whispee.Calls

def RING_TIMEOUT_MS : Nat := 30000

def ALIVE_INTERVAL_MS : Nat := 5000

def ALIVE_TIMEOUT_MS : Nat := ALIVE_INTERVAL_MS * 3

inductive CallPhase where
  | idle
  | dialling
  | ringing
  | incoming
  | connected
  deriving DecidableEq

/-- An ephemeral frame. -/
inductive CallSignalEvent where
  | ringing
  | accepted
  | declined
  | left
  | alive
  | muted
  | unmuted
  deriving DecidableEq

/-- A durable call message. -/
inductive CallEvent where
  | invite
  | ended
  | missed
  deriving DecidableEq

structure CallState where
  phase : CallPhase
  /-- The call's own id. Empty when idle. -/
  call : String
  /-- The conversation it belongs to. Empty when idle. -/
  group : String
  /-- Who placed it, as an account id. -/
  fromAccount : String
  /-- When this phase began. -/
  since : Nat
  /-- When the media connection was established. Zero until then. -/
  connectedAt : Nat
  muted : Bool
  /-- The other participants, as room identities. -/
  peers : List String
  deriving DecidableEq

def IDLE : CallState where
  phase := .idle
  call := ""
  group := ""
  fromAccount := ""
  since := 0
  connectedAt := 0
  muted := false
  peers := []

/-- A frame handed to `signal`. -/
structure Signal where
  group : String
  event : CallSignalEvent
  call : String
  deriving DecidableEq

/-- A message handed to `announce`. -/
structure Announcement where
  group : String
  event : CallEvent
  call : String
  seconds : Int
  deriving DecidableEq

/-- Where a method is suspended. -/
inductive Task where
  /-- `place` waits for its invitation. -/
  | announcing (group call : String)
  /-- `enter` waits for the server's admission. -/
  | admitting (group call : String)
  /-- `enter` waits for the media layer. -/
  | joining (call : String)
  /-- `enter` waits for a room it leaves at once. -/
  | leaving (call : String)
  /-- `hang` waits for the room it has left, and then announces this. -/
  | closing (group call : String) (connectedAt : Nat) (conclusion : Option CallEvent)
  /-- `hang` waits for its announcement. -/
  | concluding (call : String)
  /-- `mute` was called during this call, and waits for the room. -/
  | muting (call : String) (muted : Bool)
  | finished
  deriving DecidableEq

/-- The call a method was started for. -/
def Task.call? : Task → Option String
  | .announcing _ call | .admitting _ call | .joining call | .leaving call
  | .closing _ call _ _ | .concluding call | .muting call _ => some call
  | .finished => none

end Calls

open Calls in
structure Calls where
  state : CallState
  /-- The room held, named by the task that joined it. -/
  room : Option Nat
  /-- When the last sign of life from the far side arrived. -/
  heard : Nat
  /-- Whether this device placed the call it is in. -/
  placed : Bool
  /-- How many accounts this call is waiting on, and which of them have said no. -/
  awaited : Nat
  declined : List String
  tasks : List Task
  /-- The calls that `media.join` was called for, whose callbacks may come at any time. -/
  listening : List String
  signals : List Signal
  announced : List Announcement
  /-- The rooms joined and not asked to leave. -/
  unleft : List Nat
  deriving DecidableEq

namespace Calls

def start : Calls where
  state := IDLE
  room := none
  heard := 0
  placed := false
  awaited := 0
  declined := []
  tasks := []
  listening := []
  signals := []
  announced := []
  unleft := []

inductive Action where
  /-- With the id that `newCallId` returns. -/
  | place (call group fromAccount : String) (awaited now : Nat)
  | receive (group call fromAccount : String) (now : Nat)
  | accept
  | hang
  | mute (muted : Bool)
  | absorb (event : CallSignalEvent) (call device ours account : String) (now : Nat)
  | tick (now : Nat)
  /-- What task `k` waits for comes. -/
  | resolve (k now : Nat)
  /-- The room that task `k` has asked for comes, with these participants in it. -/
  | joined (k : Nat) (peers : List String) (now : Nat)
  /-- What task `k` waits for fails. -/
  | reject (k : Nat)
  /-- The callbacks of a room that was asked for during this call. -/
  | onPeers (call : String) (peers : List String) (now : Nat)
  | onClosed (call : String)
  deriving DecidableEq

variable (s : Calls)

/-- True while this device has no business accepting another call. -/
def busy : Bool := s.state.phase ≠ .idle

def signal (group : String) (event : CallSignalEvent) (call : String) : Calls :=
  { s with signals := s.signals ++ [⟨group, event, call⟩] }

def announce (group : String) (event : CallEvent) (call : String) (seconds : Int) : Calls :=
  { s with announced := s.announced ++ [⟨group, event, call, seconds⟩] }

def addTask (task : Task) : Calls := { s with tasks := s.tasks ++ [task] }

def setTask (k : Nat) (task : Task) : Calls := { s with tasks := s.tasks.set k task }

/-- The synchronous part of `close`: the room is asked to leave. -/
def close : Calls :=
  { s with
    room := none
    placed := false
    state := IDLE
    unleft := s.unleft.filter fun room => s.room ≠ some room }

/-- What `hang` will announce, as it is when it is called. -/
def conclusion : Option CallEvent :=
  if s.state.connectedAt ≠ 0 then
    if s.state.peers.length > 0 then none else some .ended
  else if s.placed ∧ (s.state.phase = .dialling ∨ s.state.phase = .ringing) then some .missed
  else none

def hang : Calls :=
  if s.state.phase = .idle then s
  else
    let { phase, group, call, connectedAt, .. } := s.state
    let conclusion := s.conclusion
    ((s.signal group (if phase = .incoming then .declined else .left) call).close).addTask
      (.closing group call connectedAt conclusion)

def observed (call : String) (peers : List String) (now : Nat) : Calls :=
  if s.state.call ≠ call then s
  else
    let s := { s with heard := now }
    if peers.length > 0 ∧ s.state.connectedAt = 0 then
      { s with
        state := { s.state with phase := .connected, since := now, connectedAt := now, peers } }
    else
      let s := { s with state := { s.state with peers } }
      if peers.length = 0 ∧ s.state.phase = .connected then s.hang else s

def place (call group fromAccount : String) (awaited now : Nat) : Calls :=
  if s.busy then s
  else
    let s := { s with
      placed := true
      awaited := max 1 awaited
      declined := []
      state := { IDLE with phase := .dialling, call, group, fromAccount, since := now } }
    (s.announce group .invite call 0).addTask (.announcing group call)

def receive (group call fromAccount : String) (now : Nat) : Calls :=
  if s.busy then s.signal group .declined call
  else
    let s := { s with
      placed := false
      awaited := 1
      declined := []
      state := { IDLE with phase := .incoming, call, group, fromAccount, since := now }
      heard := now }
    s.signal group .ringing call

def accept : Calls :=
  if s.state.phase ≠ .incoming then s
  else
    (s.signal s.state.group .accepted s.state.call).addTask
      (.admitting s.state.group s.state.call)

def mute (muted : Bool) : Calls :=
  if s.state.phase ≠ .connected then s else s.addTask (.muting s.state.call muted)

def absorb (event : CallSignalEvent) (call device ours account : String) (now : Nat) : Calls :=
  if call ≠ s.state.call ∨ device = ours then s
  else
    let s := { s with heard := now }
    match event with
    | .declined | .left =>
      if s.state.connectedAt ≠ 0 then s
      else if !s.placed then if account = s.state.fromAccount then s.hang else s
      else
        let s := { s with declined := s.declined.insert account }
        if s.declined.length ≥ s.awaited then s.hang else s
    | .accepted | .ringing | .alive | .muted | .unmuted => s

def tick (now : Nat) : Calls :=
  if s.state.phase = .idle then s
  else if s.state.phase = .connected then s.signal s.state.group .alive s.state.call
  else if s.state.since + RING_TIMEOUT_MS ≤ now ∨ s.heard + ALIVE_TIMEOUT_MS ≤ now then s.hang
  else
    s.signal s.state.group (if s.state.phase = .incoming then .ringing else .alive) s.state.call

/-- `Math.round((now - connectedAt) / 1000)`. -/
def secondsSince (connectedAt now : Nat) : Int := ((now : Int) - connectedAt + 500) / 1000

/-- What task `k` does when what it waits for has come. -/
def resume (k now : Nat) : Task → Option Calls
  | .announcing group call =>
    if s.state.call ≠ call then some (s.setTask k .finished)
    else
      some { s.setTask k (.admitting group call) with
        state := { s.state with phase := .ringing, since := now }
        heard := now }
  | .admitting _ call =>
    some { s.setTask k (.joining call) with listening := s.listening ++ [call] }
  | .leaving _ | .concluding _ => some (s.setTask k .finished)
  | .closing group call connectedAt conclusion =>
    match conclusion with
    | none => some (s.setTask k .finished)
    | some event =>
      some ((s.announce group event call
        (if event = .ended then secondsSince connectedAt now else 0)).setTask k (.concluding call))
  | .muting _ muted =>
    some ({ s.setTask k .finished with state := { s.state with muted } }.signal s.state.group
      (if muted then .muted else .unmuted) s.state.call)
  | .joining _ | .finished => none

/-- What task `k` does with the room it has waited for. -/
def enterRoom (k : Nat) (peers : List String) (now : Nat) : Task → Option Calls
  | .joining call =>
    if s.state.call ≠ call then some (s.setTask k (.leaving call))
    else
      some ({ s.setTask k .finished with
        room := some k
        unleft := s.unleft ++ [k]
        heard := now }.observed call peers now)
  | _ => none

/-- What task `k` does when what it waits for has failed. -/
def failTask (k : Nat) : Task → Option Calls
  | .admitting _ _ | .joining _ | .leaving _ => some (s.setTask k .finished).hang
  | .announcing _ _ | .closing _ _ _ _ | .concluding _ | .muting _ _ =>
    some (s.setTask k .finished)
  | .finished => none

def step (s : Calls) : Action → Option Calls
  | .place call group fromAccount awaited now => some (s.place call group fromAccount awaited now)
  | .receive group call fromAccount now => some (s.receive group call fromAccount now)
  | .accept => some s.accept
  | .hang => some s.hang
  | .mute muted => some (s.mute muted)
  | .absorb event call device ours account now =>
    some (s.absorb event call device ours account now)
  | .tick now => some (s.tick now)
  | .resolve k now => s.tasks[k]?.bind (s.resume k now)
  | .joined k peers now => s.tasks[k]?.bind (s.enterRoom k peers now)
  | .reject k => s.tasks[k]?.bind (s.failTask k)
  | .onPeers call peers now =>
    if call ∈ s.listening then some (s.observed call peers now) else none
  | .onClosed call => if call ∈ s.listening then some s.hang else none

end Calls

end Whispee
