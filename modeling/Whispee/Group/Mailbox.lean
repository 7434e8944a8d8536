import Whispee.Lib.Transition
import Mathlib.Logic.Function.Basic

/-!
# Commits through the mailbox

The devices of one group, the server's numbered mailbox and the requests under way between them:
`publishAndApply`, the envelope loop of `pollOnce` and `discoverNewConversations` of
`apps/web/src/lib/session.ts`, and `post_envelope` and `fetch_envelopes` of the server. A commit is
known by the ticket it was built under and carries the list of commits its author had applied: MLS
accepts it on a device that has applied exactly the same ones. Whether the policy of the group lets
it through is up to each device, and an argument of the step.
-/

namespace Whispee.Group

/-- The most envelopes one fetch returns. -/
def MAX_ENVELOPES_PER_PAGE : Nat := 200

structure Commit where
  ticket : Nat
  author : Nat
  /-- What the author had applied when it built the commit. -/
  base : List Nat
  /-- Devices the commit removes. -/
  evicts : List Nat
  /-- The device it adds, if it is an invitation. -/
  adds : Option Nat
  deriving DecidableEq, Repr

structure Welcome where
  recipient : Nat
  inviter : Nat
  /-- The commits behind the epoch the invitation leads to. -/
  joins : List Nat
  /-- The commits behind the ratchet tree sent along. -/
  tree : List Nat
  deriving DecidableEq, Repr

inductive Payload where
  | commit (c : Commit)
  | welcome (w : Welcome)
  /-- Anything else: messages, proposals. -/
  | other
  deriving DecidableEq, Repr

inductive Status where
  /-- The device holds no view of the conversation. -/
  | absent
  | active
  /-- A commit it applied has removed it. -/
  | evicted
  deriving DecidableEq, Repr

/-- An answer to a fetch: the oldest number the server still holds, and numbered envelopes. -/
structure Page where
  oldest : Nat
  envelopes : List (Payload × Nat)

/-- A device's view of the conversation, and the MLS group behind it. -/
structure Device where
  status : Status
  /-- The commits applied, oldest first. -/
  applied : List Nat
  /-- The commit built and not merged. -/
  pending : Option Commit
  cursor : Nat
  /-- The numbers of its own envelopes. -/
  mine : List Nat
  stale : Bool
  /-- The page fetched and not yet absorbed. -/
  page : Option Page

/-- The epoch, counted from the group's first. -/
def Device.epoch (device : Device) : Nat := device.applied.length

structure State where
  /-- Every envelope ever stored; the one at position `i` has number `i + 1`. -/
  mailbox : List Payload
  /-- Numbers below this one have been purged. -/
  oldest : Nat
  nextTicket : Nat
  /-- The posts under way, by ticket, with the number the server gave them. -/
  posts : Nat → Option (Payload × Option Nat)
  devices : Nat → Device

inductive Action where
  /-- A device builds a commit, which stays pending, and starts to post it. -/
  | build (device : Nat) (evicts : List Nat) (adds : Option Nat)
  /-- The server stores a post under way. -/
  | store (ticket : Nat)
  /-- The answer to a stored post arrives. -/
  | answer (ticket : Nat)
  /-- A post fails, before or after the server stored it. -/
  | fail (ticket : Nat)
  /-- A message or a proposal is stored. -/
  | message
  /-- The server purges the envelopes numbered below this one. -/
  | purge (oldest : Nat)
  | fetch (device : Nat)
  /-- A device absorbs its page; `authorizes` is what its policy says of each commit. -/
  | poll (device : Nat) (authorizes : Nat → Bool)
  | join (device : Nat)

/-! ## The devices -/

/-- `absorb`, on what moves the group: MLS refuses a commit of ours and one made for another epoch,
the policy refuses what it does not authorize, and an envelope refused is skipped. Merging a commit
drops the pending one. -/
def Device.absorb (device : Device) (self : Nat) (authorizes : Nat → Bool) : Payload → Device
  | .commit c =>
    if device.status = .active ∧ c.author ≠ self ∧ c.base = device.applied ∧ authorizes c.ticket then
      { device with
        status := if self ∈ c.evicts then .evicted else .active
        applied := device.applied ++ [c.ticket]
        pending := none }
    else device
  | .welcome _ | .other => device

/-- One turn of the envelope loop: what is ours is not read back, and the cursor advances. -/
def Device.read (device : Device) (self : Nat) (authorizes : Nat → Bool) (row : Payload × Nat) :
    Device :=
  let device := if row.2 ∈ device.mine then device else device.absorb self authorizes row.1
  { device with cursor := max device.cursor row.2 }

/-- The envelope loop, or the mark of a conversation the server has lost a part of. -/
def Device.poll (device : Device) (self : Nat) (authorizes : Nat → Bool) (page : Page) : Device :=
  if device.cursor < page.oldest - 1 then { device with stale := true, page := none }
  else { page.envelopes.foldl (·.read self authorizes) device with page := none }

/-- `applyPending`: merges the commit that is pending, does nothing when none is, and fails on a
group the device was removed from. -/
def Device.applyPending (device : Device) : Option Device :=
  match device.status, device.pending with
  | .active, some c => some { device with applied := device.applied ++ [c.ticket], pending := none }
  | .active, none => some device
  | _, _ => none

def Device.addMine (device : Device) (seq : Nat) : Device :=
  { device with mine := seq :: device.mine }

/-! ## The system -/

namespace State

/-- The tickets of the commits among some envelopes. -/
def tickets (mailbox : List Payload) : List Nat :=
  mailbox.filterMap fun
    | .commit c => some c.ticket
    | _ => none

def setDevice (s : State) (d : Nat) (device : Device) : State :=
  { s with devices := Function.update s.devices d device }

def setPost (s : State) (ticket : Nat) (post : Option (Payload × Option Nat)) : State :=
  { s with posts := Function.update s.posts ticket post }

/-- The envelopes numbered above `after` the server still holds, as many as one fetch returns. -/
def fetchEnvelopes (s : State) (after : Nat) : List (Payload × Nat) :=
  ((s.mailbox.zipIdx 1).drop (max after (s.oldest - 1))).take MAX_ENVELOPES_PER_PAGE

/-- The first Welcome of a page the device can join by. -/
def findWelcome (d : Nat) (envelopes : List (Payload × Nat)) : Option (Welcome × Nat) :=
  envelopes.findSome? fun
    | (.welcome w, seq) => if w.recipient = d ∧ w.joins = w.tree then some (w, seq) else none
    | _ => none

/-- `publishAndApply` after its post, and what `addMissingDevices` does next. -/
def answerCommit (s : State) (seq : Nat) (c : Commit) : State :=
  let noted := (s.devices c.author).addMine seq
  match noted.applyPending with
  | none => s.setDevice c.author noted
  | some device =>
    let s := s.setDevice c.author device
    match c.adds with
    | none => s
    | some recipient =>
      { s.setPost s.nextTicket
          (some (.welcome ⟨recipient, c.author, c.base ++ [c.ticket], device.applied⟩, none)) with
        nextTicket := s.nextTicket + 1 }

def step (s : State) : Action → Option State
  | .build d evicts adds =>
    let device := s.devices d
    if device.status = .active ∧ device.pending = none ∧ d ∉ evicts then
      let c : Commit := ⟨s.nextTicket, d, device.applied, evicts, adds⟩
      some { (s.setDevice d { device with pending := some c }).setPost s.nextTicket
          (some (.commit c, none)) with
        nextTicket := s.nextTicket + 1 }
    else none
  | .store ticket =>
    match s.posts ticket with
    | some (payload, none) =>
      some { s.setPost ticket (some (payload, some (s.mailbox.length + 1))) with
        mailbox := s.mailbox ++ [payload] }
    | _ => none
  | .answer ticket =>
    match s.posts ticket with
    | some (.commit c, some seq) => some ((s.setPost ticket none).answerCommit seq c)
    | some (.welcome w, some seq) =>
      some ((s.setPost ticket none).setDevice w.inviter ((s.devices w.inviter).addMine seq))
    | _ => none
  | .fail ticket =>
    match s.posts ticket with
    | some _ => some (s.setPost ticket none)
    | none => none
  | .message => some { s with mailbox := s.mailbox ++ [.other] }
  | .purge oldest =>
    if oldest ≤ s.mailbox.length + 1 then some { s with oldest := max s.oldest oldest } else none
  | .fetch d =>
    let device := s.devices d
    if device.status ≠ .absent ∧ !device.stale ∧ device.page.isNone then
      some (s.setDevice d
        { device with page := some ⟨s.oldest, s.fetchEnvelopes device.cursor⟩ })
    else none
  | .poll d authorizes =>
    match (s.devices d).page with
    | some page => some (s.setDevice d ((s.devices d).poll d authorizes page))
    | none => none
  | .join d =>
    if (s.devices d).status = .absent then
      match findWelcome d (s.fetchEnvelopes 0) with
      | some (w, seq) => some (s.setDevice d ⟨.active, w.joins, none, seq, [], false, none⟩)
      | none => none
    else none

/-! ## What a fork-free run looks like -/

/-- A group before its first envelope: each device is a member at the first epoch, or none. -/
structure Initial (s : State) : Prop where
  mailbox : s.mailbox = []
  oldest : s.oldest = 1
  posts : ∀ ticket, s.posts ticket = none
  devices : ∀ d, s.devices d = ⟨.active, [], none, 0, [], false, none⟩ ∨
    s.devices d = ⟨.absent, [], none, 0, [], false, none⟩

/-- The state before a step in which nothing overtakes anything: a commit is stored when its author
has applied all the commits stored before it, a Welcome when no commit came after the one it leads
to, and a page is absorbed when the posts of the device in it have been answered and its policy
authorizes the others' commits. -/
def inOrder (s : State) : Action → Bool
  | .store ticket =>
    match s.posts ticket with
    | some (.commit c, none) => c.base = tickets s.mailbox
    | some (.welcome w, none) => w.tree = tickets s.mailbox
    | _ => true
  | .poll d authorizes =>
    match (s.devices d).page with
    | some page => page.envelopes.all fun
      | (.commit c, seq) =>
        if c.author = d then seq ∈ (s.devices d).mine else authorizes c.ticket
      | _ => true
    | none => true
  | _ => true

/-- The device kept the conversation and has processed the envelopes numbered up to `n`, and no
commit beyond: one of its own applied at its answer counts as processed. -/
structure ProcessedUpTo (s : State) (d n : Nat) : Prop where
  kept : (s.devices d).status = .active
  cursor : (s.devices d).cursor = n
  noneBeyond : ∀ seq ∈ (s.devices d).mine, n < seq → ∀ c, s.mailbox[seq - 1]? ≠ some (.commit c)

end State

end Whispee.Group
