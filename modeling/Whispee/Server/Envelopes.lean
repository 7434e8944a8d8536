import Whispee.Bytes
import Whispee.Group.Mailbox
import Mathlib.Data.List.Sort

/-!
# A mailbox under posts, fetches and purges

`post_envelope`, `fetch_envelopes` and `oldest_surviving` of `crates/server/src/routes.rs` and the
purge of envelopes in `crates/server/src/lib.rs`, over the rows of one group, one step for each of
their awaits; and the client that reads the mailbox by the cursor rule of `pollOnce`. The group
keeps its members throughout.

A statement of its own reads the rows committed when it starts. The `UPDATE` of a post holds the
group's row until its transaction ends, so numbers are drawn one at a time; the `DELETE` of a purge
chooses its rows when it starts and they are gone when it commits.
-/

namespace Whispee.Server

open Whispee.Group (MAX_ENVELOPES_PER_PAGE)

/-- The age, in seconds, below which an envelope is never deleted. -/
def ENVELOPE_RETENTION : Nat := 30 * 24 * 60 * 60

/-- Envelopes kept at the tail of every group, whatever their age. -/
def ENVELOPE_MIN_TAIL : Nat := 500

/-! ## The tables -/

/-- A row of `envelopes`. -/
structure Envelope where
  seq : Nat
  payload : Bytes
  /-- `DEFAULT now()`: when the transaction that inserted it began, in seconds. -/
  createdAt : Nat
  deriving DecidableEq, Repr

/-- The page of a fetch, and where the mailbox begins. -/
structure EnvelopePage where
  oldest : Nat
  envelopes : List Envelope
  deriving DecidableEq, Repr

/-- What the tables hold of one group: the counter of its row in `groups`, and its rows in
`envelopes` in the order they were inserted. -/
structure GroupTable where
  nextSeq : Nat
  envelopes : List Envelope
  deriving DecidableEq, Repr

namespace GroupTable

/-- `SELECT COALESCE((SELECT MIN(seq) FROM envelopes ...), g.next_seq + 1)`. -/
def oldestSurviving (t : GroupTable) : Nat :=
  (t.envelopes.map (·.seq)).min?.getD (t.nextSeq + 1)

/-- `SELECT ... WHERE seq > $2 ORDER BY seq LIMIT $3`. -/
def page (t : GroupTable) (after : Nat) : List Envelope :=
  ((t.envelopes.filter (after < ·.seq)).insertionSort (·.seq ≤ ·.seq)).take MAX_ENVELOPES_PER_PAGE

/-- Older than the retention. -/
def expired (now : Nat) (e : Envelope) : Bool := e.createdAt + ENVELOPE_RETENTION < now

/-- What the `DELETE` of a purge selects, started at this time. -/
def doomed (t : GroupTable) (now : Nat) (e : Envelope) : Bool :=
  expired now e && e.seq + ENVELOPE_MIN_TAIL ≤ t.nextSeq

/-- A committed post. -/
def insert (t : GroupTable) (e : Envelope) : GroupTable where
  nextSeq := e.seq
  envelopes := t.envelopes ++ [e]

def delete (t : GroupTable) (seqs : List Nat) : GroupTable :=
  { t with envelopes := t.envelopes.filter (·.seq ∉ seqs) }

@[simp] theorem insert_nextSeq (t : GroupTable) (e : Envelope) : (t.insert e).nextSeq = e.seq := rfl
@[simp] theorem insert_envelopes (t : GroupTable) (e : Envelope) :
    (t.insert e).envelopes = t.envelopes ++ [e] := rfl
@[simp] theorem delete_nextSeq (t : GroupTable) (seqs : List Nat) :
    (t.delete seqs).nextSeq = t.nextSeq := rfl
@[simp] theorem delete_envelopes (t : GroupTable) (seqs : List Nat) :
    (t.delete seqs).envelopes = t.envelopes.filter (·.seq ∉ seqs) := rfl

end GroupTable

/-! ## Requests and clients -/

/-- A post: signed by a device, or anonymous under the group's posting key. -/
structure PostEnvelope where
  sender : Option String
  payload : Bytes
  deriving DecidableEq, Repr

inductive Refusal where
  | badRequest (message : String)
  | forbidden
  /-- A statement failed or the connection was lost, and the transaction is rolled back; or a
  check before the transaction refused the post. -/
  | failed
  deriving DecidableEq, Repr

/-- How far a post has come: the await it stands at and what it remembers. -/
inductive PostPhase where
  | received
  /-- The transaction is open since this time. -/
  | begun (createdAt : Nat)
  /-- The counter is incremented, and the group's row held. -/
  | numbered (createdAt seq : Nat)
  | inserted (createdAt seq : Nat)
  /-- Committed, and answered with its number. -/
  | posted (seq : Nat)
  | refused (why : Refusal)
  deriving DecidableEq, Repr

/-- The number drawn by a transaction still open, which holds the group's row. -/
def PostPhase.drawn : PostPhase → Option Nat
  | .numbered _ seq | .inserted _ seq => some seq
  | _ => none

/-- How far a client's fetch has come. -/
inductive Fetch where
  | idle
  | asked (after : Nat)
  /-- `require_membership` has passed. -/
  | member (after : Nat)
  /-- `oldest_surviving` has answered. -/
  | counted (after oldest : Nat)
  /-- The page is read; `posted` is how much had been posted when it was. -/
  | answered (after : Nat) (page : EnvelopePage) (posted : Nat)
  deriving DecidableEq, Repr

/-- A device that follows the mailbox. -/
structure Client where
  device : String
  /-- Where it started to follow: the number of its Welcome, or `0`. -/
  start : Nat
  cursor : Nat
  /-- A gap has been reported. -/
  stale : Bool
  fetch : Fetch
  /-- The envelopes it was handed, in order. -/
  read : List Envelope
  deriving DecidableEq, Repr

/-- The cursor rule of `pollOnce`, on a page. -/
def Client.follow (c : Client) (page : EnvelopePage) : Client :=
  if c.cursor < page.oldest - 1 then { c with stale := true, fetch := .idle }
  else { c with
    cursor := page.envelopes.foldl (max · ·.seq) c.cursor
    fetch := .idle
    read := c.read ++ page.envelopes }

/-! ## The system -/

structure Mailbox extends GroupTable where
  members : List String
  /-- Every envelope ever committed, in order: no table holds it. -/
  log : List Envelope
  posts : List (PostEnvelope × PostPhase)
  /-- The numbers selected by the purges under way. -/
  purges : List (List Nat)
  clients : List Client

inductive Action where
  | post (request : PostEnvelope)
  /-- A post goes on to its next await, at this time of the server's clock. -/
  | advancePost (index now : Nat)
  | failPost (index : Nat)
  /-- The `DELETE` of a purge starts at this time. -/
  | purge (now : Nat)
  | commitPurge (index : Nat)
  | failPurge (index : Nat)
  /-- A device starts to follow the mailbox from a number on. -/
  | follow (device : String) (start : Nat)
  | ask (client : Nat)
  /-- A fetch goes on to its next await; the last one is the client's. -/
  | advanceFetch (client : Nat)
  | failFetch (client : Nat)

namespace Mailbox

def setPost (m : Mailbox) (i : Nat) (request : PostEnvelope) (phase : PostPhase) : Mailbox :=
  { m with posts := m.posts.set i (request, phase) }

def setClient (m : Mailbox) (i : Nat) (c : Client) : Mailbox :=
  { m with clients := m.clients.set i c }

/-- The checks made before the first await of the transaction. -/
def precheck (m : Mailbox) (request : PostEnvelope) : PostPhase :=
  match request.sender with
  | some device =>
    if device ∉ m.members then .refused .forbidden
    else if request.payload.isEmpty then .refused (.badRequest "empty envelope")
    else .received
  | none =>
    if request.payload.isEmpty then .refused (.badRequest "empty envelope") else .received

/-- No open transaction holds the group's row. -/
def rowFree (m : Mailbox) : Bool := m.posts.all (·.2.drawn.isNone)

/-- A post goes on to its next await; `none` while it waits for the row, or at its end. -/
def advancePost (m : Mailbox) (i : Nat) (request : PostEnvelope) (now : Nat) :
    PostPhase → Option Mailbox
  | .received => some (m.setPost i request (.begun now))
  | .begun createdAt =>
    if m.rowFree then some (m.setPost i request (.numbered createdAt (m.nextSeq + 1))) else none
  | .numbered createdAt seq => some (m.setPost i request (.inserted createdAt seq))
  | .inserted createdAt seq =>
    let e : Envelope := ⟨seq, request.payload, createdAt⟩
    some { m.setPost i request (.posted seq) with
      toGroupTable := m.toGroupTable.insert e
      log := m.log ++ [e] }
  | .posted _ | .refused _ => none

def advanceFetch (m : Mailbox) (i : Nat) (c : Client) : Option Mailbox :=
  match c.fetch with
  | .idle => none
  | .asked after =>
    some (m.setClient i { c with
      fetch := if c.device ∈ m.members then .member after else .idle })
  | .member after =>
    some (m.setClient i { c with fetch := .counted after m.oldestSurviving })
  | .counted after oldest =>
    some (m.setClient i { c with
      fetch := .answered after ⟨oldest, m.page after⟩ m.nextSeq })
  | .answered _ page _ => some (m.setClient i (c.follow page))

def step (m : Mailbox) : Action → Option Mailbox
  | .post request => some { m with posts := m.posts ++ [(request, m.precheck request)] }
  | .advancePost i now =>
    match m.posts[i]? with
    | some (request, phase) => m.advancePost i request now phase
    | none => none
  | .failPost i =>
    match m.posts[i]? with
    | some (_, .posted _) | some (_, .refused _) | none => none
    | some (request, _) => some (m.setPost i request (.refused .failed))
  | .purge now =>
    some { m with
      purges := m.purges ++ [(m.envelopes.filter (m.doomed now)).map (·.seq)] }
  | .commitPurge j =>
    match m.purges[j]? with
    | some seqs => some { m with
        toGroupTable := m.toGroupTable.delete seqs, purges := m.purges.eraseIdx j }
    | none => none
  | .failPurge j => some { m with purges := m.purges.eraseIdx j }
  | .follow device start =>
    some { m with clients := m.clients ++ [⟨device, start, start, false, .idle, []⟩] }
  | .ask i =>
    match m.clients[i]? with
    | some c =>
      if c.stale = false ∧ c.fetch = .idle then
        some (m.setClient i { c with fetch := .asked c.cursor })
      else none
    | none => none
  | .advanceFetch i =>
    match m.clients[i]? with
    | some c => m.advanceFetch i c
    | none => none
  | .failFetch i =>
    match m.clients[i]? with
    | some c => some (m.setClient i { c with fetch := .idle })
    | none => none

/-- A purge starts where age and number agree: nothing it would delete comes after an envelope
that has not reached the retention. -/
def inOrderOfAge (m : Mailbox) (now : Nat) : Bool :=
  m.envelopes.all fun e => m.envelopes.all fun e' =>
    e.seq ≤ e'.seq → m.doomed now e' → GroupTable.expired now e

/-- No purge takes effect on what a client counts on: between the two queries of a fetch whose
first one found no gap, nothing above its cursor is deleted. -/
def undisturbed (m : Mailbox) : Action → Bool
  | .purge now => m.inOrderOfAge now
  | .commitPurge j =>
    match m.purges[j]? with
    | some seqs => m.clients.all fun c =>
      match c.fetch with
      | .counted after oldest =>
        oldest ≤ after + 1 → m.envelopes.all fun e => e.seq ∈ seqs → e.seq ≤ after
      | _ => true
    | none => true
  | _ => true

end Mailbox

end Whispee.Server
