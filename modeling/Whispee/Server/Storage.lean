import Whispee.Bytes
import Whispee.Lib.Mvcc
import Whispee.Lib.Tasks
import Whispee.Lib.Transition
import Whispee.Server.Envelopes

/-!
# What an account stores

`charge` and `credit` of `crates/server/src/storage.rs`, `store_vault`, `drop_vault` and
`upload_attachment` of `crates/server/src/routes.rs`, and the purge of attachments and groups in
`crates/server/src/lib.rs`, one step for each statement they send. A transaction is the list of the
statements it still has to send; a statement whose result decides what follows puts that in front
of the rest. A statement waits for the rows that other transactions hold, and a deletion acts on
the rows that were there when it started.
-/

namespace Whispee.Server.Storage

open Mvcc

/-- Cap on vault entries per request. -/
def MAX_VAULT_ENTRIES : Nat := 200

/-- The age, in seconds, past which an attachment is deleted. -/
def ATTACHMENT_RETENTION : Nat := 90 * 24 * 60 * 60

/-! ## The tables -/

structure VaultEntry where
  account : String
  groupId : String
  seq : Int
  payload : Bytes
  deriving DecidableEq, Repr

structure Attachment where
  groupId : String
  /-- Who is charged; nobody, for a row older than the accounting. -/
  account : Option String
  payload : Bytes
  createdAt : Nat
  deriving DecidableEq, Repr

structure Device where
  id : String
  account : String
  revoked : Bool
  deriving DecidableEq, Repr

structure Database where
  devices : List Device
  /-- `account_storage.bytes`, of every registered account. -/
  storage : String → Option Int
  groups : List String
  /-- `group_members`, as rows of group and device. -/
  members : List (String × String)
  /-- The group and the time of every envelope. -/
  envelopes : List (String × Nat)
  vault : Table VaultEntry
  attachments : Table Attachment
  nextCtid : Nat

inductive Refusal where
  | badRequest (message : String)
  | forbidden
  | insufficientStorage
  /-- A statement failed or the connection was lost; or a check before the transaction refused. -/
  | failed
  deriving DecidableEq, Repr

/-- What transactions have moved a counter by: the sum of the moves of this account. -/
def movedOf (moved : List (String × Int)) (account : String) : Int :=
  ((moved.filter (·.1 = account)).map (·.2)).sum

namespace Database

/-- `require_membership`. -/
def isMember (d : Database) (groupId device : String) : Bool :=
  (groupId, device) ∈ d.members ∧ d.devices.any fun row => row.id = device ∧ !row.revoked

/-- `caller_account`. -/
def callerAccount (d : Database) (device : String) : Option String :=
  (d.devices.find? (·.id = device)).map (·.account)

/-- No member, and no envelope younger than the retention. -/
def silent (d : Database) (now : Nat) (groupId : String) : Bool :=
  d.members.all (·.1 ≠ groupId) ∧
    d.envelopes.all fun e => e.1 = groupId → e.2 + ENVELOPE_RETENTION < now

def commit (d : Database) (x : Nat) (moved : List (String × Int)) : Database :=
  { d with
    vault := d.vault.commit x
    attachments := d.attachments.commit x
    storage := fun account => (d.storage account).map (· + movedOf moved account) }

def rollback (d : Database) (x : Nat) : Database :=
  { d with vault := d.vault.rollback x, attachments := d.attachments.rollback x }

/-- One row of `INSERT INTO vault_entries ... ON CONFLICT DO NOTHING`, and the bytes stored. -/
def storeEntry (d : Database) (x : Nat) (account groupId : String) (entry : Int × Bytes) :
    Database × Nat :=
  if d.vault.any fun u =>
      u.row.account = account ∧ u.row.groupId = groupId ∧ u.row.seq = entry.1 then (d, 0)
  else
    ({ d with
      vault := d.vault.insert x d.nextCtid ⟨account, groupId, entry.1, entry.2⟩
      nextCtid := d.nextCtid + 1 }, entry.2.length)

def storeEntries (d : Database) (x : Nat) (account groupId : String) :
    List (Int × Bytes) → Database × Nat
  | [] => (d, 0)
  | entry :: entries =>
    let (d, stored) := d.storeEntry x account groupId entry
    let (d, rest) := d.storeEntries x account groupId entries
    (d, stored + rest)

end Database

/-! ## Statements -/

inductive Statement where
  | insertVault (account groupId : String) (entries : List (Int × Bytes))
  | charge (account : String) (bytes : Nat)
  | credit (account : String) (bytes : Nat)
  | insertAttachment (row : Attachment)
  /-- `DELETE FROM vault_entries`, when it starts and when it acts. -/
  | selectVault (account groupId : String)
  | deleteVault (account : String) (ctids : List Nat)
  /-- `DELETE FROM attachments`, of those past their retention or of the groups about to be
  deleted, when it starts and when it acts. -/
  | selectExpired (now : Nat)
  | selectDoomed (now : Nat)
  | deleteAttachments (ctids : List Nat)
  deriving DecidableEq, Repr

/-- How a statement ends: the statements that follow from its result are sent next. -/
inductive Outcome where
  | wait
  | refuse (why : Refusal)
  | go (d : Database) (moved : List (String × Int)) (next : List Statement)

/-- `storage::charge`: one conditional `UPDATE`, which waits for the row only if the ceiling admits
the bytes on top of those it sees. -/
def charge (ceiling : Int) (d : Database) (locked : Bool) (moved : List (String × Int))
    (account : String) (bytes : Nat) : Outcome :=
  match d.storage account with
  | none => .refuse .insufficientStorage
  | some stored =>
    if ceiling = 0 ∨ stored + movedOf moved account + bytes ≤ ceiling then
      if locked then .wait else .go d (moved ++ [(account, (bytes : Int))]) []
    else .refuse .insufficientStorage

/-- `storage::credit`, under the table's own check. -/
def credit (d : Database) (locked : Bool) (moved : List (String × Int)) (account : String)
    (bytes : Nat) : Outcome :=
  match d.storage account with
  | none => .go d moved []
  | some stored =>
    if locked then .wait
    else if 0 ≤ stored + movedOf moved account - bytes then
      .go d (moved ++ [(account, -(bytes : Int))]) []
    else .refuse .failed

/-- `SELECT account, SUM(bytes) ... GROUP BY account`: one more row of the sum. -/
def addTo (account : String) (bytes : Nat) : List (String × Nat) → List (String × Nat)
  | [] => [(account, bytes)]
  | (account', bytes') :: sums =>
    if account' = account then (account', bytes' + bytes) :: sums
    else (account', bytes') :: addTo account bytes sums

/-- The bytes to give back, by account; what was charged to nobody is given back to nobody. -/
def credited : List Attachment → List (String × Nat)
  | [] => []
  | row :: rows =>
    match row.account with
    | some account => addTo account row.payload.length (credited rows)
    | none => credited rows

/-- The rows a deletion acts on: those it selected that are still there. -/
def hit (ctids : List Nat) (u : Tuple Row) : Bool := u.ctid ∈ ctids ∧ u.Committed

/-- One statement of the transaction `x`; `locked` tells which counters others hold. -/
def exec (ceiling : Int) (d : Database) (locked : String → Bool) (x : Nat)
    (moved : List (String × Int)) : Statement → Outcome
  | .insertVault account groupId entries =>
    if d.vault.any fun u => u.heldByOther x ∧ u.row.account = account ∧ u.row.groupId = groupId ∧
        u.row.seq ∈ entries.map (·.1) then .wait
    else
      let (d, stored) := d.storeEntries x account groupId entries
      .go d moved [.charge account stored]
  | .charge account bytes => charge ceiling d (locked account) moved account bytes
  | .credit account bytes => credit d (locked account) moved account bytes
  | .insertAttachment row =>
    if row.groupId ∈ d.groups then
      .go { d with
        attachments := d.attachments.insert x d.nextCtid row
        nextCtid := d.nextCtid + 1 } moved []
    else .refuse .failed
  | .selectVault account groupId =>
    let ctids := (d.vault.filter fun u =>
      u.xmin = none ∧ u.row.account = account ∧ u.row.groupId = groupId).map (·.ctid)
    .go d moved [.deleteVault account ctids]
  | .deleteVault account ctids =>
    if d.vault.any fun u => u.heldByOther x ∧ u.ctid ∈ ctids then .wait
    else
      let gone := (d.vault.filter fun u => hit ctids u ∧ u.row.account = account).map (·.row)
      .go { d with vault := d.vault.delete x fun u => hit ctids u ∧ u.row.account = account } moved
        [.credit account (gone.map (·.payload.length)).sum]
  | .selectExpired now =>
    let ctids := (d.attachments.filter fun u =>
      u.xmin = none ∧ u.row.createdAt + ATTACHMENT_RETENTION < now).map (·.ctid)
    .go d moved [.deleteAttachments ctids]
  | .selectDoomed now =>
    let ctids := (d.attachments.filter fun u =>
      u.xmin = none ∧ d.silent now u.row.groupId).map (·.ctid)
    .go d moved [.deleteAttachments ctids]
  | .deleteAttachments ctids =>
    if d.attachments.any fun u => u.heldByOther x ∧ u.ctid ∈ ctids then .wait
    else
      let gone := (d.attachments.filter (hit ctids)).map (·.row)
      .go { d with attachments := d.attachments.delete x (hit ctids) } moved
        ((credited gone).map fun c => .credit c.1 c.2)

/-! ## Requests -/

inductive Request where
  | storeVault (device groupId : String) (entries : List (Int × Bytes))
  | dropVault (device groupId : String)
  | uploadAttachment (device groupId : String) (body : Bytes)
  | purge
  deriving DecidableEq, Repr

/-- How far a request has come: the await it stands at and what it remembers. -/
inductive Phase where
  | received
  /-- `require_membership` has passed. -/
  | member
  /-- In the transaction: what it has moved the counters by, and what it still has to send. -/
  | working (moved : List (String × Int)) (rest : List Statement)
  /-- The transaction of a purge has committed. -/
  | purged
  /-- The deletion of groups has started, on these. -/
  | selected (groups : List String)
  | done
  | refused (why : Refusal)
  deriving DecidableEq, Repr

/-- The transaction under way holds this account's counter. -/
def Phase.holds (account : String) : Phase → Bool
  | .working moved _ => moved.any (·.1 = account)
  | _ => false

structure State extends Database where
  requests : List (Request × Phase)

inductive Action where
  | registerAccount (account : String)
  | registerDevice (id account : String)
  | revokeDevice (id : String)
  | addMembers (groupId : String) (devices : List String)
  | removeMembers (groupId : String) (devices : List String)
  | postEnvelope (groupId : String) (now : Nat)
  | request (r : Request)
  /-- A request goes on to its next await, at this time of the server's clock. -/
  | advance (index now : Nat)
  | fail (index : Nat)

namespace State

/-- Another transaction under way holds the account's counter. -/
def locked (s : State) (i : Nat) (account : String) : Bool :=
  (s.requests.eraseIdx i).any (·.2.holds account)

def setPhase (s : State) (i : Nat) (request : Request) (phase : Phase) : State :=
  { s with requests := s.requests.set i (request, phase) }

/-- The checks of a request before its transaction. -/
def receive (s : State) (now : Nat) : Request → Phase
  | .storeVault device groupId entries =>
    if entries = [] then .refused (.badRequest "no entry provided")
    else if entries.length > MAX_VAULT_ENTRIES then
      .refused (.badRequest "too many entries in one request")
    else if s.isMember groupId device then .member
    else .refused .forbidden
  | .dropVault device groupId =>
    match s.callerAccount device with
    | some account => .working [] [.selectVault account groupId]
    | none => .refused .forbidden
  | .uploadAttachment device groupId body =>
    if s.isMember groupId device then
      if body = [] then .refused (.badRequest "empty attachment") else .member
    else .refused .forbidden
  | .purge => .working [] [.selectExpired now, .selectDoomed now]

/-- The transaction of a member's request, opened at this time. -/
def begin (s : State) (now : Nat) : Request → Phase
  | .storeVault device groupId entries =>
    match s.callerAccount device with
    | some account => .working [] [.insertVault account groupId entries]
    | none => .refused .forbidden
  | .uploadAttachment device groupId body =>
    match s.callerAccount device with
    | some account => .working []
        [.charge account body.length, .insertAttachment ⟨groupId, some account, body, now⟩]
    | none => .refused .forbidden
  | .dropVault _ _ | .purge => .refused .failed

/-- `DELETE FROM groups`, and what goes with them. -/
def deleteGroups (s : State) (groups : List String) : State :=
  { s with
    groups := s.groups.filter (· ∉ groups)
    members := s.members.filter (·.1 ∉ groups)
    envelopes := s.envelopes.filter (·.1 ∉ groups)
    attachments := s.attachments.filter (·.row.groupId ∉ groups) }

/-- A request goes on to its next await; `none` while it waits for others, or at its end. -/
def advance (ceiling : Int) (s : State) (i : Nat) (request : Request) (now : Nat) :
    Phase → Option State
  | .received => some (s.setPhase i request (s.receive now request))
  | .member => some (s.setPhase i request (s.begin now request))
  | .working moved (statement :: rest) =>
    match exec ceiling s.toDatabase (s.locked i) i moved statement with
    | .wait => none
    | .refuse why =>
      some { s.setPhase i request (.refused why) with toDatabase := s.rollback i }
    | .go d moved next =>
      some { s.setPhase i request (.working moved (next ++ rest)) with toDatabase := d }
  | .working moved [] =>
    let phase := if request = .purge then .purged else .done
    some { s.setPhase i request phase with toDatabase := s.commit i moved }
  | .purged => some (s.setPhase i request (.selected (s.groups.filter (s.silent now))))
  | .selected groups =>
    if s.attachments.any fun u => u.row.groupId ∈ groups ∧ ¬ u.Committed then none
    else some ((s.deleteGroups groups).setPhase i request .done)
  | .done | .refused _ => none

def step (ceiling : Int) (s : State) : Action → Option State
  | .registerAccount account =>
    if s.storage account = none then
      some { s with storage := Function.update s.storage account (some 0) }
    else none
  | .registerDevice id account =>
    if s.storage account = none then none
    else some { s with devices := s.devices ++ [⟨id, account, false⟩] }
  | .revokeDevice id =>
    some { s with
      devices := s.devices.map fun row => if row.id = id then { row with revoked := true } else row }
  | .addMembers groupId devices =>
    some { s with
      groups := if groupId ∈ s.groups then s.groups else s.groups ++ [groupId]
      members := s.members ++ devices.map (groupId, ·) }
  | .removeMembers groupId devices =>
    some { s with members := s.members.filter fun row => ¬ (row.1 = groupId ∧ row.2 ∈ devices) }
  | .postEnvelope groupId now =>
    if groupId ∈ s.groups then some { s with envelopes := s.envelopes ++ [(groupId, now)] } else none
  | .request r => some { s with requests := s.requests ++ [(r, .received)] }
  | .advance i now =>
    match s.requests[i]? with
    | some (request, phase) => s.advance ceiling i request now phase
    | none => none
  | .fail i =>
    match s.requests[i]? with
    | some (_, .done) | some (_, .refused _) | none => none
    | some (request, _) =>
      some { s.setPhase i request (.refused .failed) with toDatabase := s.rollback i }

/-- No deletion of groups takes charged attachments with it. -/
def creditsFirst (s : State) : Action → Bool
  | .advance i _ =>
    match s.requests[i]? with
    | some (_, .selected groups) =>
      s.attachments.all fun u => u.row.groupId ∈ groups → u.row.account = none
    | _ => true
  | _ => true

end State

/-- What an account is charged for: its entries in the vault and its attachments. -/
def Database.stored (d : Database) (account : String) : Nat :=
  ((d.vault.rows.filter (·.account = account)).map (·.payload.length)).sum +
  ((d.attachments.rows.filter (·.account = some account)).map (·.payload.length)).sum

end Whispee.Server.Storage
