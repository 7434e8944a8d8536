import Mathlib.Data.List.Infix
import Mathlib.Data.List.Sort
import Whispee.Lib.Tasks
import Whispee.Lib.Transition
import Whispee.Server.Error
import Whispee.Transparency.Consistency
import Whispee.Transparency.Head

/-!
# The log as the server keeps and serves it

`crates/server/src/log.rs` and the routes of `crates/server/src/routes.rs` that serve the log, one
step for each statement, on any number of processes that share one database. A transaction that
appends shows its rows to nobody before it commits; `pg_advisory_xact_lock` is held from the first
append to the end of the transaction. Each process has its own cache of the last tree it read.
-/

namespace Whispee.Transparency.Service

open Server (ApiError)
open Transition

variable {Hash : Type u} {Key : Type v}

/-! ## The tables -/

/-- A row of `log_entries`. -/
structure Row (Hash : Type u) where
  seq : Nat
  account : String
  identityKey : Bytes
  leaf : Hash
  rotation : Option Bytes
  rotatedAt : Option Nat
  deriving DecidableEq

structure Fingerprint where
  size : Nat
  lastSeq : Nat
  deriving DecidableEq

/-- The tree as it stood in the table, with the proof it was that tree. -/
structure Snapshot (S : Sha256 Hash) where
  leaves : List Hash
  root : Hash
  fingerprint : Fingerprint
  root_eq : root = Transparency.root S leaves
  size_eq : fingerprint.size = leaves.length

structure Database (Hash : Type u) (Key : Type v) where
  /-- `log_key`. -/
  signingKey : Option Key
  logEntries : List (Row Hash)
  /-- `SELECT identity_key FROM accounts WHERE id = $1`. -/
  identityKey : String → Option Bytes

namespace Database

variable (db : Database Hash Key)

/-- `ORDER BY seq`. -/
def inOrder : List (Row Hash) := db.logEntries.insertionSort (·.seq ≤ ·.seq)

def leaves : List Hash := db.inOrder.map (·.leaf)

/-- `SELECT COUNT(*), COALESCE(MAX(seq), 0) FROM log_entries`. -/
def fingerprint : Fingerprint :=
  ⟨db.logEntries.length, (db.logEntries.map (·.seq)).foldr max 0⟩

/-- The fingerprint is taken from the rows themselves. -/
def rebuild (S : Sha256 Hash) : Snapshot S where
  leaves := db.leaves
  root := Transparency.root S db.leaves
  fingerprint := ⟨db.inOrder.length, (db.inOrder.getLast?.map (·.seq)).getD 0⟩
  root_eq := rfl
  size_eq := by simp [leaves]

/-- The number and the key of an account's latest entry. -/
def latest (account : String) : Option (Nat × Bytes) :=
  (db.inOrder.filter (·.account = account)).getLast?.map fun row => (row.seq, row.identityKey)

/-- The entries before a number. -/
def indexOf (seq : Nat) : Nat := db.logEntries.countP (·.seq < seq)

end Database

/-! ## Appending -/

/-- What one `append` is called with. -/
structure Addition where
  account : String
  identityKey : Bytes
  rotation : Option (Bytes × Nat)

/-- The row of an addition: the leaf is hashed here, never in SQL. -/
def Addition.row (S : Sha256 Hash) (a : Addition) (seq : Nat) : Row Hash where
  seq
  account := a.account
  identityKey := a.identityKey
  leaf := leafHash S (entry a.account a.identityKey)
  rotation := a.rotation.map Prod.fst
  rotatedAt := a.rotation.map Prod.snd

/-- A transaction that appends. -/
structure Writer (Hash : Type u) where
  /-- `create_account` and `rotate_account` write the key into `accounts` in the same transaction,
  `backfill` does not. -/
  publishes : Bool
  /-- The appends to come. -/
  todo : List Addition
  /-- The append lock is held. -/
  locked : Bool
  /-- Rows inserted and not committed. -/
  drawn : List (Row Hash)
  ended : Bool

/-- A transaction ends: its lock falls. -/
def Writer.finish (w : Writer Hash) : Writer Hash := { w with locked := false, drawn := [], ended := true }

/-- What the tables hold once a transaction has committed. -/
def Database.commit (db : Database Hash Key) (w : Writer Hash) : Database Hash Key where
  signingKey := db.signingKey
  logEntries := db.logEntries ++ w.drawn
  identityKey account :=
    if w.publishes then
      ((w.drawn.filter (·.account = account)).getLast?.map (·.identityKey)).or
        (db.identityKey account)
    else db.identityKey account

/-! ## Reading -/

inductive Ask where
  /-- `list_account_devices`, of which the key of the account matters here. -/
  | devices (account : String)
  | head
  | proof (account : String)
  | consistency (fromSize : Nat)
  deriving DecidableEq

structure SignedHead (Hash : Type u) where
  size : Nat
  root : Hash
  timestamp : Nat
  signature : Bytes
  logKey : Bytes
  deriving DecidableEq

structure InclusionProof (Hash : Type u) where
  account : String
  identityKey : Bytes
  index : Nat
  proof : List Hash
  head : SignedHead Hash
  deriving DecidableEq

structure ConsistencyProof (Hash : Type u) where
  proof : List Hash
  head : SignedHead Hash
  deriving DecidableEq

inductive Answer (Hash : Type u) where
  | devices (identityKey : Bytes)
  | head (head : SignedHead Hash)
  | proof (proof : InclusionProof Hash)
  | consistency (proof : ConsistencyProof Hash)
  deriving DecidableEq

/-- How far a request has come, and what it remembers. -/
inductive Phase (S : Sha256 Hash) (Key : Type v) where
  | received
  /-- The signing key is read. -/
  | keyed (key : Key)
  /-- The fingerprint of the table is read. -/
  | probed (key : Key) (current : Fingerprint)
  /-- The cache holds another tree, or none. -/
  | missed (key : Key)
  /-- The table is read, the cache not yet replaced. -/
  | rebuilt (key : Key) (fresh : Snapshot S)
  /-- `signed_head` has returned. -/
  | signed (head : SignedHead Hash) (snapshot : Snapshot S)
  /-- The number and the key of the account's latest entry are read. -/
  | found (head : SignedHead Hash) (snapshot : Snapshot S) (seq : Nat) (identityKey : Bytes)
  /-- Answered, from this tree if the answer is about one. -/
  | answered (used : Option (Snapshot S)) (answer : Except ApiError (Answer Hash))

structure Reader (S : Sha256 Hash) (Key : Type v) where
  process : Nat
  ask : Ask
  phase : Phase S Key

structure State (S : Sha256 Hash) (Key : Type v) where
  db : Database Hash Key
  /-- What the sequence of `log_entries.seq` returns next. -/
  nextSeq : Nat
  /-- `CACHED`, of each process. -/
  cached : Nat → Option (Snapshot S)
  writers : List (Writer Hash)
  readers : List (Reader S Key)

section
variable (S : Sha256 Hash) (E : Ed25519 Key)

/-- The log's current head, signed. -/
def signedHead (snapshot : Snapshot S) (key : Key) (now : Nat) : SignedHead Hash :=
  let head : TreeHead Hash := ⟨snapshot.leaves.length, snapshot.root, now⟩
  ⟨head.size, head.root, head.timestamp, head.sign S E key, E.verifyingKey key⟩

/-- `verifyTreeHead`, for the key that comes with the head. -/
def SignedHead.verify (h : SignedHead Hash) :
    Except LogError Unit :=
  (⟨h.size, h.root, h.timestamp⟩ : TreeHead Hash).verify S E h.logKey h.signature

variable {S}

/-- `log_consistency`, once the head is signed. -/
def logConsistency (fromSize : Nat) (head : SignedHead Hash) (snapshot : Snapshot S) :
    Except ApiError (Answer Hash) :=
  match consistencyProof S snapshot.leaves fromSize with
  | .ok proof => .ok (.consistency ⟨proof, head⟩)
  | .error _ => .error (.badRequest "invalid log size")

/-- `log_proof`, once the entry and its index are found. -/
def logProof (account : String) (identityKey : Bytes) (index : Nat) (head : SignedHead Hash)
    (snapshot : Snapshot S) : Except ApiError (Answer Hash) :=
  match inclusionProof S snapshot.leaves index with
  | .ok proof => .ok (.proof ⟨account, identityKey, index, proof, head⟩)
  | .error _ => .error (.badRequest "index outside the log")

/-- The next statement of a request, at this time of the server's clock: where it then stands, and
what the cache of its process then holds. -/
def Reader.next (r : Reader S Key) (db : Database Hash Key) (cached : Option (Snapshot S))
    (now : Nat) : Option (Phase S Key × Option (Snapshot S)) :=
  match r.phase with
  | .received =>
    match r.ask with
    | .devices account =>
      match db.identityKey account with
      | some key => some (.answered none (.ok (.devices key)), cached)
      | none => some (.answered none (.error .notFound), cached)
    | _ =>
      match db.signingKey with
      | some key => some (.keyed key, cached)
      | none => some (.answered none (.error .database), cached)
  | .keyed key => some (.probed key db.fingerprint, cached)
  | .probed key current =>
    match cached with
    | some snapshot =>
      if snapshot.fingerprint = current then
        some (.signed (signedHead S E snapshot key now) snapshot, cached)
      else some (.missed key, cached)
    | none => some (.missed key, cached)
  | .missed key => some (.rebuilt key (db.rebuild S), cached)
  | .rebuilt key fresh => some (.signed (signedHead S E fresh key now) fresh, some fresh)
  | .signed head snapshot =>
    match r.ask with
    | .devices _ => none
    | .head => some (.answered (some snapshot) (.ok (.head head)), cached)
    | .consistency fromSize =>
      some (.answered (some snapshot) (logConsistency fromSize head snapshot), cached)
    | .proof account =>
      match db.latest account with
      | some (seq, identityKey) => some (.found head snapshot seq identityKey, cached)
      | none => some (.answered (some snapshot) (.error .notFound), cached)
  | .found head snapshot seq identityKey =>
    match r.ask with
    | .proof account =>
      some (.answered (some snapshot)
        (logProof account identityKey (db.indexOf seq) head snapshot), cached)
    | _ => none
  | .answered .. => none

/-! ## Steps -/

inductive Action (Key : Type v) where
  /-- A process starts: `ensure_signing_key`, with nothing in the cache. -/
  | start (process : Nat) (fresh : Key)
  /-- A transaction begins that appends. -/
  | begin (publishes : Bool) (additions : List Addition)
  /-- A transaction goes on to its next statement. -/
  | write (index : Nat)
  /-- A statement of a transaction fails, or the connection is lost. -/
  | rollback (index : Nat)
  /-- A request comes in to a process. -/
  | receive (process : Nat) (ask : Ask)
  /-- A request goes on to its next statement. -/
  | advance (index : Nat) (now : Nat)
  /-- A statement of a request fails. -/
  | fail (index : Nat)

namespace State

variable (s : State S Key)

/-- No transaction holds the append lock. -/
def appendFree : Bool := s.writers.all fun w => !w.locked

def setWriter (index : Nat) (w : Writer Hash) : State S Key :=
  { s with writers := s.writers.set index w }

/-- The next statement of a transaction; `none` while it waits for the lock, or at its end. -/
def write (index : Nat) (w : Writer Hash) : Option (State S Key) :=
  if w.ended then none
  else match w.todo with
    | a :: todo =>
      if w.locked then
        let w' := { w with todo, drawn := w.drawn ++ [a.row S s.nextSeq] }
        some { s.setWriter index w' with nextSeq := s.nextSeq + 1 }
      else if s.appendFree then some (s.setWriter index { w with locked := true })
      else none
    | [] => some { s.setWriter index w.finish with db := s.db.commit w }

/-- A request stands at its next statement. -/
def setReader (index : Nat) (r : Reader S Key) (phase : Phase S Key)
    (cached : Option (Snapshot S)) : State S Key :=
  { s with
    readers := s.readers.set index { r with phase }
    cached := fun process => if process = r.process then cached else s.cached process }

def step : Action Key → Option (State S Key)
  | .start process fresh =>
    some { s with
      db := { s.db with signingKey := s.db.signingKey.or (some fresh) }
      cached := fun other => if other = process then none else s.cached other }
  | .begin publishes additions =>
    some { s with writers := s.writers ++ [⟨publishes, additions, false, [], false⟩] }
  | .write index => s.writers[index]?.bind (s.write index)
  | .rollback index =>
    s.writers[index]?.bind fun w => if w.ended then none else some (s.setWriter index w.finish)
  | .receive process ask => some { s with readers := s.readers ++ [⟨process, ask, .received⟩] }
  | .advance index now =>
    s.readers[index]?.bind fun r =>
      (r.next E s.db (s.cached r.process) now).map fun (phase, cached) =>
        s.setReader index r phase cached
  | .fail index =>
    s.readers[index]?.bind fun r =>
      match r.phase with
      | .answered .. => none
      | _ => some (s.setReader index r (.answered none (.error .database)) (s.cached r.process))

end State

end

end Whispee.Transparency.Service
