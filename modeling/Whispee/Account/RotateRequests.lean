import Whispee.Account.Chain
import Whispee.Lib.Transition
import Mathlib.Data.List.Sort

/-!
# Concurrent rotations on the server

`rotate_account` of `crates/server/src/routes.rs`, one step for each of its awaits, over the tables
it reads and writes. A transaction shows its writes to nobody before it commits; its `UPDATE` holds
the account's row from that statement on, and `log::append` holds the append lock. Both locks fall
with the transaction. Which request holds what is read off the requests' phases.
-/

namespace Whispee.Account

/-! ## The database -/

/-- The committed rows of the tables a rotation touches. -/
structure Database where
  /-- `accounts.identity_key`, by id. -/
  identityKey : String → Option Bytes
  /-- `devices.account`, by device. -/
  deviceAccount : String → Option String
  /-- `log_entries`, as rows of account and link. -/
  logEntries : List (String × Link)
  /-- Accounts with a row in `recovery_escrows`. -/
  recoveryEscrows : List String
  /-- `key_packages`, as rows of device and package. -/
  keyPackages : List (String × Bytes)

/-- `log::chain`: the links of the account, `ORDER BY seq`. -/
def Database.chain (db : Database) (account : String) : List Link :=
  ((db.logEntries.filter (·.1 = account)).map Prod.snd).insertionSort (·.seq ≤ ·.seq)

/-! ## Requests -/

/-- A rotation request, signed by a device. -/
structure RotateAccount where
  deviceId : String
  account : String
  newIdentityKey : Bytes
  rotation : Bytes
  rotatedAt : Nat
  deriving DecidableEq

def RotateAccount.claim (r : RotateAccount) : RotationClaim :=
  ⟨r.account, r.newIdentityKey, r.rotatedAt⟩

inductive ApiError where
  | badRequest (message : String)
  | forbidden
  | notFound
  /-- A statement failed, or the connection was lost. -/
  | database
  deriving DecidableEq

/-- How far a request has come: the await it stands at and what it remembers. -/
inductive Phase where
  | received
  /-- The caller is a device of the account. -/
  | member
  /-- The key read, and the rotation verified against it. -/
  | verified (previousIdentityKey : Bytes)
  /-- The transaction is open. -/
  | begun (previousIdentityKey : Bytes)
  /-- The account row is updated, and held. -/
  | updated (previousIdentityKey : Bytes)
  /-- The append lock is held too. -/
  | locked (previousIdentityKey : Bytes)
  /-- The log entry is inserted under this number. -/
  | inserted (previousIdentityKey : Bytes) (seq : Nat)
  | escrowDeleted (previousIdentityKey : Bytes) (seq : Nat)
  | packagesDeleted (previousIdentityKey : Bytes) (seq : Nat)
  | completed
  | failed (error : ApiError)
  deriving DecidableEq

/-- The key whose row the request has updated and not yet committed. -/
@[simp] def Phase.holdsRow : Phase → Option Bytes
  | .updated k | .locked k | .inserted k _ | .escrowDeleted k _ | .packagesDeleted k _ => some k
  | _ => none

/-- The number drawn by an insertion not yet committed. -/
@[simp] def Phase.drawn : Phase → Option Nat
  | .inserted _ seq | .escrowDeleted _ seq | .packagesDeleted _ seq => some seq
  | _ => none

@[simp] def Phase.holdsAppendLock : Phase → Bool
  | .locked _ | .inserted _ _ | .escrowDeleted _ _ | .packagesDeleted _ _ => true
  | _ => false

/-- The key the rotation was verified against, while the request is under way. -/
@[simp] def Phase.verifiedAgainst : Phase → Option Bytes
  | .verified k | .begun k => some k
  | phase => phase.holdsRow

structure Server where
  db : Database
  /-- What the sequence of `log_entries.seq` returns next. -/
  nextSeq : Nat
  requests : List (RotateAccount × Phase)

/-! ## Steps -/

def MAX_CLOCK_SKEW : Nat := 60

inductive Action where
  /-- A request comes in, at this time of the server's clock. -/
  | receive (request : RotateAccount) (now : Nat)
  /-- A request goes on to its next await. -/
  | advance (index : Nat)
  /-- A statement of the request fails: its transaction is rolled back. -/
  | fail (index : Nat)

def absDiff (a b : Nat) : Nat := (a - b) + (b - a)

/-- The checks made before the first await. -/
def precheck (request : RotateAccount) (now : Nat) : Phase :=
  if request.newIdentityKey.length ≠ 32 then
    .failed (.badRequest "identity key of invalid length")
  else if absDiff now request.rotatedAt > MAX_CLOCK_SKEW then
    .failed (.badRequest "rotation timestamp outside the window")
  else .received

/-- What a committed rotation leaves in the tables. -/
def Database.rotate (db : Database) (r : RotateAccount) (seq : Nat) : Database where
  identityKey account := if account = r.account
    then (db.identityKey account).map fun _ => r.newIdentityKey else db.identityKey account
  deviceAccount := db.deviceAccount
  logEntries := db.logEntries ++
    [(r.account, ⟨seq, r.newIdentityKey, some r.rotation, some r.rotatedAt⟩)]
  recoveryEscrows := db.recoveryEscrows.filter (· ≠ r.account)
  keyPackages := db.keyPackages.filter fun row =>
    ¬ (db.deviceAccount row.1 = some r.account ∧ row.1 ≠ r.deviceId)

namespace Server

def setPhase (s : Server) (index : Nat) (r : RotateAccount) (phase : Phase) : Server :=
  { s with requests := s.requests.set index (r, phase) }

/-- No open transaction holds the row of the account. -/
def rowFree (s : Server) (account : String) : Bool :=
  s.requests.all fun r => r.1.account ≠ account ∨ r.2.holdsRow = none

def appendFree (s : Server) : Bool := s.requests.all fun r => !r.2.holdsAppendLock

section
variable (P : Primitives)

/-- One request goes on to its next await; `none` while it waits for a lock, or at its end. -/
def advance (s : Server) (index : Nat) (r : RotateAccount) : Phase → Option Server
  | .received =>
    some <| s.setPhase index r <|
      if s.db.deviceAccount r.deviceId = some r.account then .member else .failed .forbidden
  | .member =>
    some <| s.setPhase index r <|
      match s.db.identityKey r.account with
      | none => .failed .notFound
      | some previous =>
        match verifyRotation P previous r.claim r.rotation with
        | .ok () => .verified previous
        | .error _ => .failed .forbidden
  | .verified previous => some (s.setPhase index r (.begun previous))
  | .begun previous =>
    -- `UPDATE accounts` waits for the row, and overwrites whatever is committed in it by then.
    if s.rowFree r.account then some (s.setPhase index r (.updated previous)) else none
  | .updated previous =>
    if s.appendFree then some (s.setPhase index r (.locked previous)) else none
  | .locked previous =>
    some { s.setPhase index r (.inserted previous s.nextSeq) with nextSeq := s.nextSeq + 1 }
  | .inserted previous seq => some (s.setPhase index r (.escrowDeleted previous seq))
  | .escrowDeleted previous seq => some (s.setPhase index r (.packagesDeleted previous seq))
  | .packagesDeleted _ seq =>
    some { s.setPhase index r .completed with db := s.db.rotate r seq }
  | .completed | .failed _ => none

def step (s : Server) : Action → Option Server
  | .receive request now => some { s with requests := s.requests ++ [(request, precheck request now)] }
  | .advance index =>
    match s.requests[index]? with
    | some (r, phase) => s.advance P index r phase
    | none => none
  | .fail index =>
    match s.requests[index]? with
    | some (_, .completed) | some (_, .failed _) | none => none
    | some (r, _) => some (s.setPhase index r (.failed .database))

end

/-- The state before the `UPDATE` of a request: the committed key of its account is still the one
the rotation was verified against. -/
def keyUnchanged (s : Server) : Action → Bool
  | .advance index =>
    match s.requests[index]? with
    | some (r, .begun previous) => s.db.identityKey r.account = some previous
    | _ => true
  | _ => true

/-- The request at position `i`, and how far it has come. -/
def At (s : Server) (i : Nat) (r : RotateAccount) (phase : Phase) : Prop :=
  s.requests[i]? = some (r, phase)

/-- What one step does: a request comes in, one moves on without touching the tables, one inserts
its log entry, or one commits. -/
inductive Moves (P : Primitives) (s : Server) (a : Action) : Server → Prop where
  | receive (request : RotateAccount) (now : Nat) :
    Moves P s a { s with requests := s.requests ++ [(request, precheck request now)] }
  | phase (at_ : s.At index r old)
    (signed : ∀ k, new.verifiedAgainst = some k →
      old.verifiedAgainst = some k ∨ verifyRotation P k r.claim r.rotation = .ok ())
    (row : ∀ k, new.holdsRow = some k →
      old.holdsRow = some k ∨ old = .begun k ∧ a = .advance index ∧ s.rowFree r.account)
    (append : new.holdsAppendLock → old.holdsAppendLock ∨ s.appendFree)
    (drawn : ∀ seq, new.drawn = some seq → old.drawn = some seq) :
    Moves P s a (s.setPhase index r new)
  | insert (at_ : s.At index r (.locked previous)) :
    Moves P s a { s.setPhase index r (.inserted previous s.nextSeq) with
      nextSeq := s.nextSeq + 1 }
  | commit (at_ : s.At index r (.packagesDeleted previous seq)) :
    Moves P s a { s.setPhase index r .completed with db := s.db.rotate r seq }

theorem moves_of_advance {P : Primitives} {s t : Server}
    (at_ : s.At index r old) (h : s.advance P index r old = some t) :
    Moves P s (.advance index) t := by
  cases old with
  | received =>
    cases h
    refine .phase at_ ?_ ?_ ?_ ?_ <;> split <;> simp
  | member =>
    cases h
    cases s.db.identityKey r.account with
    | none => exact .phase at_ (by simp) (by simp) (by simp) (by simp)
    | some previous =>
      cases hv : verifyRotation P previous r.claim r.rotation with
      | error e => exact .phase at_ (by simp [hv]) (by simp [hv]) (by simp [hv]) (by simp [hv])
      | ok u => exact .phase at_ (by simp [hv]) (by simp [hv]) (by simp [hv]) (by simp [hv])
  | verified previous =>
    cases h
    exact .phase at_ (by simp) (by simp) (by simp) (by simp)
  | begun previous =>
    simp only [advance] at h
    split at h
    · cases h
      exact .phase at_ (by simp) (by simp_all) (by simp) (by simp)
    · cases h
  | updated previous =>
    simp only [advance] at h
    split at h
    · cases h
      exact .phase at_ (by simp) (by simp) (by simp_all) (by simp)
    · cases h
  | locked previous =>
    cases h
    exact .insert at_
  | inserted previous seq =>
    cases h
    exact .phase at_ (by simp) (by simp) (by simp) (by simp)
  | escrowDeleted previous seq =>
    cases h
    exact .phase at_ (by simp) (by simp) (by simp) (by simp)
  | packagesDeleted previous seq =>
    cases h
    exact .commit at_
  | completed => cases h
  | failed e => cases h

theorem moves_of_step {P : Primitives} {s t : Server} (h : s.step P a = some t) :
    Moves P s a t := by
  cases a with
  | receive request now =>
    cases h
    exact .receive request now
  | advance index =>
    simp only [step] at h
    split at h
    · exact moves_of_advance ‹_› h
    · cases h
  | fail index =>
    simp only [step] at h
    split at h
    any_goals cases h
    exact .phase ‹_› (by simp) (by simp) (by simp) (by simp)

end Server

/-! ## What a client may rely on -/


/-- Every chain the server serves is accepted by the walk, and ends on the account's key. -/
def Database.Served (P : Primitives) (db : Database) : Prop :=
  ∀ account key, db.identityKey account = some key → walk P account (db.chain account) = .ok key

/-- The log is in the order of its numbers, and the next one is new. -/
structure Database.Ordered (db : Database) (nextSeq : Nat) : Prop where
  ordered : (db.logEntries.map (·.2.seq)).Pairwise (· < ·)
  below : ∀ row ∈ db.logEntries, row.2.seq < nextSeq

end Whispee.Account
