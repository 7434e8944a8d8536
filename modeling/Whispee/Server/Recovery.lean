import Whispee.Lib.Mvcc
import Whispee.Lib.Tasks
import Whispee.Lib.Transition
import Whispee.Server.Groups

/-!
# The recovery escrows

`set_recovery`, `list_recovery`, `forget_recovery` and `claim_recovery` of
`crates/server/src/routes.rs`, and the deletion of `rotate_account`, over the table of
`migrations/0018_recovery_escrow.sql`. A transaction takes its statements one after the other, and a
deletion its rows; a statement that meets what another transaction has done to a row, or to one with
the same key, waits for it. A request of `claim_recovery` is taken after its limit. Times are
microseconds.
-/

namespace Whispee.Server.Recovery

open Groups (decodeB64 json)
open Mvcc Transition

def RECOVERY_LOOKUP_LEN : Nat := 32

def RECOVERY_PARAMS_LEN : Nat := 13

def RECOVERY_SEALED_LEN : Nat := 92

inductive Kind where
  | password
  | passkey
  deriving DecidableEq

/-- The name of a kind, on the wire and in the table. -/
def Kind.name : Kind → String
  | .password => "password"
  | .passkey => "passkey"

def recoveryKind : String → Except ApiError Kind
  | "password" => .ok .password
  | "passkey" => .ok .passkey
  | _ => .error (.badRequest "unknown recovery kind")

def decodeExact (value : String) (expected : Nat) (what : String) : Except ApiError Bytes := do
  let bytes ← decodeB64 value
  if bytes.length ≠ expected then .error (.badRequest what) else .ok bytes

/-! ## The table -/

/-- A row of `recovery_escrows`. -/
structure Row where
  lookup : Bytes
  account : String
  kind : Kind
  params : Bytes
  sealed : Bytes
  createdAt : Nat
  deriving DecidableEq

/-- `UNIQUE (account, kind)` forbids the two. -/
def Row.sameFactor (row row' : Row) : Prop := row.account = row'.account ∧ row.kind = row'.kind

instance (row row' : Row) : Decidable (row.sameFactor row') := inferInstanceAs (Decidable (_ ∧ _))

/-- One of the constraints of the table forbids the two. -/
def Row.Clashes (row row' : Row) : Prop := row.lookup = row'.lookup ∨ row.sameFactor row'

theorem Row.Clashes.symm {row row' : Row} (h : row.Clashes row') : row'.Clashes row :=
  h.imp Eq.symm fun same => ⟨same.1.symm, same.2.symm⟩

structure Database where
  /-- `SELECT account FROM devices WHERE id = $1`. -/
  devices : String → Option String
  /-- The handle an account holds. -/
  handles : String → Option String
  escrows : Table Row
  nextCtid : Nat

/-! ## One request -/

inductive Request where
  | set (deviceId : String) (kind : Kind) (lookup params sealed : Bytes)
  | forget (deviceId : String) (kind : Kind)
  /-- `rotate_account`, from its deletion of escrows on. -/
  | rotate (account : String)
  | claim (lookup : Bytes)
  | list (deviceId : String)
  deriving DecidableEq

/-- The device that signs a request. -/
def Request.device : Request → Option String
  | .set deviceId _ _ _ _ | .forget deviceId _ | .list deviceId => some deviceId
  | .rotate _ | .claim _ => none

/-- The rows of an account a request deletes. -/
def Request.removes (account : String) : Request → Row → Bool
  | .set _ kind _ _ _, row | .forget _ kind, row => row.account = account ∧ row.kind = kind
  | .rotate _, row => row.account = account
  | .claim _, _ | .list _, _ => false

/-- Whom a request that deletes rows acts for. -/
def Request.ActsFor (devices : String → Option String) (account : String) : Request → Prop
  | .set deviceId _ _ _ _ | .forget deviceId _ => devices deviceId = some account
  | .rotate account' => account' = account
  | .claim _ | .list _ => False

structure ClaimedRecovery where
  account : String
  handle : Option String
  kind : String
  params : String
  sealed : String
  deriving DecidableEq

/-- The transaction of a request: for whom, its `now()`, the rows its deletion has seen and those it
has deleted. -/
structure Transaction where
  account : String
  began : Nat
  seen : List Nat
  marked : List Nat
  deriving DecidableEq

/-- The statement a request sends next, or how it has ended. -/
inductive Phase where
  /-- The account of its device. -/
  | authorizing
  | beginning (account : String)
  /-- The deletion starts, and goes over the rows it has seen. -/
  | selecting (account : String) (began : Nat)
  | removing (tx : Transaction) (rest : List Nat)
  | inserting (tx : Transaction)
  /-- Its transaction has done all it does. -/
  | committing (tx : Transaction)
  | done (seen : List Nat) (removed : Nat)
  | looking
  | answered (answer : ClaimedRecovery)
  | listing (account : String)
  | listed (factors : List (String × Nat))
  | refused (error : ApiError)
  deriving DecidableEq

namespace Phase

def account? : Phase → Option String
  | .beginning account | .selecting account _ => some account
  | .removing tx _ | .inserting tx | .committing tx => some tx.account
  | _ => none

/-- The rows its transaction has deleted. -/
def marked : Phase → List Nat
  | .removing tx _ | .inserting tx | .committing tx => tx.marked
  | _ => []

/-- The rows its deletion has seen. -/
def seen : Phase → List Nat
  | .removing tx _ | .inserting tx | .committing tx => tx.seen
  | .done seen _ => seen
  | _ => []

/-- Those it has still to come to. -/
def rest : Phase → List Nat
  | .removing _ rest => rest
  | _ => []

def underway : Phase → Bool
  | .done _ _ | .answered _ | .listed _ | .refused _ => false
  | _ => true

/-- A request under no transaction has done nothing. -/
theorem bare_of_account {phase : Phase} (h : phase.account? = none) :
    phase.marked = [] ∧ phase.rest = [] ∧ ∀ tx, phase ≠ .committing tx := by
  cases phase with
  | beginning | selecting | removing | inserting | committing => cases h
  | _ => exact ⟨rfl, rfl, nofun⟩

end Phase

structure Task where
  request : Request
  phase : Phase
  deriving DecidableEq

/-- The row its transaction has inserted. -/
def Task.draft : Task → Option Row
  | ⟨.set _ kind lookup params sealed, .committing tx⟩ =>
    some ⟨lookup, tx.account, kind, params, sealed, tx.began⟩
  | _ => none

/-- `set_recovery`, what it checks of the body. -/
def setRecovery (deviceId : String) (body : Option (String × String × String × String)) :
    Except ApiError Request := do
  let (kind, lookup, params, sealed) ← json body
  let kind ← recoveryKind kind
  let lookup ← decodeExact lookup RECOVERY_LOOKUP_LEN "lookup of invalid length"
  let params ← decodeExact params RECOVERY_PARAMS_LEN "escrow parameters of invalid length"
  let sealed ← decodeExact sealed RECOVERY_SEALED_LEN "escrow of invalid length"
  .ok (.set deviceId kind lookup params sealed)

/-- `forget_recovery`, what it checks of the body. -/
def forgetRecovery (deviceId : String) (body : Option String) : Except ApiError Request := do
  let kind ← json body
  let kind ← recoveryKind kind
  .ok (.forget deviceId kind)

/-- `claim_recovery`, what it checks of the body. -/
def claimRecovery (lookup : String) : Except ApiError Request := do
  let lookup ← decodeExact lookup RECOVERY_LOOKUP_LEN "lookup of invalid length"
  .ok (.claim lookup)

namespace Database

/-- The row of a lookup, as everybody sees it. -/
def escrow? (db : Database) (lookup : Bytes) : Option Row :=
  db.escrows.rows.find? (·.lookup = lookup)

def answer (db : Database) (row : Row) : ClaimedRecovery where
  account := row.account
  handle := db.handles row.account
  kind := row.kind.name
  params := Base64.encode row.params
  sealed := Base64.encode row.sealed

/-- The factors of an account, `ORDER BY kind`, each with its second: the cast rounds. -/
def factors (db : Database) (account : String) : List (String × Nat) :=
  [Kind.passkey, .password].flatMap fun kind =>
    (db.escrows.rows.filter fun row => row.account = account ∧ row.kind = kind).map
      fun row => (kind.name, (row.createdAt + 500000) / 1000000)

end Database

/-- What an insertion meets. -/
inductive Insertion where
  | waits
  | refused (error : ApiError)
  | inserted

/-- `INSERT ... ON CONFLICT (lookup) DO NOTHING`, for the transaction `x`. -/
def insertion (escrows : Table Row) (x : Nat) (row : Row) : Insertion :=
  if escrows.any fun u => u.row.lookup = row.lookup ∧ u.heldByOther x then .waits
  else if escrows.any fun u => u.row.lookup = row.lookup ∧ u.Committed then
    .refused (.conflict "this recovery secret is already in use")
  else if escrows.any fun u => u.row.sameFactor row ∧ u.heldByOther x then .waits
  -- The other constraint is not that of the clause.
  else if escrows.any fun u => u.row.sameFactor row ∧ u.Committed then .refused .database
  else .inserted

/-- The next statement of a request, or the next row of one, unless it has to wait: the database and
the phase it leaves, the transaction rolled back where it is refused. -/
def next (now : Nat) (db : Database) (x : Nat) (t : Task) : Option (Database × Phase) :=
  match t.phase with
  | .authorizing =>
    match t.request.device.bind db.devices with
    | none => some (db, .refused .forbidden)
    | some account =>
      match t.request with
      | .list _ => some (db, .listing account)
      | _ => some (db, .beginning account)
  | .beginning account => some (db, .selecting account now)
  | .selecting account began =>
    let visible := db.escrows.filter fun u => u.xmin = none ∧ t.request.removes account u.row
    let seen := visible.map (·.ctid)
    some (db, .removing ⟨account, began, seen, []⟩ seen)
  | .removing tx (ctid :: rest) =>
    if db.escrows.any fun u => u.ctid = ctid ∧ u.heldByOther x then none
    else if db.escrows.any fun u => u.ctid = ctid ∧ u.Committed then
      some ({ db with escrows := db.escrows.delete x fun u => u.ctid = ctid ∧ u.Committed },
        .removing { tx with marked := tx.marked ++ [ctid] } rest)
    else some (db, .removing tx rest)
  | .removing tx [] =>
    match t.request with
    | .set _ _ _ _ _ => some (db, .inserting tx)
    | _ => some (db, .committing tx)
  | .inserting tx =>
    match t.request with
    | .set _ kind lookup params sealed =>
      let row : Row := ⟨lookup, tx.account, kind, params, sealed, tx.began⟩
      match insertion db.escrows x row with
      | .waits => none
      | .refused error => some ({ db with escrows := db.escrows.rollback x }, .refused error)
      | .inserted =>
        some ({ db with escrows := db.escrows.insert x db.nextCtid row, nextCtid := db.nextCtid + 1 },
          .committing tx)
    | _ => none
  | .looking =>
    match t.request with
    | .claim lookup =>
      match db.escrow? lookup with
      | some row => some (db, .answered (db.answer row))
      | none => some (db, .refused .notFound)
    | _ => none
  | .listing account => some (db, .listed (db.factors account))
  | _ => none

/-! ## The server -/

/-- A factor set: by which request, and its row. -/
structure Entry where
  task : Nat
  ctid : Nat
  row : Row
  deriving DecidableEq

structure State where
  time : Nat
  db : Database
  tasks : List Task
  /-- The factors set, in the order of their commits. -/
  entries : List Entry
  /-- The rows removed, and by which request. -/
  removed : List (Nat × Nat)

inductive Action where
  | pass (time : Nat)
  | register (deviceId account : String)
  | rename (account : String) (handle : Option String)
  | set (deviceId : String) (body : Option (String × String × String × String))
  | forget (deviceId : String) (body : Option String)
  | rotate (account : String)
  | claim (lookup : String)
  | list (deviceId : String)
  | statement (task : Nat)
  | commit (task : Nat)
  /-- The commit takes effect, and its answer is lost. -/
  | lose (task : Nat)
  /-- A statement fails, or the request goes away. -/
  | fail (task : Nat)

def Request.start : Request → Phase
  | .set _ _ _ _ _ | .forget _ _ | .list _ => .authorizing
  | .rotate account => .beginning account
  | .claim _ => .looking

namespace State

def receive (s : State) : Except ApiError Request → State
  | .ok request => { s with tasks := s.tasks ++ [⟨request, request.start⟩] }
  | .error _ => s

def advance (s : State) (i : Nat) (t : Task) (db : Database) (phase : Phase) : State :=
  { s with db, tasks := s.tasks.set i { t with phase } }

/-- The rows a transaction has inserted, as the table holds them. -/
def drafts (s : State) (i : Nat) : List Entry :=
  (s.db.escrows.filter (·.xmin = some i)).map fun u => ⟨i, u.ctid, u.row⟩

def commit (s : State) (i : Nat) (t : Task) (phase : Phase) : State :=
  { s with
    db := { s.db with escrows := s.db.escrows.commit i }
    tasks := s.tasks.set i { t with phase }
    entries := s.entries ++ s.drafts i
    removed := s.removed ++ t.phase.marked.map (i, ·) }

def step (s : State) : Action → Option State
  | .pass time => if s.time ≤ time then some { s with time } else none
  | .register deviceId account =>
    if (s.db.devices deviceId).isSome then none
    else some { s with db := { s.db with
      devices := Function.update s.db.devices deviceId (some account) } }
  | .rename account handle =>
    some { s with db := { s.db with handles := Function.update s.db.handles account handle } }
  | .set deviceId body => some (s.receive (setRecovery deviceId body))
  | .forget deviceId body => some (s.receive (forgetRecovery deviceId body))
  | .rotate account => some (s.receive (.ok (.rotate account)))
  | .claim lookup => some (s.receive (claimRecovery lookup))
  | .list deviceId => some (s.receive (.ok (.list deviceId)))
  | .statement i => do
    let t ← s.tasks[i]?
    let (db, phase) ← next s.time s.db i t
    some (s.advance i t db phase)
  | .commit i => do
    let t ← s.tasks[i]?
    match t.phase with
    | .committing tx => some (s.commit i t (.done tx.seen tx.marked.length))
    | _ => none
  | .lose i => do
    let t ← s.tasks[i]?
    match t.phase with
    | .committing _ => some (s.commit i t (.refused .database))
    | _ => none
  | .fail i => do
    let t ← s.tasks[i]?
    if t.phase.underway then
      some (s.advance i t { s.db with escrows := s.db.escrows.rollback i } (.refused .database))
    else none

end State

def empty : State := ⟨0, ⟨fun _ => none, fun _ => none, [], 0⟩, [], [], []⟩

/-! ## What a step does -/

/-- An answer serves a row. -/
def ClaimedRecovery.Serves (answer : ClaimedRecovery) (row : Row) : Prop :=
  answer.account = row.account ∧ answer.kind = row.kind.name ∧
    answer.params = Base64.encode row.params ∧ answer.sealed = Base64.encode row.sealed

/-- What a step of a request does to the table. -/
inductive Next (now : Nat) (db : Database) (x : Nat) (t : Task) : Database → Phase → Prop where
  /-- It only reads, for no transaction. -/
  | reads (before : t.phase.account? = none) (unseen : t.phase.seen = [])
      (after : phase'.account? = none) (seen : phase'.seen = [])
      (unended : ∀ seen removed, phase' ≠ .done seen removed)
      (answers : ∀ answer, phase' = .answered answer → ∃ row ∈ db.escrows.rows,
        t.request = .claim row.lookup ∧ answer.Serves row) : Next now db x t db phase'
  | authorizes (phase : t.phase = .authorizing) (acts : t.request.ActsFor db.devices account) :
      Next now db x t db (.beginning account)
  | begins (phase : t.phase = .beginning account) : Next now db x t db (.selecting account now)
  | selects (phase : t.phase = .selecting account began)
      (saw : ∀ n, n ∈ seen ↔ ∃ u ∈ db.escrows, u.xmin = none ∧ t.request.removes account u.row ∧
        u.ctid = n) : Next now db x t db (.removing ⟨account, began, seen, []⟩ seen)
  | deletes (phase : t.phase = .removing tx (u.ctid :: rest)) (row : u ∈ db.escrows)
      (committed : u.Committed) :
      Next now db x t
        { db with escrows := db.escrows.delete x fun v => v.ctid = u.ctid ∧ v.Committed }
        (.removing { tx with marked := tx.marked ++ [u.ctid] } rest)
  | skips (phase : t.phase = .removing tx (n :: rest))
      (gone : ∀ u ∈ db.escrows, u.ctid = n → u.heldByOther x = false ∧ ¬ u.Committed) :
      Next now db x t db (.removing tx rest)
  | goes (phase : t.phase = .removing tx []) (set : t.request = .set deviceId kind lookup params sealed) :
      Next now db x t db (.inserting tx)
  | ends (phase : t.phase = .removing tx []) (draft : Task.draft { t with phase := .committing tx } = none) :
      Next now db x t db (.committing tx)
  | inserts (phase : t.phase = .inserting tx)
      (draft : Task.draft { t with phase := .committing tx } = some row)
      (free : insertion db.escrows x row = .inserted) :
      Next now db x t
        { db with escrows := db.escrows.insert x db.nextCtid row, nextCtid := db.nextCtid + 1 }
        (.committing tx)
  | refuses (phase : t.phase = .inserting tx) :
      Next now db x t { db with escrows := db.escrows.rollback x } (.refused error)

theorem next_spec (h : next now db x t = some (db', phase')) : Next now db x t db' phase' := by
  obtain ⟨request, phase⟩ := t
  cases phase with
  | authorizing =>
    cases hdevice : request.device.bind db.devices with
    | none =>
      simp only [next, hdevice] at h
      cases h
      exact .reads rfl rfl rfl rfl nofun nofun
    | some account =>
      obtain ⟨deviceId, hrequest, haccount⟩ := Option.bind_eq_some_iff.1 hdevice
      simp only [next, hdevice] at h
      cases request with
      | list =>
        cases h
        exact .reads rfl rfl rfl rfl nofun nofun
      | set | forget =>
        cases h
        cases hrequest
        exact .authorizes rfl haccount
      | rotate | claim => cases hrequest
  | beginning =>
    cases h
    exact .begins rfl
  | selecting =>
    cases h
    refine .selects rfl fun n => ?_
    simp [and_assoc]
  | removing tx rest =>
    cases rest with
    | nil =>
      cases request <;> cases h
      · exact .goes rfl rfl
      all_goals exact .ends rfl rfl
    | cons n rest =>
      simp only [next, Option.ite_none_left_eq_some, List.any_eq_true, decide_eq_true_eq] at h
      obtain ⟨free, h⟩ := h
      split at h
      next hany =>
        obtain ⟨u, hu, rfl, committed⟩ := hany
        cases h
        exact .deletes rfl hu committed
      next hnone =>
        cases h
        refine .skips rfl fun u hu hn => ⟨?_, fun committed => hnone ⟨u, hu, hn, committed⟩⟩
        rw [← Bool.not_eq_true]
        exact fun held => free ⟨u, hu, hn, held⟩
  | inserting tx =>
    cases request with
    | set deviceId kind lookup params sealed =>
      simp only [next] at h
      split at h
      · cases h
      · cases h
        exact .refuses rfl
      · cases h
        exact .inserts rfl rfl ‹_›
    | _ => cases h
  | looking =>
    cases request with
    | claim lookup =>
      simp only [next] at h
      split at h
      next row hrow =>
        cases h
        refine .reads rfl rfl rfl rfl nofun fun answer hanswer => ?_
        cases hanswer
        have hlookup : row.lookup = lookup := by simpa using List.find?_some hrow
        exact ⟨row, List.mem_of_find?_eq_some hrow, hlookup ▸ rfl, rfl, rfl, rfl, rfl⟩
      next =>
        cases h
        exact .reads rfl rfl rfl rfl nofun nofun
    | _ => cases h
  | listing =>
    cases h
    exact .reads rfl rfl rfl rfl nofun nofun
  | _ => cases h

inductive Moves (s : State) : State → Prop where
  /-- It leaves the requests alone. -/
  | aside (later : s.time ≤ time) (kept : ∀ deviceId account, s.db.devices deviceId = some account →
      devices deviceId = some account) :
      Moves s { s with time, db := { s.db with devices, handles } }
  | receives : Moves s (s.receive request)
  | advances (at_ : s.tasks[i]? = some t) (next : next s.time s.db i t = some (db, phase)) :
      Moves s (s.advance i t db phase)
  | commits (at_ : s.tasks[i]? = some t) (committing : t.phase = .committing tx)
      (after : phase = .done tx.seen tx.marked.length ∨ phase = .refused .database) :
      Moves s (s.commit i t phase)
  | fails (at_ : s.tasks[i]? = some t) :
      Moves s (s.advance i t { s.db with escrows := s.db.escrows.rollback i } (.refused .database))

theorem step_cases {s : State} (h : s.step a = some s') : Moves s s' := by
  cases a with
  | pass time =>
    simp only [State.step, Option.ite_none_right_eq_some] at h
    cases h.2
    exact .aside h.1 fun _ _ h => h
  | register deviceId account =>
    simp only [State.step, Option.ite_none_left_eq_some, Bool.not_eq_true] at h
    cases h.2
    refine .aside (Nat.le_refl _) fun id account hd => ?_
    rw [Function.update_of_ne, hd]
    rintro rfl
    simp [hd] at h
  | rename account handle =>
    cases h
    exact .aside (Nat.le_refl _) fun _ _ h => h
  | set | forget | rotate | claim | list =>
    cases h
    exact .receives
  | statement i =>
    obtain ⟨t, at_, h⟩ := Option.bind_eq_some_iff.1 h
    obtain ⟨⟨db, phase⟩, hnext, h⟩ := Option.bind_eq_some_iff.1 h
    cases h
    exact .advances at_ hnext
  | commit i =>
    obtain ⟨t, at_, h⟩ := Option.bind_eq_some_iff.1 h
    split at h
    next hphase =>
      cases h
      exact .commits at_ hphase (.inl rfl)
    next => cases h
  | lose i =>
    obtain ⟨t, at_, h⟩ := Option.bind_eq_some_iff.1 h
    split at h
    next hphase =>
      cases h
      exact .commits at_ hphase (.inr rfl)
    next => cases h
  | fail i =>
    obtain ⟨t, at_, h⟩ := Option.bind_eq_some_iff.1 h
    split at h
    next =>
      cases h
      exact .fails at_
    next => cases h

/-! ## A transaction and its rows -/

theorem Request.ActsFor.mono {devices devices' : String → Option String} {request : Request}
    (h : request.ActsFor devices account)
    (kept : ∀ deviceId account, devices deviceId = some account → devices' deviceId = some account) :
    request.ActsFor devices' account := by
  cases request with
  | set | forget => exact kept _ _ h
  | rotate => exact h
  | claim | list => exact h.elim

theorem Request.account_of_removes {request : Request} (h : request.removes account row) :
    row.account = account := by
  cases request with
  | set | forget => exact (of_decide_eq_true h).1
  | rotate => exact of_decide_eq_true h
  | claim | list => cases h

theorem Task.draft_eq_some {t : Task} (h : t.draft = some row) : ∃ deviceId tx,
    t.phase = .committing tx ∧ row.account = tx.account ∧
      t.request = .set deviceId row.kind row.lookup row.params row.sealed := by
  unfold Task.draft at h
  split at h
  · cases h
    exact ⟨_, _, rfl, rfl, rfl⟩
  · cases h

theorem Task.draft_ne_some {t : Task} (h : ∀ tx, t.phase ≠ .committing tx) (row : Row) :
    t.draft ≠ some row := by
  intro hrow
  obtain ⟨_, tx, hphase, _⟩ := Task.draft_eq_some hrow
  exact h tx hphase

/-- What the table holds of a request, and what its request knows of the table. -/
structure Sound (db : Database) (i : Nat) (t : Task) : Prop where
  acts : ∀ account, t.phase.account? = some account → t.request.ActsFor db.devices account
  fresh : ∀ n ∈ t.phase.seen, n < db.nextCtid
  sees : ∀ account, t.phase.account? = some account → ∀ u ∈ db.escrows, u.ctid ∈ t.phase.seen →
    t.request.removes account u.row
  saw : t.phase.marked ⊆ t.phase.seen
  ahead : t.phase.rest ⊆ t.phase.seen
  covers : ∀ u ∈ db.escrows, u.ctid ∈ t.phase.seen →
    u.ctid ∈ t.phase.rest ∨ u.ctid ∈ t.phase.marked
  marked : ∀ u ∈ db.escrows, u.xmax = some i ↔ u.ctid ∈ t.phase.marked
  drafts : ∀ u ∈ db.escrows, u.xmin = some i → t.draft = some u.row
  drafted : ∀ row, t.draft = some row → ∃ u ∈ db.escrows, u.xmin = some i ∧ u.row = row

namespace Sound

/-- What another transaction does is no matter of this one. -/
theorem leaves (h : Sound db j t) (hne : j ≠ x)
    (left : Table.Leaves x db.nextCtid db.escrows db'.escrows)
    (devices : ∀ deviceId account, db.devices deviceId = some account →
      db'.devices deviceId = some account)
    (nextCtid : db.nextCtid ≤ db'.nextCtid) : Sound db' j t where
  acts account haccount := (h.acts account haccount).mono devices
  fresh n hn := Nat.lt_of_lt_of_le (h.fresh n hn) nextCtid
  sees account haccount u' hu' hseen := by
    rcases left.back u' hu' with ⟨hctid, _⟩ | ⟨u, hu, hctid, hrow, _⟩
    · exact absurd hctid (Nat.ne_of_lt (h.fresh _ hseen))
    · rw [hctid] at hseen
      exact hrow ▸ h.sees account haccount u hu hseen
  saw := h.saw
  ahead := h.ahead
  covers u' hu' hseen := by
    rcases left.back u' hu' with ⟨hctid, _⟩ | ⟨u, hu, hctid, _⟩
    · exact absurd hctid (Nat.ne_of_lt (h.fresh _ hseen))
    · rw [hctid] at hseen ⊢
      exact h.covers u hu hseen
  marked u' hu' := by
    rcases left.back u' hu' with ⟨hctid, _, hmax⟩ | ⟨u, hu, hctid, _, hsame⟩
    · rw [hmax]
      refine ⟨nofun, fun hmem => ?_⟩
      exact absurd hctid (Nat.ne_of_lt (h.fresh _ (h.saw hmem)))
    · rw [hctid]
      exact (hsame j hne).2.trans (h.marked u hu)
  drafts u' hu' hmin := by
    rcases left.back u' hu' with ⟨_, hmin', _⟩ | ⟨u, hu, _, hrow, hsame⟩
    · exact absurd (Option.some.inj (hmin.symm.trans hmin')) hne
    · exact hrow ▸ h.drafts u hu ((hsame j hne).1.1 hmin)
  drafted row hdraft := by
    obtain ⟨u, hu, hmin, hrow⟩ := h.drafted row hdraft
    exact ⟨u, left.forth u hu j hne hmin, hmin, hrow⟩

/-- Nothing of it is in the table. -/
theorem draftless (h : Sound db i t) (running : ∀ tx, t.phase ≠ .committing tx) :
    ∀ u ∈ db.escrows, u.xmin ≠ some i :=
  fun u hu hmin => Task.draft_ne_some running _ (h.drafts u hu hmin)

end Sound

/-- A request that has nothing in the table, and knows nothing of it. -/
theorem Sound.of_bare
    (acts : ∀ account, t.phase.account? = some account → t.request.ActsFor db.devices account)
    (seen : t.phase.seen = []) (marked : t.phase.marked = []) (rest : t.phase.rest = [])
    (running : ∀ tx, t.phase ≠ .committing tx)
    (untouched : ∀ u ∈ db.escrows, u.xmin ≠ some i ∧ u.xmax ≠ some i) : Sound db i t where
  acts := acts
  fresh := by simp [seen]
  sees := by simp [seen]
  saw := by simp [marked]
  ahead := by simp [rest]
  covers := by simp [seen]
  marked u hu := by simp [marked, (untouched u hu).2]
  drafts u hu hmin := absurd hmin (untouched u hu).1
  drafted row hrow := absurd hrow (Task.draft_ne_some running row)

theorem Sound.untouched (h : Sound db i t) (marked : t.phase.marked = [])
    (running : ∀ tx, t.phase ≠ .committing tx) :
    ∀ u ∈ db.escrows, u.xmin ≠ some i ∧ u.xmax ≠ some i := by
  refine fun u hu => ⟨h.draftless running u hu, fun hmax => ?_⟩
  have hmem := (h.marked u hu).1 hmax
  rw [marked] at hmem
  cases hmem

/-- The table and the rows that come next. -/
structure Tidy (db : Database) : Prop where
  wf : db.escrows.Wf
  distinct : (db.escrows.map (·.ctid)).Nodup
  fresh : ∀ u ∈ db.escrows, u.ctid < db.nextCtid
  unique : db.escrows.Unique Row.Clashes

namespace Tidy

theorem commit (h : Tidy db) : Tidy { db with escrows := db.escrows.commit x } where
  wf := h.wf.commit
  distinct := h.distinct.sublist Table.ctids_commit
  fresh u' hu' := by
    obtain ⟨u, hu, hctid⟩ := List.mem_map.1 (Table.ctids_commit.subset (List.mem_map_of_mem hu'))
    exact hctid ▸ h.fresh u hu
  unique := h.unique.commit

theorem rollback (h : Tidy db) : Tidy { db with escrows := db.escrows.rollback x } where
  wf := h.wf.rollback
  distinct := h.distinct.sublist Table.ctids_rollback
  fresh u' hu' := by
    obtain ⟨u, hu, hctid⟩ := List.mem_map.1 (Table.ctids_rollback.subset (List.mem_map_of_mem hu'))
    exact hctid ▸ h.fresh u hu
  unique := h.unique.rollback

end Tidy

theorem Sound.deletes (h : Sound db i t) (tidy : Tidy db)
    (hphase : t.phase = .removing tx (u.ctid :: rest)) (hu : u ∈ db.escrows)
    (committed : u.Committed) :
    Sound { db with escrows := db.escrows.delete i fun v => v.ctid = u.ctid ∧ v.Committed } i
      { t with phase := .removing { tx with marked := tx.marked ++ [u.ctid] } rest } := by
  obtain ⟨request, phase⟩ := t
  cases hphase
  constructor
  · exact h.acts
  · exact h.fresh
  · intro account haccount v' hv' hseen
    obtain ⟨v, hv, hctid, hrow, _⟩ := Table.of_mem_delete hv'
    rw [hctid] at hseen
    exact hrow ▸ h.sees account haccount v hv hseen
  · intro n hn
    rcases List.mem_append.1 hn with hn | hn
    · exact h.saw hn
    · cases List.mem_singleton.1 hn
      exact h.ahead (List.mem_cons_self ..)
  · exact fun n hn => h.ahead (List.mem_cons_of_mem _ hn)
  · intro v' hv' hseen
    obtain ⟨v, hv, hctid, _⟩ := Table.of_mem_delete hv'
    rw [hctid] at hseen ⊢
    rcases h.covers v hv hseen with hrest | hmarked
    · rcases List.mem_cons.1 hrest with heq | hrest
      · exact .inr (List.mem_append_right _ (List.mem_singleton.2 heq))
      · exact .inl hrest
    · exact .inr (List.mem_append_left _ hmarked)
  · intro v' hv'
    obtain ⟨v, hv, rfl⟩ := Table.mem_delete.1 hv'
    split
    next hp =>
      rw [decide_eq_true_eq] at hp
      exact iff_of_true rfl (List.mem_append_right _ (List.mem_singleton.2 hp.1))
    next hp =>
      rw [decide_eq_true_eq] at hp
      have hne : v.ctid ≠ u.ctid := fun heq =>
        hp ⟨heq, Table.eq_of_ctid tidy.distinct hv hu heq ▸ committed⟩
      refine (h.marked v hv).trans (Iff.trans ?_ List.mem_append.symm)
      simp [hne, Phase.marked]
  · intro v' hv' hmin
    obtain ⟨v, hv, _, _, hsame⟩ := Table.of_mem_delete hv'
    exact absurd (hsame ▸ hmin) (h.draftless nofun v hv)
  · exact fun row hrow => (Task.draft_ne_some (by nofun) row hrow).elim

theorem Sound.inserts (h : Sound db i t) (hphase : t.phase = .inserting tx)
    (hdraft : Task.draft { t with phase := .committing tx } = some row) :
    Sound
      { db with escrows := db.escrows.insert i db.nextCtid row, nextCtid := db.nextCtid + 1 } i
      { t with phase := .committing tx } := by
  obtain ⟨request, phase⟩ := t
  cases hphase
  constructor
  · exact h.acts
  · exact fun n hn => Nat.lt_succ_of_lt (h.fresh n hn)
  · intro account haccount v hv hseen
    rcases Table.mem_insert.1 hv with hv | rfl
    · exact h.sees account haccount v hv hseen
    · exact absurd (h.fresh _ hseen) (Nat.lt_irrefl _)
  · exact h.saw
  · exact h.ahead
  · intro v hv hseen
    rcases Table.mem_insert.1 hv with hv | rfl
    · exact h.covers v hv hseen
    · exact absurd (h.fresh _ hseen) (Nat.lt_irrefl _)
  · intro v hv
    rcases Table.mem_insert.1 hv with hv | rfl
    · exact h.marked v hv
    · exact iff_of_false nofun fun hmem => absurd (h.fresh _ (h.saw hmem)) (Nat.lt_irrefl _)
  · intro v hv hmin
    rcases Table.mem_insert.1 hv with hv | rfl
    · exact absurd hmin (h.draftless nofun v hv)
    · exact hdraft
  · intro row' hrow'
    cases hdraft.symm.trans hrow'
    exact ⟨_, Table.mem_insert.2 (.inr rfl), rfl, rfl⟩

theorem Sound.next (h : Sound db i t) (tidy : Tidy db) (hnext : Next now db i t db' phase') :
    Sound db' i { t with phase := phase' } := by
  obtain ⟨request, phase⟩ := t
  cases hnext with
  | reads before _ after seen _ _ =>
    obtain ⟨marked, rest, running⟩ := Phase.bare_of_account before
    obtain ⟨marked', rest', running'⟩ := Phase.bare_of_account after
    refine .of_bare (fun account haccount => ?_) seen marked' rest' running' (h.untouched marked running)
    cases after.symm.trans haccount
  | authorizes hphase acts =>
    cases hphase
    refine .of_bare (fun account haccount => ?_) rfl rfl rfl nofun (h.untouched rfl nofun)
    cases haccount
    exact acts
  | begins hphase =>
    cases hphase
    exact .of_bare h.acts rfl rfl rfl nofun (h.untouched rfl nofun)
  | @selects account began seen hphase saw =>
    cases hphase
    have free := h.untouched rfl nofun
    constructor
    · exact h.acts
    · intro n hn
      obtain ⟨u, hu, _, _, rfl⟩ := (saw n).1 hn
      exact tidy.fresh u hu
    · intro account' haccount u hu hseen
      cases haccount
      obtain ⟨v, hv, _, hremoves, hctid⟩ := (saw _).1 hseen
      exact Table.eq_of_ctid tidy.distinct hv hu hctid ▸ hremoves
    · exact nofun
    · exact fun n hn => hn
    · exact fun u _ hseen => .inl hseen
    · exact fun u hu => iff_of_false (free u hu).2 nofun
    · exact fun u hu hmin => absurd hmin (free u hu).1
    · exact fun row hrow => (Task.draft_ne_some (by nofun) row hrow).elim
  | deletes hphase hu committed => exact h.deletes tidy hphase hu committed
  | @skips tx n rest hphase gone =>
    cases hphase
    constructor
    · exact h.acts
    · exact h.fresh
    · exact h.sees
    · exact h.saw
    · exact fun n hn => h.ahead (List.mem_cons_of_mem _ hn)
    · intro u hu hseen
      rcases h.covers u hu hseen with hrest | hmarked
      · rcases List.mem_cons.1 hrest with heq | hrest
        · -- The row is no other's, nor as everybody sees it.
          obtain ⟨held, uncommitted⟩ := gone u hu heq
          refine .inr ((h.marked u hu).1 ?_)
          obtain ⟨own, own'⟩ := Tuple.own_of_not_held held
          rcases own with hmin | hmin
          · exact own'.resolve_left fun hmax => uncommitted ⟨hmin, hmax⟩
          · exact absurd hmin (h.draftless nofun u hu)
        · exact .inl hrest
      · exact .inr hmarked
    · exact h.marked
    · exact fun u hu hmin => absurd hmin (h.draftless nofun u hu)
    · exact fun row hrow => (Task.draft_ne_some (by nofun) row hrow).elim
  | goes hphase =>
    cases hphase
    exact ⟨h.acts, h.fresh, h.sees, h.saw, nofun, h.covers, h.marked,
      fun u hu hmin => absurd hmin (h.draftless nofun u hu),
      fun row hrow => (Task.draft_ne_some (by nofun) row hrow).elim⟩
  | ends hphase draft =>
    cases hphase
    refine ⟨h.acts, h.fresh, h.sees, h.saw, nofun, h.covers, h.marked,
      fun u hu hmin => absurd hmin (h.draftless nofun u hu), fun row hrow => ?_⟩
    cases draft.symm.trans hrow
  | inserts hphase draft => exact h.inserts hphase draft
  | refuses hphase => exact .of_bare nofun rfl rfl rfl nofun Table.not_marked_rollback

/-! ## The table through a run -/

theorem clashes_of_inserted {escrows : Table Row} (h : insertion escrows x row = .inserted)
    (hu : u ∈ escrows) (clashes : u.row.Clashes row) :
    u.heldByOther x = false ∧ ¬ u.Committed := by
  simp only [insertion, List.any_eq_true, decide_eq_true_eq] at h
  split at h
  · cases h
  next lookupHeld =>
    split at h
    · cases h
    next lookupTaken =>
      split at h
      · cases h
      next factorHeld =>
        split at h
        · cases h
        next factorTaken =>
          rw [← Bool.not_eq_true]
          rcases clashes with same | same
          · exact ⟨fun held => lookupHeld ⟨u, hu, same, held⟩,
              fun committed => lookupTaken ⟨u, hu, same, committed⟩⟩
          · exact ⟨fun held => factorHeld ⟨u, hu, same, held⟩,
              fun committed => factorTaken ⟨u, hu, same, committed⟩⟩

theorem Tidy.next (h : Tidy db) (sound : Sound db i t) (hnext : Next now db i t db' phase') :
    Tidy db' := by
  cases hnext with
  | @deletes _ _ u =>
    have committed : ∀ v ∈ db.escrows, decide (v.ctid = u.ctid ∧ v.Committed) → v.Committed :=
      fun v _ hv => (of_decide_eq_true hv).2
    refine ⟨h.wf.delete committed, ?_, fun v' hv' => ?_,
      h.unique.delete (fun _ _ => Row.Clashes.symm) committed⟩
    · rw [Table.ctids_delete]
      exact h.distinct
    · obtain ⟨v, hv, hctid, _⟩ := Table.of_mem_delete hv'
      exact hctid ▸ h.fresh v hv
  | @inserts tx row hphase _ free =>
    refine ⟨h.wf.insert, ?_, fun v hv => ?_, h.unique.insert (fun _ _ => Row.Clashes.symm) fun u hu hc => ?_⟩
    · rw [Table.insert, List.map_append, List.nodup_append_comm]
      refine List.nodup_cons.2 ⟨fun hmem => ?_, h.distinct⟩
      obtain ⟨u, hu, hctid⟩ := List.mem_map.1 hmem
      exact Nat.ne_of_lt (h.fresh u hu) hctid
    · rcases Table.mem_insert.1 hv with hv | rfl
      · exact Nat.lt_succ_of_lt (h.fresh v hv)
      · exact Nat.lt_succ_self _
    · obtain ⟨held, uncommitted⟩ := clashes_of_inserted free hu hc
      obtain ⟨own, own'⟩ := Tuple.own_of_not_held held
      have undrafted := sound.draftless (fun tx' hcommitting => by
        cases hphase.symm.trans hcommitting) u hu
      exact own'.resolve_left fun hmax => uncommitted ⟨own.resolve_right undrafted, hmax⟩
  | refuses => exact h.rollback
  | _ => exact h

theorem Next.leaves (h : Next now db i t db' phase') (wf : db.escrows.Wf) :
    Table.Leaves i db.nextCtid db.escrows db'.escrows := by
  cases h with
  | deletes => exact .delete fun v _ hv => (of_decide_eq_true hv).2
  | inserts => exact .insert
  | refuses => exact .rollback wf
  | _ => exact .refl

theorem Next.devices (h : Next now db i t db' phase') : db'.devices = db.devices := by
  cases h <;> rfl

theorem Next.nextCtid_le (h : Next now db i t db' phase') : db.nextCtid ≤ db'.nextCtid := by
  cases h with
  | inserts => exact Nat.le_succ _
  | _ => exact Nat.le_refl _

theorem Sound.ended (h : Sound db i t) (hphase : t.phase = .committing tx)
    (after : phase = .done tx.seen tx.marked.length ∨ phase = .refused .database) :
    Sound { db with escrows := db.escrows.commit i } i { t with phase } := by
  have untouched := Table.not_marked_commit (t := db.escrows) (x := i)
  obtain ⟨request, old⟩ := t
  cases hphase
  rcases after with rfl | rfl
  · constructor
    · exact nofun
    · exact h.fresh
    · exact nofun
    · exact nofun
    · exact nofun
    · intro u' hu' hseen
      obtain ⟨u, hu, hmax, rfl⟩ := Table.mem_commit.1 hu'
      refine absurd ((h.marked u hu).2 ?_) hmax
      have hseen : u.ctid ∈ tx.seen := by split at hseen <;> exact hseen
      exact (h.covers u hu hseen).resolve_left nofun
    · exact fun u hu => iff_of_false (untouched u hu).2 nofun
    · exact fun u hu hmin => absurd hmin (untouched u hu).1
    · exact fun row hrow => (Task.draft_ne_some (by nofun) row hrow).elim
  · exact .of_bare nofun rfl rfl rfl nofun untouched

/-- The table is in order, and every request knows what it has done to it. -/
structure Kept (s : State) : Prop where
  tidy : Tidy s.db
  within : ∀ u ∈ s.db.escrows, ∀ x, u.xmin = some x ∨ u.xmax = some x → x < s.tasks.length
  sound : ∀ i t, s.tasks[i]? = some t → Sound s.db i t

theorem empty_kept : Kept empty where
  tidy := ⟨nofun, List.nodup_nil, nofun, nofun⟩
  within := nofun
  sound := by simp [empty]

namespace Kept

theorem receive (h : Kept s) (request : Except ApiError Request) : Kept (s.receive request) := by
  cases request with
  | error => exact h
  | ok request =>
    refine ⟨h.tidy, fun u hu x hx => ?_, fun i t at_ => ?_⟩
    · exact Nat.lt_of_lt_of_le (h.within u hu x hx) (by simp [State.receive])
    · rcases Tasks.getElem?_concat_eq_some_iff.1 at_ with at_ | ⟨rfl, rfl⟩
      · exact h.sound i t at_
      · have untouched : ∀ u ∈ s.db.escrows, u.xmin ≠ some s.tasks.length ∧ u.xmax ≠ some s.tasks.length :=
          fun u hu => ⟨fun hmin => Nat.lt_irrefl _ (h.within u hu _ (.inl hmin)),
            fun hmax => Nat.lt_irrefl _ (h.within u hu _ (.inr hmax))⟩
        cases request with
        | rotate account =>
          refine .of_bare (fun account' haccount => ?_) rfl rfl rfl nofun untouched
          exact Option.some.inj haccount
        | _ => exact .of_bare nofun rfl rfl rfl nofun untouched

/-- A request does something to the table. -/
theorem moves (h : Kept s) (at_ : s.tasks[i]? = some t) (tidy : Tidy db)
    (left : Table.Leaves i s.db.nextCtid s.db.escrows db.escrows)
    (devices : db.devices = s.db.devices) (nextCtid : s.db.nextCtid ≤ db.nextCtid)
    (own : Sound db i { t with phase }) : Kept (s.advance i t db phase) := by
  have inRange : i < s.tasks.length := (List.getElem?_eq_some_iff.1 at_).1
  refine ⟨tidy, fun u' hu' x hx => ?_, fun j t' at_' => ?_⟩
  · change x < (s.tasks.set i { t with phase }).length
    rw [List.length_set]
    by_cases hxi : x = i
    · exact hxi ▸ inRange
    · rcases left.back u' hu' with ⟨_, hmin, hmax⟩ | ⟨u, hu, _, _, hsame⟩
      · rw [hmin, hmax] at hx
        rcases hx with hx | hx
        · exact absurd (Option.some.inj hx).symm hxi
        · cases hx
      · exact h.within u hu x (hx.imp (hsame x hxi).1.1 (hsame x hxi).2.1)
  · rcases (Tasks.getElem?_set_eq_some_iff at_).1 at_' with ⟨rfl, rfl⟩ | ⟨hne, at_'⟩
    · exact own
    · exact (h.sound j t' at_').leaves hne left (fun deviceId account => by simp [State.advance, devices])
        nextCtid

theorem step (h : Kept s) (hstep : s.step a = some s') : Kept s' := by
  cases step_cases hstep with
  | aside _ kept =>
    refine ⟨⟨h.tidy.wf, h.tidy.distinct, h.tidy.fresh, h.tidy.unique⟩, h.within, fun i t at_ => ?_⟩
    exact (h.sound i t at_).leaves (Nat.ne_of_lt (Nat.lt_succ_self i)) .refl kept (Nat.le_refl _)
  | receives => exact h.receive _
  | advances at_ hnext =>
    have hnext := next_spec hnext
    have own := h.sound _ _ at_
    exact h.moves at_ (h.tidy.next own hnext) (hnext.leaves h.tidy.wf) hnext.devices
      hnext.nextCtid_le (own.next h.tidy hnext)
  | commits at_ committing after =>
    have hmoves := h.moves at_ h.tidy.commit (.commit h.tidy.wf) rfl (Nat.le_refl _)
      ((h.sound _ _ at_).ended committing after)
    exact ⟨hmoves.tidy, hmoves.within, hmoves.sound⟩
  | fails at_ =>
    exact h.moves at_ h.tidy.rollback (.rollback h.tidy.wf) rfl (Nat.le_refl _)
      (.of_bare nofun rfl rfl rfl nofun Table.not_marked_rollback)

end Kept

/-! ## The factors set, and what becomes of them -/

theorem Next.mem_visible (h : Next now db i t db' phase') :
    v ∈ db'.escrows.visible ↔ v ∈ db.escrows.visible := by
  cases h with
  | deletes => exact Table.mem_visible_delete
  | inserts => exact (Table.visible_insert (t := db.escrows)) ▸ Iff.rfl
  | refuses => exact Table.mem_visible_rollback
  | _ => exact Iff.rfl

/-- A request that has removed a factor does so for its account. -/
def RemovedBy (s : State) (e : Entry) : Prop :=
  ∃ (i : Nat) (t : Task), (i, e.ctid) ∈ s.removed ∧ s.tasks[i]? = some t ∧
    t.request.ActsFor s.db.devices e.row.account ∧ t.request.removes e.row.account e.row

/-- A factor is set by a device of its account. -/
def SetBy (s : State) (e : Entry) : Prop :=
  ∃ t deviceId, s.tasks[e.task]? = some t ∧ s.db.devices deviceId = some e.row.account ∧
    t.request = .set deviceId e.row.kind e.row.lookup e.row.params e.row.sealed

structure History (s : State) : Prop where
  entered : ∀ c row, (c, row) ∈ s.db.escrows.visible → ∃ e ∈ s.entries, e.ctid = c ∧ e.row = row
  place : ∀ e ∈ s.entries, ∀ u ∈ s.db.escrows, u.ctid = e.ctid → u.xmin = none ∧ u.row = e.row
  fresh : ∀ e ∈ s.entries, e.ctid < s.db.nextCtid
  own : ∀ e ∈ s.entries, SetBy s e
  fate : ∀ e ∈ s.entries, (e.ctid, e.row) ∈ s.db.escrows.visible ∨ RemovedBy s e
  superseded : s.entries.Pairwise fun e e' =>
    e.row.Clashes e'.row → e.ctid ∉ s.db.escrows.map (·.ctid)
  posted : ∀ (i : Nat) t seen removed, s.tasks[i]? = some t → t.phase = .done seen removed →
    ∀ deviceId kind lookup params sealed, t.request = .set deviceId kind lookup params sealed →
      ∃ e ∈ s.entries, e.task = i
  answers : ∀ (i : Nat) lookup answer, s.tasks[i]? = some ⟨.claim lookup, .answered answer⟩ →
    ∃ e ∈ s.entries, e.row.lookup = lookup ∧ answer.Serves e.row

theorem empty_history : History empty := by
  constructor <;> simp [empty, Table.visible]

/-- Requests stay what they are. -/
structure Onward (s s' : State) : Prop where
  devices : ∀ deviceId account, s.db.devices deviceId = some account →
    s'.db.devices deviceId = some account
  requests : ∀ (i : Nat) t, s.tasks[i]? = some t → ∃ t', s'.tasks[i]? = some t' ∧ t'.request = t.request
  removed : s.removed ⊆ s'.removed

theorem SetBy.onward (h : SetBy s e) (onward : Onward s s') : SetBy s' e := by
  obtain ⟨t, deviceId, at_, hdevice, hrequest⟩ := h
  obtain ⟨t', at_', same⟩ := onward.requests _ _ at_
  exact ⟨t', deviceId, at_', onward.devices _ _ hdevice, same ▸ hrequest⟩

theorem RemovedBy.onward (h : RemovedBy s e) (onward : Onward s s') : RemovedBy s' e := by
  obtain ⟨i, t, hremoved, at_, acts, hremoves⟩ := h
  obtain ⟨t', at_', same⟩ := onward.requests _ _ at_
  exact ⟨i, t', onward.removed hremoved, at_', (same ▸ acts).mono onward.devices, same ▸ hremoves⟩

theorem requests_set {tasks : List Task} {phase : Phase} {i j : Nat} (at_ : tasks[i]? = some t)
    (hget : tasks[j]? = some t') :
    ∃ t'', (tasks.set i { t with phase })[j]? = some t'' ∧ t''.request = t'.request := by
  by_cases hij : j = i
  · subst hij
    cases at_.symm.trans hget
    exact ⟨_, (Tasks.getElem?_set_eq_some_iff at_).2 (.inl ⟨rfl, rfl⟩), rfl⟩
  · exact ⟨t', (Tasks.getElem?_set_eq_some_iff at_).2 (.inr ⟨hij, hget⟩), rfl⟩

theorem onward_of_step (hstep : State.step s a = some s') : Onward s s' := by
  cases step_cases hstep with
  | aside _ kept => exact ⟨kept, fun i t at_ => ⟨t, at_, rfl⟩, List.Subset.refl _⟩
  | @receives request =>
    cases request with
    | error => exact ⟨fun _ _ h => h, fun i t at_ => ⟨t, at_, rfl⟩, List.Subset.refl _⟩
    | ok request =>
      refine ⟨fun _ _ h => h, fun i t at_ => ⟨t, ?_, rfl⟩, List.Subset.refl _⟩
      exact Tasks.getElem?_concat_eq_some_iff.2 (.inl at_)
  | advances at_ hnext =>
    have devices := (next_spec hnext).devices
    refine ⟨fun deviceId account => by simp [State.advance, devices], ?_, List.Subset.refl _⟩
    exact fun j t' hget => requests_set at_ hget
  | commits at_ =>
    exact ⟨fun _ _ h => h, fun j t' hget => requests_set at_ hget, List.subset_append_left _ _⟩
  | fails at_ =>
    exact ⟨fun _ _ h => h, fun j t' hget => requests_set at_ hget, List.Subset.refl _⟩

namespace History

/-- No factor is set nor removed, and who answers does so from the rows everybody sees. -/
theorem quiet (h : History s) (kept' : Kept s') (onward : Onward s s')
    (entries : s'.entries = s.entries)
    (visible : ∀ v, v ∈ s'.db.escrows.visible ↔ v ∈ s.db.escrows.visible)
    (nextCtid : s.db.nextCtid ≤ s'.db.nextCtid)
    (left : ∀ c < s.db.nextCtid, c ∉ s.db.escrows.map (·.ctid) → c ∉ s'.db.escrows.map (·.ctid))
    (posted : ∀ (i : Nat) t seen removed, s'.tasks[i]? = some t → t.phase = .done seen removed →
      s.tasks[i]? = some t)
    (answers : ∀ (i : Nat) lookup answer, s'.tasks[i]? = some ⟨.claim lookup, .answered answer⟩ →
      s.tasks[i]? = some ⟨.claim lookup, .answered answer⟩ ∨
        ∃ row ∈ s.db.escrows.rows, row.lookup = lookup ∧ answer.Serves row) : History s' := by
  constructor
  · intro c row hrow
    rw [entries]
    exact h.entered c row ((visible _).1 hrow)
  · intro e he u' hu' hctid
    rw [entries] at he
    by_cases hin : e.ctid ∈ s.db.escrows.map (·.ctid)
    · obtain ⟨u, hu, hctid'⟩ := List.mem_map.1 hin
      obtain ⟨hmin, hrow⟩ := h.place e he u hu hctid'
      obtain ⟨v, hv, hvmin, hvctid, hvrow⟩ :=
        Table.mem_visible.1 ((visible _).2 (Table.mem_visible.2 ⟨u, hu, hmin, hctid', hrow⟩))
      cases Table.eq_of_ctid kept'.tidy.distinct hv hu' (hvctid.trans hctid.symm)
      exact ⟨hvmin, hvrow⟩
    · exact absurd (hctid ▸ List.mem_map_of_mem hu') (left _ (h.fresh e he) hin)
  · intro e he
    rw [entries] at he
    exact Nat.lt_of_lt_of_le (h.fresh e he) nextCtid
  · intro e he
    rw [entries] at he
    exact (h.own e he).onward onward
  · intro e he
    rw [entries] at he
    exact (h.fate e he).imp (visible _).2 fun hremoved => hremoved.onward onward
  · rw [entries]
    exact h.superseded.imp_of_mem fun he _ hsuperseded clashes =>
      left _ (h.fresh _ he) (hsuperseded clashes)
  · intro i t seen removed at_ hphase
    rw [entries]
    exact h.posted i t seen removed (posted i t seen removed at_ hphase) hphase
  · intro i lookup answer at_
    rw [entries]
    rcases answers i lookup answer at_ with at_ | ⟨row, hrow, hlookup, hserves⟩
    · exact h.answers i lookup answer at_
    · rw [Table.rows_eq_visible] at hrow
      obtain ⟨⟨c, row⟩, hvisible, rfl⟩ := List.mem_map.1 hrow
      obtain ⟨e, he, _, rfl⟩ := h.entered c row hvisible
      exact ⟨e, he, hlookup, hserves⟩

theorem receive (h : History s) (kept : Kept s) (request : Except ApiError Request) :
    History (s.receive request) := by
  cases request with
  | error => exact h
  | ok request =>
    refine h.quiet (kept.receive (.ok request)) ?_ rfl (fun _ => Iff.rfl) (Nat.le_refl _)
      (fun _ _ hc => hc) (fun i t seen removed at_ hphase => ?_) fun i lookup answer at_ => ?_
    · exact ⟨fun _ _ h => h, fun i t at_ => ⟨t, Tasks.getElem?_concat_eq_some_iff.2 (.inl at_), rfl⟩,
        List.Subset.refl _⟩
    · rcases Tasks.getElem?_concat_eq_some_iff.1 at_ with at_ | ⟨_, rfl⟩
      · exact at_
      · cases request <;> cases hphase
    · rcases Tasks.getElem?_concat_eq_some_iff.1 at_ with at_ | ⟨_, hnew⟩
      · exact .inl at_
      · cases request <;> cases hnew

/-- A row a transaction deletes is gone by its request. -/
theorem removedBy (kept : Kept s) (h : History s) (at_ : s.tasks[i]? = some t)
    (hphase : t.phase = .committing tx) (phase : Phase) (he : e ∈ s.entries) (hu : u ∈ s.db.escrows)
    (hctid : u.ctid = e.ctid) (hmax : u.xmax = some i) : RemovedBy (s.commit i t phase) e := by
  have sound := kept.sound i t at_
  have haccount : t.phase.account? = some tx.account := by rw [hphase]; rfl
  have hmarked := (sound.marked u hu).1 hmax
  have hremoves := sound.sees _ haccount u hu (sound.saw hmarked)
  have hrow := (h.place e he u hu hctid).2
  have same : e.row.account = tx.account := hrow ▸ Request.account_of_removes hremoves
  refine ⟨i, _, List.mem_append_right _ (List.mem_map.2 ⟨u.ctid, hmarked, by rw [hctid]⟩),
    (Tasks.getElem?_set_eq_some_iff at_).2 (.inl ⟨rfl, rfl⟩), ?_, ?_⟩
  · rw [same]
    exact sound.acts _ haccount
  · rw [same, ← hrow]
    exact hremoves

theorem commit (h : History s) (kept : Kept s) (onward : Onward s (s.commit i t phase))
    (at_ : s.tasks[i]? = some t) (hphase : t.phase = .committing tx)
    (after : phase = .done tx.seen tx.marked.length ∨ phase = .refused .database) :
    History (s.commit i t phase) := by
  have sound := kept.sound i t at_
  have haccount : t.phase.account? = some tx.account := by rw [hphase]; rfl
  have mem_drafts : ∀ e, e ∈ s.drafts i → ∃ u ∈ s.db.escrows, u.xmin = some i ∧
      e = ⟨i, u.ctid, u.row⟩ := by
    intro e he
    obtain ⟨u, hu, rfl⟩ := List.mem_map.1 he
    obtain ⟨hu, hmin⟩ := List.mem_filter.1 hu
    exact ⟨u, hu, of_decide_eq_true hmin, rfl⟩
  have drafted : ∀ u ∈ s.db.escrows, u.xmin = some i → (⟨i, u.ctid, u.row⟩ : Entry) ∈ s.drafts i :=
    fun u hu hmin => List.mem_map.2 ⟨u, List.mem_filter.2 ⟨hu, decide_eq_true hmin⟩, rfl⟩
  -- Of an entry there was, a row that stays was there for everybody.
  have stays : ∀ e ∈ s.entries, ∀ c, c ∈ (s.db.escrows.commit i).map (·.ctid) → c = e.ctid →
      ∃ u ∈ s.db.escrows, u.ctid = e.ctid ∧ u.xmin = none ∧ u.xmax ≠ some i ∧ u.row = e.row := by
    intro e he c hc hctid
    obtain ⟨u', hu', rfl⟩ := List.mem_map.1 hc
    obtain ⟨u, hu, hmax, rfl⟩ := Table.mem_commit.1 hu'
    have hctid : u.ctid = e.ctid := by split at hctid <;> exact hctid
    obtain ⟨hmin, hrow⟩ := h.place e he u hu hctid
    exact ⟨u, hu, hctid, hmin, hmax, hrow⟩
  constructor
  · intro c row hrow
    obtain ⟨u, hu, hmax, hmin, rfl, rfl⟩ := Table.mem_visible_commit.1 hrow
    rcases hmin with hmin | hmin
    · obtain ⟨e, he, heq⟩ := h.entered u.ctid u.row (Table.mem_visible.2 ⟨u, hu, hmin, rfl, rfl⟩)
      exact ⟨e, List.mem_append_left _ he, heq⟩
    · exact ⟨_, List.mem_append_right _ (drafted u hu hmin), rfl, rfl⟩
  · intro e he u' hu' hctid
    obtain ⟨u, hu, hmax, rfl⟩ := Table.mem_commit.1 hu'
    rcases List.mem_append.1 he with he | he
    · have hctid : u.ctid = e.ctid := by split at hctid <;> exact hctid
      obtain ⟨hmin, hrow⟩ := h.place e he u hu hctid
      rw [if_neg (by simp [hmin])]
      exact ⟨hmin, hrow⟩
    · obtain ⟨v, hv, hmin, rfl⟩ := mem_drafts e he
      have hctid : u.ctid = v.ctid := by split at hctid <;> exact hctid
      cases Table.eq_of_ctid kept.tidy.distinct hu hv hctid
      rw [if_pos hmin]
      exact ⟨rfl, rfl⟩
  · intro e he
    rcases List.mem_append.1 he with he | he
    · exact h.fresh e he
    · obtain ⟨u, hu, _, rfl⟩ := mem_drafts e he
      exact kept.tidy.fresh u hu
  · intro e he
    rcases List.mem_append.1 he with he | he
    · exact (h.own e he).onward onward
    · obtain ⟨u, hu, hmin, rfl⟩ := mem_drafts e he
      obtain ⟨deviceId, tx', hcommitting, haccount', hrequest⟩ :=
        Task.draft_eq_some (sound.drafts u hu hmin)
      have acts := sound.acts u.row.account (by rw [hcommitting, haccount']; rfl)
      rw [hrequest] at acts
      exact ⟨_, deviceId, (Tasks.getElem?_set_eq_some_iff at_).2 (.inl ⟨rfl, rfl⟩), acts, hrequest⟩
  · intro e he
    rcases List.mem_append.1 he with he | he
    · rcases h.fate e he with hvisible | hremoved
      · obtain ⟨u, hu, hmin, hctid, hrow⟩ := Table.mem_visible.1 hvisible
        by_cases hmax : u.xmax = some i
        · exact .inr (removedBy kept h at_ hphase phase he hu hctid hmax)
        · exact .inl (Table.mem_visible_commit.2 ⟨u, hu, hmax, .inl hmin, hctid, hrow⟩)
      · exact .inr (hremoved.onward onward)
    · obtain ⟨u, hu, hmin, rfl⟩ := mem_drafts e he
      have hmax : u.xmax ≠ some i := by simp [kept.tidy.wf u hu (by simp [hmin])]
      exact .inl (Table.mem_visible_commit.2 ⟨u, hu, hmax, .inr hmin, rfl, rfl⟩)
  · refine List.pairwise_append.2 ⟨?_, ?_, ?_⟩
    · refine h.superseded.imp_of_mem fun {e _} he _ hsuperseded clashes hin => ?_
      obtain ⟨u, hu, hctid, _⟩ := stays e he _ hin rfl
      exact hsuperseded clashes (hctid ▸ List.mem_map_of_mem hu)
    · -- It has inserted one row at most.
      refine List.pairwise_map.2 ?_
      have apart := (List.pairwise_map.1 (List.nodup_iff_pairwise_ne.1 kept.tidy.distinct)).filter
        (fun u => decide (u.xmin = some i))
      refine apart.imp_of_mem fun {u v} hu hv hne clashes => ?_
      obtain ⟨hu, hmin⟩ := List.mem_filter.1 hu
      obtain ⟨hv, hmin'⟩ := List.mem_filter.1 hv
      exact absurd clashes (kept.tidy.unique.not_same_of_drafts kept.tidy.wf hu hv hne
        (of_decide_eq_true hmin) (of_decide_eq_true hmin'))
    · intro e he e' he' clashes hin
      obtain ⟨v, hv, hmin', rfl⟩ := mem_drafts e' he'
      obtain ⟨u, hu, hctid, hmin, hmax, hrow⟩ := stays e he _ hin rfl
      have hne : u.ctid ≠ v.ctid := by
        intro heq
        cases Table.eq_of_ctid kept.tidy.distinct hu hv heq
        cases hmin.symm.trans hmin'
      obtain ⟨x, ⟨hx, hx'⟩ | ⟨_, hx'⟩⟩ := kept.tidy.unique u hu v hv hne (hrow ▸ clashes)
      · cases hmin'.symm.trans hx'
        exact hmax hx
      · cases hmin.symm.trans hx'
  · intro j t' seen removed at_' hdone deviceId kind lookup params sealed hrequest
    rcases (Tasks.getElem?_set_eq_some_iff at_).1 at_' with ⟨rfl, rfl⟩ | ⟨_, at_'⟩
    · obtain ⟨request, old⟩ := t
      cases hphase
      cases hrequest
      obtain ⟨u, hu, hmin, _⟩ := sound.drafted _ rfl
      exact ⟨_, List.mem_append_right _ (drafted u hu hmin), rfl⟩
    · obtain ⟨e, he, htask⟩ := h.posted j t' seen removed at_' hdone _ _ _ _ _ hrequest
      exact ⟨e, List.mem_append_left _ he, htask⟩
  · intro j lookup answer at_'
    rcases (Tasks.getElem?_set_eq_some_iff at_).1 at_' with ⟨rfl, hnew⟩ | ⟨_, at_'⟩
    · rcases after with rfl | rfl <;> cases congrArg Task.phase hnew
    · obtain ⟨e, he, hserves⟩ := h.answers j lookup answer at_'
      exact ⟨e, List.mem_append_left _ he, hserves⟩

theorem step (h : History s) (kept : Kept s) (hstep : s.step a = some s') : History s' := by
  have kept' := kept.step hstep
  have onward := onward_of_step hstep
  cases step_cases hstep with
  | aside =>
    exact h.quiet kept' onward rfl (fun _ => Iff.rfl) (Nat.le_refl _) (fun _ _ hc => hc)
      (fun _ _ _ _ at_ _ => at_) fun _ _ _ at_ => .inl at_
  | receives => exact h.receive kept _
  | @advances i t db phase at_ next =>
    have hnext := next_spec next
    refine h.quiet kept' onward rfl (fun _ => hnext.mem_visible) hnext.nextCtid_le
      (fun c hlt hc => (hnext.leaves kept.tidy.wf).not_mem hc (Nat.ne_of_lt hlt)) ?_ ?_
    · intro j t' seen removed at_' hphase
      rcases (Tasks.getElem?_set_eq_some_iff at_).1 at_' with ⟨_, rfl⟩ | ⟨_, at_'⟩
      · cases hphase
        cases hnext with
        | reads _ _ _ _ unended => exact absurd rfl (unended _ _)
      · exact at_'
    · intro j lookup answer at_'
      rcases (Tasks.getElem?_set_eq_some_iff at_).1 at_' with ⟨_, hnew⟩ | ⟨_, at_'⟩
      · obtain ⟨request, old⟩ := t
        cases hnew
        cases hnext with
        | reads _ _ _ _ _ answers =>
          obtain ⟨row, hrow, hclaim, hserves⟩ := answers _ rfl
          cases hclaim
          exact .inr ⟨row, hrow, rfl, hserves⟩
      · exact .inl at_'
  | commits at_ committing after => exact h.commit kept onward at_ committing after
  | fails at_ =>
    refine h.quiet kept' onward rfl (fun _ => Table.mem_visible_rollback) (Nat.le_refl _)
      (fun c hlt hc => (Table.Leaves.rollback kept.tidy.wf).not_mem hc (Nat.ne_of_lt hlt)) ?_ ?_
    · intro j t' seen removed at_' hphase
      rcases (Tasks.getElem?_set_eq_some_iff at_).1 at_' with ⟨_, rfl⟩ | ⟨_, at_'⟩
      · cases hphase
      · exact at_'
    · intro j lookup answer at_'
      rcases (Tasks.getElem?_set_eq_some_iff at_).1 at_' with ⟨_, hnew⟩ | ⟨_, at_'⟩
      · cases congrArg Task.phase hnew
      · exact .inl at_'

end History

/-! ## What the escrows promise -/

structure Escrowed (s : State) : Prop where
  /-- There is one escrow of a lookup, and one of each kind of an account. -/
  unique : s.db.escrows.rows.Pairwise fun row row' => ¬ row.Clashes row'
  /-- Each was set by a device of its account, and nothing set since replaces it. -/
  last : ∀ row ∈ s.db.escrows.rows, ∃ before e after, s.entries = before ++ e :: after ∧
    e.row = row ∧ SetBy s e ∧ ∀ e' ∈ after, ¬ row.Clashes e'.row
  /-- A factor set is there until a request of its account removes it. -/
  fate : ∀ e ∈ s.entries, e.row ∈ s.db.escrows.rows ∨ RemovedBy s e
  /-- Who is told that a factor is set has set it. -/
  posted : ∀ (i : Nat) t seen removed, s.tasks[i]? = some t → t.phase = .done seen removed →
    ∀ deviceId kind lookup params sealed, t.request = .set deviceId kind lookup params sealed →
      ∃ e ∈ s.entries, e.task = i ∧ SetBy s e
  /-- A claim is answered with a factor set under its lookup. -/
  answers : ∀ (i : Nat) lookup answer, s.tasks[i]? = some ⟨.claim lookup, .answered answer⟩ →
    ∃ e ∈ s.entries, e.row.lookup = lookup ∧ answer.Serves e.row

theorem kept_and_history (reach : Reach State.step (fun _ _ => True) empty s) :
    Kept s ∧ History s := by
  induction reach with
  | refl => exact ⟨empty_kept, empty_history⟩
  | tail _ _ hstep ih => exact ⟨ih.1.step hstep, ih.2.step ih.1 hstep⟩

/-- In every run, however the statements of the requests fall between each other. -/
theorem escrowed (reach : Reach State.step (fun _ _ => True) empty s) : Escrowed s := by
  obtain ⟨kept, history⟩ := kept_and_history reach
  refine ⟨?_, fun row hrow => ?_, fun e he => ?_, ?_, history.answers⟩
  · refine List.pairwise_map.2 ?_
    have apart := (List.pairwise_map.1 (List.nodup_iff_pairwise_ne.1 kept.tidy.distinct)).filter
      (fun u => decide (u.xmin = none))
    refine apart.imp_of_mem fun {u v} hu hv hne => ?_
    obtain ⟨hu, hmin⟩ := List.mem_filter.1 hu
    obtain ⟨hv, hmin'⟩ := List.mem_filter.1 hv
    exact kept.tidy.unique.not_same_of_visible hu hv hne (of_decide_eq_true hmin)
      (of_decide_eq_true hmin')
  · rw [Table.rows_eq_visible] at hrow
    obtain ⟨⟨c, row⟩, hvisible, rfl⟩ := List.mem_map.1 hrow
    obtain ⟨e, he, hctid, rfl⟩ := history.entered c row hvisible
    obtain ⟨before, after, hentries⟩ := List.append_of_mem he
    refine ⟨before, e, after, hentries, rfl, history.own e he, fun e' he' clashes => ?_⟩
    have superseded := history.superseded
    rw [hentries, List.pairwise_append, List.pairwise_cons] at superseded
    obtain ⟨u, hu, _, hctid', _⟩ := Table.mem_visible.1 hvisible
    refine superseded.2.1.1 e' he' clashes ?_
    rw [hctid, ← hctid']
    exact List.mem_map_of_mem hu
  · refine (history.fate e he).imp_left fun hvisible => ?_
    rw [Table.rows_eq_visible]
    exact List.mem_map.2 ⟨_, hvisible, rfl⟩
  · intro i t seen removed at_ hphase deviceId kind lookup params sealed hrequest
    obtain ⟨e, he, htask⟩ := history.posted i t seen removed at_ hphase _ _ _ _ _ hrequest
    exact ⟨e, he, htask, history.own e he⟩

/-- A row that is there is the one its lookup finds. -/
theorem Escrowed.escrow?_of_mem (h : Escrowed s) (hrow : row ∈ s.db.escrows.rows) :
    s.db.escrow? row.lookup = some row := by
  cases hfound : s.db.escrow? row.lookup with
  | none => simpa using List.find?_eq_none.1 hfound row hrow
  | some row' =>
    have hmem := List.mem_of_find?_eq_some hfound
    have hlookup : row'.lookup = row.lookup := by simpa using List.find?_some hfound
    by_contra hne
    have : Std.Symm fun row row' : Row => ¬ row.Clashes row' :=
      ⟨fun _ _ apart clashes => apart clashes.symm⟩
    exact h.unique.forall hmem hrow (fun heq => hne (congrArg some heq)) (.inl hlookup)

/-- The body that sets a password of this byte. -/
def password (byte : UInt8) : Option (String × String × String × String) :=
  some ("password", Base64.encode (List.replicate 32 byte), Base64.encode (List.replicate 13 byte),
    Base64.encode (List.replicate 92 byte))

/-- A password is set, and another in its place while it is being claimed. -/
def changed : List Action :=
  [.register "phone" "ada", .set "phone" (password 1)] ++ List.replicate 5 (.statement 0) ++
    [.commit 0, .set "phone" (password 2), .statement 1, .statement 1, .claim (Base64.encode (List.replicate 32 1))]

def changedSince : List Action :=
  List.replicate 4 (.statement 1) ++ [.statement 2, .commit 1]

theorem escrowed_changed : ∃ s, Reach State.step (fun _ _ => True) empty s ∧
    s.entries.map (·.task) = [0, 1] ∧ s.removed = [(1, 0)] ∧ s.db.escrows.rows.length = 1 ∧
      Escrowed s := by
  have executed : (run State.step empty (changed ++ changedSince)).map
      (fun s => (s.entries.map (·.task), s.removed, s.db.escrows.rows.length)) =
      some ([0, 1], [(1, 0)], 1) := by decide +kernel
  obtain ⟨s, h, heq⟩ := Option.map_eq_some_iff.1 executed
  obtain ⟨hentries, heq⟩ := Prod.mk.inj heq
  obtain ⟨hremoved, hrows⟩ := Prod.mk.inj heq
  exact ⟨s, reach_of_run h, hentries, hremoved, hrows, escrowed (reach_of_run h)⟩

/-! ## What is forgotten -/

/-- A row is removed, and no claim that has yet to look at `s₀` is served it. -/
structure Forgotten (c : Nat) (s₀ s : State) : Prop where
  gone : c ∉ s.db.escrows.map (·.ctid)
  answers : ∀ (i : Nat) lookup answer, s.tasks[i]? = some ⟨.claim lookup, .answered answer⟩ →
    s₀.tasks[i]? = some ⟨.claim lookup, .answered answer⟩ ∨
      ∃ e ∈ s.entries, e.ctid ≠ c ∧ e.row.lookup = lookup ∧ answer.Serves e.row

theorem not_mem_of_step (kept : Kept s) (hstep : s.step a = some s') (hlt : c < s.db.nextCtid)
    (hc : c ∉ s.db.escrows.map (·.ctid)) :
    c < s'.db.nextCtid ∧ c ∉ s'.db.escrows.map (·.ctid) := by
  cases step_cases hstep with
  | aside => exact ⟨hlt, hc⟩
  | @receives request => cases request <;> exact ⟨hlt, hc⟩
  | advances at_ hnext =>
    have hnext := next_spec hnext
    exact ⟨Nat.lt_of_lt_of_le hlt hnext.nextCtid_le,
      (hnext.leaves kept.tidy.wf).not_mem hc (Nat.ne_of_lt hlt)⟩
  | commits => exact ⟨hlt, fun hmem => hc (Table.ctids_commit.subset hmem)⟩
  | fails => exact ⟨hlt, fun hmem => hc (Table.ctids_rollback.subset hmem)⟩

theorem Forgotten.step (h : Forgotten c s₀ s) (kept : Kept s) (history : History s)
    (hlt : c < s.db.nextCtid) (hstep : s.step a = some s') : Forgotten c s₀ s' := by
  refine ⟨(not_mem_of_step kept hstep hlt h.gone).2, ?_⟩
  cases step_cases hstep with
  | aside => exact h.answers
  | @receives request =>
    cases request with
    | error => exact h.answers
    | ok request =>
      intro i lookup answer at_
      rcases Tasks.getElem?_concat_eq_some_iff.1 at_ with at_ | ⟨_, hnew⟩
      · exact h.answers i lookup answer at_
      · cases request <;> cases hnew
  | @advances i t db phase at_ next =>
    intro j lookup answer at_'
    rcases (Tasks.getElem?_set_eq_some_iff at_).1 at_' with ⟨_, hnew⟩ | ⟨_, at_'⟩
    · obtain ⟨request, old⟩ := t
      cases hnew
      cases next_spec next with
      | reads _ _ _ _ _ answers =>
        obtain ⟨row, hrow, hclaim, hserves⟩ := answers _ rfl
        cases hclaim
        rw [Table.rows_eq_visible] at hrow
        obtain ⟨⟨c', row⟩, hvisible, rfl⟩ := List.mem_map.1 hrow
        obtain ⟨e, he, hctid, rfl⟩ := history.entered c' row hvisible
        refine .inr ⟨e, he, fun heq => h.gone ?_, rfl, hserves⟩
        obtain ⟨u, hu, _, hctid', _⟩ := Table.mem_visible.1 hvisible
        rw [← heq, hctid, ← hctid']
        exact List.mem_map_of_mem hu
    · exact h.answers j lookup answer at_'
  | commits at_ _ after =>
    intro j lookup answer at_'
    rcases (Tasks.getElem?_set_eq_some_iff at_).1 at_' with ⟨rfl, hnew⟩ | ⟨_, at_'⟩
    · rcases after with rfl | rfl <;> cases congrArg Task.phase hnew
    · refine (h.answers j lookup answer at_').imp_right fun ⟨e, he, hserved⟩ => ?_
      exact ⟨e, List.mem_append_left _ he, hserved⟩
  | fails at_ =>
    intro j lookup answer at_'
    rcases (Tasks.getElem?_set_eq_some_iff at_).1 at_' with ⟨rfl, hnew⟩ | ⟨_, at_'⟩
    · cases congrArg Task.phase hnew
    · exact h.answers j lookup answer at_'

/-- A row everybody sees as a deletion of it starts, until its request ends. -/
structure Watched (i : Nat) (request : Request) (account : String) (began c : Nat) (row : Row)
    (s : State) : Prop where
  fresh : c < s.db.nextCtid
  here : (c, row) ∈ s.db.escrows.visible ∨ c ∉ s.db.escrows.map (·.ctid)
  standing : ∃ phase, s.tasks[i]? = some ⟨request, phase⟩ ∧ (c ∉ s.db.escrows.map (·.ctid) ∨
    phase = .selecting account began ∨ c ∈ phase.seen ∨ ∃ error, phase = .refused error)

theorem Next.seen (h : Next now db i t db' phase') (hn : n ∈ t.phase.seen) :
    n ∈ phase'.seen ∨ ∃ error, phase' = .refused error := by
  obtain ⟨request, phase⟩ := t
  cases h with
  | reads _ unseen =>
    rw [unseen] at hn
    cases hn
  | refuses => exact .inr ⟨_, rfl⟩
  | authorizes hphase | begins hphase | selects hphase =>
    cases hphase
    cases hn
  | deletes hphase | skips hphase | goes hphase | ends hphase | inserts hphase =>
    cases hphase
    exact .inl hn

namespace Watched

theorem here_of_commit (tidy : Tidy db)
    (here : (c, row) ∈ db.escrows.visible ∨ c ∉ db.escrows.map (·.ctid)) :
    (c, row) ∈ (db.escrows.commit x).visible ∨ c ∉ (db.escrows.commit x).map (·.ctid) := by
  rcases here with hvisible | hc
  · obtain ⟨u, hu, hmin, hctid, hrow⟩ := Table.mem_visible.1 hvisible
    by_cases hmax : u.xmax = some x
    · refine .inr fun hmem => ?_
      obtain ⟨v', hv', hctid'⟩ := List.mem_map.1 hmem
      obtain ⟨v, hv, hmax', rfl⟩ := Table.mem_commit.1 hv'
      have hctid' : v.ctid = c := by split at hctid' <;> exact hctid'
      cases Table.eq_of_ctid tidy.distinct hu hv (hctid.trans hctid'.symm)
      exact hmax' hmax
    · exact .inl (Table.mem_visible_commit.2 ⟨u, hu, hmax, .inl hmin, hctid, hrow⟩)
  · exact .inr fun hmem => hc (Table.ctids_commit.subset hmem)

theorem step {request : Request} (h : Watched i request account began c row s)
    (hremoves : request.removes account row) (kept : Kept s) (hstep : s.step a = some s') :
    Watched i request account began c row s' := by
  have stays : c ∉ s.db.escrows.map (·.ctid) → c ∉ s'.db.escrows.map (·.ctid) :=
    fun hc => (not_mem_of_step kept hstep h.fresh hc).2
  obtain ⟨phase, hi, hphase⟩ := h.standing
  cases step_cases hstep with
  | aside => exact ⟨h.fresh, h.here, h.standing⟩
  | @receives request' =>
    cases request' with
    | error => exact h
    | ok request' =>
      exact ⟨h.fresh, h.here, phase, Tasks.getElem?_concat_eq_some_iff.2 (.inl hi), hphase⟩
  | @advances j t db phase' at_ next =>
    have hnext := next_spec next
    refine ⟨Nat.lt_of_lt_of_le h.fresh hnext.nextCtid_le,
      h.here.imp hnext.mem_visible.2 stays, ?_⟩
    by_cases hij : i = j
    · subst hij
      cases hi.symm.trans at_
      refine ⟨phase', (Tasks.getElem?_set_eq_some_iff at_).2 (.inl ⟨rfl, rfl⟩), ?_⟩
      rcases hphase with hc | rfl | hseen | ⟨error, rfl⟩
      · exact .inl (stays hc)
      · rcases h.here with hvisible | hc
        · cases hnext with
          | reads before => cases before
          | @selects account' began' seen hselecting saw =>
            obtain ⟨u, hu, hmin, hctid, rfl⟩ := Table.mem_visible.1 hvisible
            cases hselecting
            exact .inr (.inr (.inl ((saw c).2 ⟨u, hu, hmin, hremoves, hctid⟩)))
          | authorizes h | begins h | deletes h | skips h | goes h | ends h | inserts h | refuses h =>
            cases h
        · exact .inl (stays hc)
      · exact .inr (.inr (hnext.seen hseen))
      · cases next
    · exact ⟨phase, (Tasks.getElem?_set_eq_some_iff at_).2 (.inr ⟨hij, hi⟩), hphase.imp_left stays⟩
  | @commits j t phase' _ at_ committing after =>
    refine ⟨h.fresh, here_of_commit kept.tidy h.here, ?_⟩
    by_cases hij : i = j
    · subst hij
      cases hi.symm.trans at_
      refine ⟨phase', (Tasks.getElem?_set_eq_some_iff at_).2 (.inl ⟨rfl, rfl⟩), ?_⟩
      cases committing
      rcases hphase with hc | hselecting | hseen | ⟨error, hrefused⟩
      · exact .inl (stays hc)
      · cases hselecting
      · rcases after with rfl | rfl
        · exact .inr (.inr (.inl hseen))
        · exact .inr (.inr (.inr ⟨_, rfl⟩))
      · cases hrefused
    · exact ⟨phase, (Tasks.getElem?_set_eq_some_iff at_).2 (.inr ⟨hij, hi⟩), hphase.imp_left stays⟩
  | @fails j t at_ =>
    refine ⟨h.fresh, h.here.imp Table.mem_visible_rollback.2 stays, ?_⟩
    by_cases hij : i = j
    · subst hij
      cases hi.symm.trans at_
      exact ⟨_, (Tasks.getElem?_set_eq_some_iff at_).2 (.inl ⟨rfl, rfl⟩), .inr (.inr (.inr ⟨_, rfl⟩))⟩
    · exact ⟨phase, (Tasks.getElem?_set_eq_some_iff at_).2 (.inr ⟨hij, hi⟩), hphase.imp_left stays⟩

theorem reach {request : Request} {i : Nat} (start : Reach State.step (fun _ _ => True) empty s)
    (at_ : s.tasks[i]? = some ⟨request, .selecting account began⟩)
    (there : (c, row) ∈ s.db.escrows.visible) (hremoves : request.removes account row)
    (later : Reach State.step (fun _ _ => True) s s') :
    Watched i request account began c row s' := by
  induction later with
  | refl =>
    obtain ⟨u, hu, _, rfl, _⟩ := Table.mem_visible.1 there
    exact ⟨(kept_and_history start).1.tidy.fresh u hu, .inl there, _, at_, .inr (.inl rfl)⟩
  | tail later _ hstep ih => exact ih.step hremoves (kept_and_history (start.trans later)).1 hstep

end Watched

/-- A factor that is there as a request starts to remove it, be it to replace it, to forget it or
with the seed of the account, is gone for good once this request is answered: no claim that looks
later is served it. -/
theorem forgotten {request : Request} {i : Nat}
    (reach : Reach State.step (fun _ _ => True) empty s)
    (at_ : s.tasks[i]? = some ⟨request, .selecting account began⟩)
    (there : (c, row) ∈ s.db.escrows.visible) (hremoves : request.removes account row)
    (until_ : Reach State.step (fun _ _ => True) s s₁)
    (done : s₁.tasks[i]? = some ⟨request, .done seen removed⟩)
    (later : Reach State.step (fun _ _ => True) s₁ s₂) : Forgotten c s₁ s₂ := by
  have watched := Watched.reach reach at_ there hremoves until_
  have reach₁ := reach.trans until_
  have gone : c ∉ s₁.db.escrows.map (·.ctid) := by
    obtain ⟨phase, hi, hphase⟩ := watched.standing
    cases done.symm.trans hi
    rcases hphase with hc | hselecting | hseen | ⟨_, hrefused⟩
    · exact hc
    · cases hselecting
    · intro hmem
      obtain ⟨u, hu, rfl⟩ := List.mem_map.1 hmem
      rcases ((kept_and_history reach₁).1.sound i _ done).covers u hu hseen with h | h <;> cases h
    · cases hrefused
  have both : c < s₂.db.nextCtid ∧ Forgotten c s₁ s₂ := by
    clear done
    induction later with
    | refl => exact ⟨watched.fresh, gone, fun _ _ _ h => .inl h⟩
    | tail later _ hstep ih =>
      obtain ⟨kept, history⟩ := kept_and_history (reach₁.trans later)
      exact ⟨(not_mem_of_step kept hstep ih.1 ih.2.gone).1, ih.2.step kept history ih.1 hstep⟩
  exact both.2

/-- The row of that password. -/
def passwordRow (byte : UInt8) : Row :=
  ⟨List.replicate 32 byte, "ada", .password, List.replicate 13 byte, List.replicate 92 byte, 0⟩

def claimedAgain : List Action := [.claim (Base64.encode (List.replicate 32 1)), .statement 3]

theorem forgotten_changed : ∃ s₁ s₂, Reach State.step (fun _ _ => True) s₁ s₂ ∧
    s₁.entries.map (·.row) = [passwordRow 1, passwordRow 2] ∧
    s₂.tasks[3]? = some ⟨.claim (passwordRow 1).lookup, .refused .notFound⟩ ∧
      Forgotten 0 s₁ s₂ := by
  let request : Request := .set "phone" .password (List.replicate 32 2) (List.replicate 13 2)
    (List.replicate 92 2)
  have before : (run State.step empty changed).map (fun s => (s.tasks[1]?,
      decide ((0, passwordRow 1) ∈ s.db.escrows.visible))) =
        some (some ⟨request, .selecting "ada" 0⟩, true) := by decide +kernel
  have during : ((run State.step empty changed).bind fun s => run State.step s changedSince).map
      (fun s => (s.tasks[1]?, s.entries.map (·.row))) =
        some (some ⟨request, .done [0] 1⟩, [passwordRow 1, passwordRow 2]) := by decide +kernel
  have after : (((run State.step empty changed).bind fun s => run State.step s changedSince).bind
      fun s => run State.step s claimedAgain).map (fun s => s.tasks[3]?) =
        some (some ⟨.claim (passwordRow 1).lookup, .refused .notFound⟩) := by decide +kernel
  obtain ⟨s, hrun, heq⟩ := Option.map_eq_some_iff.1 before
  obtain ⟨at_, there⟩ := Prod.mk.inj heq
  rw [hrun, Option.bind_some] at during after
  obtain ⟨s₁, hrun₁, heq⟩ := Option.map_eq_some_iff.1 during
  obtain ⟨done, entries⟩ := Prod.mk.inj heq
  rw [hrun₁, Option.bind_some] at after
  obtain ⟨s₂, hrun₂, answer⟩ := Option.map_eq_some_iff.1 after
  exact ⟨s₁, s₂, reach_of_run hrun₂, entries, answer, forgotten (reach_of_run hrun) at_
    (of_decide_eq_true there) rfl (reach_of_run hrun₁) done (reach_of_run hrun₂)⟩

end Whispee.Server.Recovery
