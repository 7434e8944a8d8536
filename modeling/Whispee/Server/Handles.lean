import Mathlib.Data.List.Chain
import Mathlib.Data.List.Nodup
import Whispee.Lib.Fallible
import Whispee.Lib.Tasks
import Whispee.Lib.Transition
import Whispee.Server.Groups

/-!
# The handle registry

`create_account` and `rename_account` of `crates/server/src/routes.rs`, one step for each statement
of their transactions, over the tables of `migrations/0014_account_identity.sql` and
`migrations/0016_rename_cooldown.sql`. Times are those of the database, in microseconds. A
transaction sees what is committed and what it has written itself; a statement that meets a row
another one has written waits for it.
-/

namespace Whispee.Server.Handles

open Groups (decodeB64 json)
open Transition

/-- How long an account keeps a name before it may take another, in seconds. -/
def RENAME_COOLDOWN_SECONDS : Int := 24 * 60 * 60

/-- `handle::validate`. -/
def validate (handle : String) : Except ApiError Unit :=
  let length := handle.toList.length
  if length < 3 then .error (.badRequest "handle too short")
  else if length > 32 then .error (.badRequest "handle too long")
  else if !handle.toList.all fun c => ('a' ≤ c && c ≤ 'z') || c.isDigit || c = '_' then
    .error (.badRequest "handle must be lowercase letters, digits or underscores")
  else .ok ()

/-! ## The tables -/

structure HandleRow where
  handle : String
  /-- Nobody, for a tombstone. -/
  account : Option String
  claimedAt : Nat
  releasedAt : Option Nat
  fromRename : Bool
  deriving DecidableEq

/-- `account = $1 AND released_at IS NULL`. -/
def HandleRow.liveOf (row : HandleRow) (account : String) : Bool :=
  row.account = some account ∧ row.releasedAt = none

/-- `SET account = NULL, released_at = now()`. -/
def HandleRow.retire (row : HandleRow) (now : Nat) : HandleRow :=
  { row with account := none, releasedAt := some now }

structure Database where
  /-- An account and its identity key. -/
  accounts : List (String × Bytes)
  /-- The accounts that have a row in `account_storage`. -/
  storage : List String
  /-- `log_entries`: an account and the key published for it. -/
  log : List (String × Bytes)
  handles : List HandleRow
  /-- `SELECT account FROM devices WHERE id = $1`. -/
  devices : String → Option String

/-- `EXTRACT(EPOCH FROM …)::BIGINT` of an interval: a cast to an integer rounds. -/
def epoch (interval : Int) : Int :=
  if 0 ≤ interval then (interval + 500000) / 1000000 else -((-interval + 500000) / 1000000)

/-! ## One request -/

inductive Kind where
  | create (identityKey : Bytes)
  | rename (deviceId : String)
  deriving DecidableEq

/-- The identity key an account is created with. -/
def Kind.key : Kind → Bytes
  | .create key => key
  | .rename _ => []

def Kind.isRename : Kind → Bool
  | .create _ => false
  | .rename _ => true

/-- The statement a request sends next, or how it has ended. -/
inductive Phase where
  /-- The account of the device that renames. -/
  | authorizing
  /-- `BEGIN`. -/
  | beginning
  /-- `INSERT INTO accounts`. -/
  | creating
  /-- `INSERT INTO account_storage`, after an account was inserted or not. -/
  | storing (inserted : Bool)
  /-- `log::append`. -/
  | appending
  /-- Whether the account answers to a name. -/
  | holding
  /-- `UPDATE handles`: it starts, and acts on the row it has found. -/
  | selecting
  | retiring (found : Option String)
  /-- `INSERT INTO handles`. -/
  | claiming (held : Bool)
  /-- Whose the name is that could not be claimed. -/
  | owning
  | committing
  | done
  | refused (error : ApiError)
  /-- The commit was sent, and its answer lost. -/
  | unanswered
  deriving DecidableEq

structure Task where
  kind : Kind
  account : String
  handle : String
  phase : Phase
  /-- `now()` of the transaction. -/
  began : Nat
  /-- What it has written and not committed: rows in `accounts`, `account_storage` and
  `log_entries`, the row it retires as it was, the row it claims. -/
  newAccount : Bool
  newStorage : Bool
  newLog : Bool
  retired : Option HandleRow
  claimed : Option HandleRow

/-- The part of `create_account` that looks at the request alone. -/
def createAccount (P : Account.Primitives) (handle identityKey : String) : Except ApiError Task := do
  validate handle
  let key ← decodeB64 identityKey
  if key.length ≠ 32 then .error (.badRequest "Ed25519 key expected (32 bytes)")
  else .ok ⟨.create key, Account.accountId P key, handle, .beginning, 0, false, false, false, none, none⟩

/-- The part of `rename_account` that looks at the request alone. -/
def renameAccount (deviceId account : String) (handle : Option String) : Except ApiError Task := do
  let handle ← json handle
  validate handle
  .ok ⟨.rename deviceId, account, handle, .authorizing, 0, false, false, false, none, none⟩

namespace Task

/-- The rows of `handles` as the transaction leaves them. -/
def handles (t : Task) (rows : List HandleRow) : List HandleRow :=
  (rows.map fun row =>
    if t.retired.any (·.handle = row.handle) then row.retire t.began else row) ++ t.claimed.toList

/-- What the statements of the transaction see, and what it commits. -/
def view (t : Task) (db : Database) : Database :=
  { db with
    accounts := db.accounts ++ (if t.newAccount then [(t.account, t.kind.key)] else [])
    storage := db.storage ++ (if t.newStorage then [t.account] else [])
    log := db.log ++ (if t.newLog then [(t.account, t.kind.key)] else [])
    handles := t.handles db.handles }

/-- The transaction ends, and nothing of it is left but what it commits. -/
def finish (t : Task) (phase : Phase) : Task :=
  { t with
    phase, newAccount := false, newStorage := false, newLog := false, retired := none
    claimed := none }

/-- A claim of the name, or of a name for the account, has to wait for the other transaction. -/
def contends (rows : List HandleRow) (handle account : String) (other : Task) : Bool :=
  other.claimed.any (fun row => row.handle = handle || row.account = some account) ||
    other.retired.any fun row => rows.any fun old =>
      old.handle = row.handle && (old.handle = handle || old.account = some account)

/-- The next statement, unless it has to wait for one of the `others`. -/
def next (db : Database) (now : Nat) (others : List Task) (t : Task) : Option Task :=
  let view := t.view db
  match t.phase with
  | .authorizing =>
    match t.kind with
    | .rename deviceId =>
      if db.devices deviceId = some t.account then some { t with phase := .beginning }
      else some (t.finish (.refused .forbidden))
    | .create _ => none
  | .beginning =>
    some { t with began := now, phase := if t.kind.isRename then .selecting else .creating }
  | .creating =>
    if others.any fun o => o.newAccount ∧ o.account = t.account then none
    else if t.account ∈ view.accounts.map (·.1) then some { t with phase := .storing false }
    else some { t with newAccount := true, phase := .storing true }
  | .storing inserted =>
    if others.any fun o => o.newStorage ∧ o.account = t.account then none
    else some { t with
      newStorage := t.account ∉ view.storage, phase := if inserted then .appending else .holding }
  | .appending =>
    -- The advisory lock.
    if others.any fun o => o.newLog then none else some { t with newLog := true, phase := .holding }
  | .holding => some { t with phase := .claiming (view.handles.any (·.liveOf t.account)) }
  | .selecting =>
    some { t with phase := .retiring ((view.handles.find? (·.liveOf t.account)).map (·.handle)) }
  | .retiring none => some { t with phase := .claiming false }
  | .retiring (some handle) =>
    if others.any fun o => o.retired.any (·.handle = handle) then none
    else match view.handles.find? fun row => row.handle = handle ∧ row.liveOf t.account with
      | none => some { t with phase := .claiming false }
      | some row =>
        if row.fromRename ∧ epoch (t.began - row.claimedAt) < RENAME_COOLDOWN_SECONDS then
          some (t.finish (.refused (.conflict "this account was renamed too recently")))
        else some { t with retired := some row, phase := .claiming false }
  | .claiming held =>
    if others.any (contends db.handles t.handle t.account) then none
    else if view.handles.any fun row => row.handle = t.handle || row.liveOf t.account then
      some { t with phase := .owning }
    else if held then
      some (t.finish (.refused
        (.conflict "this account already has a handle; rename it instead")))
    else
      let row := ⟨t.handle, some t.account, t.began, none, t.kind.isRename⟩
      some { t with claimed := some row, phase := .committing }
  | .owning =>
    match view.handles.find? (·.handle = t.handle) with
    | some ⟨_, none, _, _, _⟩ => some (t.finish (.refused (.conflict "handle is retired")))
    | some ⟨_, some owner, _, _, _⟩ =>
      if owner = t.account ∧ !t.kind.isRename then some { t with phase := .committing }
      else some (t.finish (.refused (.conflict "handle already taken by another account")))
    | none => some (t.finish (.refused (.conflict "handle already taken by another account")))
  | _ => none

end Task

/-! ## The server -/

structure Commit where
  index : Nat
  task : Task

structure State where
  time : Nat
  db : Database
  tasks : List Task
  commits : List Commit

inductive Action where
  | pass (time : Nat)
  | register (deviceId account : String)
  | createAccount (handle identityKey : String)
  | renameAccount (deviceId account : String) (handle : Option String)
  /-- The next statement of a request takes effect. -/
  | statement (task : Nat)
  | commit (task : Nat)
  /-- The commit takes effect, and its answer is lost. -/
  | lose (task : Nat)
  /-- A statement of a request fails, or its device goes away. -/
  | fail (task : Nat)

def Phase.underway : Phase → Bool
  | .done | .refused _ | .unanswered => false
  | _ => true

namespace State

def commit (s : State) (i : Nat) (t : Task) (phase : Phase) : State :=
  { s with
    db := t.view s.db
    tasks := s.tasks.set i (t.finish phase)
    commits := s.commits ++ [⟨i, t⟩] }

/-- A request comes in; one whose form is wrong is refused at once. -/
def receive (s : State) : Except ApiError Task → State
  | .ok t => { s with tasks := s.tasks ++ [t] }
  | .error _ => s

def step (P : Account.Primitives) (s : State) : Action → Option State
  | .pass time => if s.time ≤ time then some { s with time } else none
  | .register deviceId account =>
    -- A device keeps its account.
    if s.db.devices deviceId = none then
      some { s with db := { s.db with
        devices := Function.update s.db.devices deviceId (some account) } }
    else none
  | .createAccount handle identityKey =>
    some (s.receive (Handles.createAccount P handle identityKey))
  | .renameAccount deviceId account handle =>
    some (s.receive (Handles.renameAccount deviceId account handle))
  | .statement i => do
    let t ← s.tasks[i]?
    let t ← t.next s.db s.time (s.tasks.eraseIdx i)
    some { s with tasks := s.tasks.set i t }
  | .commit i => do
    let t ← s.tasks[i]?
    if t.phase = .committing then some (s.commit i t .done) else none
  | .lose i => do
    let t ← s.tasks[i]?
    if t.phase = .committing then some (s.commit i t .unanswered) else none
  | .fail i => do
    let t ← s.tasks[i]?
    if t.phase.underway then
      some { s with tasks := s.tasks.set i (t.finish (.refused .database)) }
    else none

/-- The server at its first start. -/
structure Initial (s : State) : Prop where
  handles : s.db.handles = []
  tasks : s.tasks = []
  commits : s.commits = []

end State

/-- Every name a transaction has given, and to whom. -/
def given (commits : List Commit) : List (String × Option String) :=
  commits.flatMap fun c => c.task.claimed.toList.map fun row => (row.handle, row.account)

/-- When the renames of an account that went through began. -/
def renames (commits : List Commit) (account : String) : List Nat :=
  (commits.filter fun c =>
    c.task.kind.isRename ∧ c.task.account = account ∧ c.task.claimed.isSome).map (·.task.began)

/-- What a list of transactions makes of the registry. -/
def replay (commits : List Commit) : List HandleRow :=
  commits.foldl (fun rows c => c.task.handles rows) []

/-- A day, in microseconds. -/
def DAY : Nat := 24 * 60 * 60 * 1000000

/-- A rename that goes through did not begin within half a second of the end of the day that
follows the account's last. -/
def State.offTheEdge (s : State) : Action → Bool
  | .commit i | .lose i =>
    match s.tasks[i]? with
    | some t => !t.kind.isRename || (renames s.commits t.account).getLast?.all fun last =>
        t.began + 500000 < last + DAY || last + DAY ≤ t.began
    | none => true
  | _ => true

/-! ## What a statement does to the registry -/

/-- Nothing is retired yet. -/
def Phase.early : Phase → Bool
  | .claiming _ | .owning | .committing => false
  | _ => true

def Phase.retires : Phase → Bool
  | .selecting | .retiring _ => true
  | _ => false

/-- What a transaction has written to `handles`, over the rows that are committed. -/
structure Task.Sound (rows : List HandleRow) (t : Task) : Prop where
  renames : t.phase.retires → t.kind.isRename
  late : t.retired.isSome → t.phase.early = false
  retired : ∀ r, t.retired = some r → r ∈ rows ∧ r.liveOf t.account ∧ t.kind.isRename ∧
    (r.fromRename → RENAME_COOLDOWN_SECONDS ≤ epoch (t.began - r.claimedAt))
  claimed : ∀ r, t.claimed = some r →
    r = ⟨t.handle, some t.account, t.began, none, t.kind.isRename⟩ ∧ t.phase = .committing ∧
      (∀ x ∈ rows, x.handle ≠ t.handle) ∧
      ∀ x ∈ rows, x.liveOf t.account → t.retired.any (·.handle = x.handle)
  idle : t.phase = .committing → t.claimed = none → t.retired = none

/-- What the next statement of a request does. -/
inductive Task.Move (rows : List HandleRow) (others : List Task) (t : Task) : Task → Prop where
  | refuse : Move rows others t (t.finish (.refused error))
  | ahead (early : t.phase.early) (phase : t'.phase ≠ .committing)
      (renames : t'.phase.retires → t'.kind.isRename)
      (retired : t'.retired = none) (claimed : t'.claimed = none) : Move rows others t t'
  | retire (free : ∀ o ∈ others, ¬ o.retired.any (·.handle = row.handle)) (there : row ∈ rows)
      (live : row.liveOf t.account) (renames : t.kind.isRename) (early : t.phase.early)
      (cooled : row.fromRename → RENAME_COOLDOWN_SECONDS ≤ epoch (t.began - row.claimedAt)) :
      Move rows others t { t with retired := some row, phase := .claiming false }
  | own (late : t.phase = .claiming held) : Move rows others t { t with phase := .owning }
  | claim (late : t.phase = .claiming held)
      (free : ∀ o ∈ others, ¬ o.contends rows t.handle t.account)
      (fresh : ∀ x ∈ rows, x.handle ≠ t.handle)
      (alone : ∀ x ∈ rows, x.liveOf t.account → t.retired.any (·.handle = x.handle)) :
      Move rows others t { t with
        claimed := some ⟨t.handle, some t.account, t.began, none, t.kind.isRename⟩
        phase := .committing }
  | settle (late : t.phase = .owning) (creates : t.kind.isRename = false) :
      Move rows others t { t with phase := .committing }

namespace Task.Sound

variable {rows : List HandleRow} {t t' : Task} {others : List Task} {db : Database}
  {after : Phase}

theorem retired_eq_none (h : t.Sound rows) (early : t.phase.early) : t.retired = none := by
  cases hr : t.retired with
  | none => rfl
  | some r =>
    have late := h.late (by rw [hr]; rfl)
    rw [early] at late
    cases late

theorem claimed_eq_none (h : t.Sound rows) (phase : t.phase ≠ .committing) : t.claimed = none := by
  cases hc : t.claimed with
  | none => rfl
  | some r => exact absurd (h.claimed r hc).2.1 phase

/-- A transaction that has retired and claimed nothing sees what is committed. -/
theorem handles_eq (retired : t.retired = none) (claimed : t.claimed = none) :
    t.handles rows = rows := by
  rw [Task.handles, retired, claimed]
  simp

theorem mem_handles_of_mem (hx : x ∈ rows) : (∃ y ∈ t.handles rows, y.handle = x.handle) ∧
    (¬ t.retired.any (·.handle = x.handle) → x ∈ t.handles rows) := by
  have image := List.mem_append_left t.claimed.toList (List.mem_map_of_mem (f := fun row =>
    if t.retired.any (·.handle = row.handle) then row.retire t.began else row) hx)
  refine ⟨⟨_, image, ?_⟩, fun kept => ?_⟩
  · split <;> rfl
  · rwa [if_neg kept] at image

theorem ahead (h : t.Sound db.handles) (early : t.phase.early) (waits : after ≠ .committing)
    (renames : after.retires → t.kind.isRename) :
    t.Move db.handles others { t with phase := after } :=
  .ahead early waits renames (h.retired_eq_none early)
    (h.claimed_eq_none fun hc => by rw [hc] at early; cases early)

theorem move (h : t.Sound db.handles) (hn : t.next db now others = some t') :
    t.Move db.handles others t' := by
  have early_ne (early : t.phase.early) : t.phase ≠ .committing :=
    fun hc => by rw [hc] at early; cases early
  have unwritten (early : t.phase.early) : (t.view db).handles = db.handles :=
    handles_eq (h.retired_eq_none early) (h.claimed_eq_none (early_ne early))
  rw [Task.next] at hn
  split at hn
  next at_ => -- authorizing
    split at hn
    · split at hn <;> cases hn
      · exact h.ahead (by rw [at_]; rfl) (fun hc => by cases hc) fun hr => by cases hr
      · exact .refuse
    · cases hn
  next at_ => -- beginning
    cases hn
    have early : t.phase.early := by rw [at_]; rfl
    refine .ahead early ?_ (fun hr => ?_) (h.retired_eq_none early) (h.claimed_eq_none (early_ne early))
    · dsimp only
      split <;> exact fun hc => by cases hc
    · dsimp only at hr
      split at hr
      · assumption
      · cases hr
  next at_ => -- creating
    have early : t.phase.early := by rw [at_]; rfl
    split at hn
    · cases hn
    split at hn <;> cases hn
    · exact h.ahead early (fun hc => by cases hc) fun hr => by cases hr
    · exact .ahead early (fun hc => by cases hc) (fun hr => by cases hr) (h.retired_eq_none early)
        (h.claimed_eq_none (early_ne early))
  next inserted at_ => -- storing
    have early : t.phase.early := by rw [at_]; rfl
    split at hn <;> cases hn
    refine .ahead early ?_ (fun hr => ?_) (h.retired_eq_none early) (h.claimed_eq_none (early_ne early))
    · dsimp only
      split <;> exact fun hc => by cases hc
    · dsimp only at hr
      split at hr <;> cases hr
  next at_ => -- appending
    have early : t.phase.early := by rw [at_]; rfl
    split at hn <;> cases hn
    exact .ahead early (fun hc => by cases hc) (fun hr => by cases hr) (h.retired_eq_none early)
      (h.claimed_eq_none (early_ne early))
  next at_ => -- holding
    cases hn
    exact h.ahead (by rw [at_]; rfl) (fun hc => by cases hc) fun hr => by cases hr
  next at_ => -- selecting
    cases hn
    exact h.ahead (by rw [at_]; rfl) (fun hc => by cases hc) fun _ => h.renames (by rw [at_]; rfl)
  next at_ => -- retiring nothing
    cases hn
    exact h.ahead (by rw [at_]; rfl) (fun hc => by cases hc) fun hr => by cases hr
  next handle at_ => -- retiring a row
    have early : t.phase.early := by rw [at_]; rfl
    split at hn
    · cases hn
    next free =>
      split at hn
      next => 
        cases hn
        exact h.ahead early (fun hc => by cases hc) fun hr => by cases hr
      next row found =>
        split at hn <;> cases hn
        · exact .refuse
        next warm =>
          have hrow := List.find?_some found
          rw [decide_eq_true_eq] at hrow
          obtain ⟨rfl, live⟩ := hrow
          refine .retire (fun o ho taken => free (List.any_eq_true.2 ⟨o, ho, taken⟩)) ?_ live
            (h.renames (by rw [at_]; rfl)) early fun renamed => ?_
          · rw [unwritten early] at found
            exact List.mem_of_find?_eq_some found
          · exact Int.not_lt.1 fun young => warm ⟨renamed, young⟩
  next held at_ => -- claiming
    split at hn
    · cases hn
    next free =>
      split at hn
      · cases hn
        exact .own at_
      next fresh =>
        split at hn <;> cases hn
        · exact .refuse
        · have absent : ∀ y ∈ (t.view db).handles, y.handle ≠ t.handle ∧ ¬ y.liveOf t.account := by
            intro y hy
            refine not_or.1 fun taken => fresh (List.any_eq_true.2 ⟨y, hy, ?_⟩)
            rw [Bool.or_eq_true, decide_eq_true_eq]
            exact taken
          refine .claim at_ (fun o ho taken => free (List.any_eq_true.2 ⟨o, ho, taken⟩))
            (fun x hx same => ?_) fun x hx live => ?_
          · obtain ⟨⟨y, hy, hname⟩, _⟩ := mem_handles_of_mem (t := t) hx
            exact (absent y hy).1 (hname.trans same)
          · by_contra kept
            exact (absent x ((mem_handles_of_mem hx).2 kept)).2 live
  next at_ => -- owning
    split at hn
    · cases hn
      exact .refuse
    · split at hn <;> cases hn
      next own =>
        exact .settle at_ (by simpa using own.2)
      · exact .refuse
    · cases hn
      exact .refuse
  · cases hn

theorem of_move (h : t.Sound rows) (m : t.Move rows others t') : t'.Sound rows := by
  cases m with
  | refuse =>
    exact ⟨fun hr => (by cases hr), fun hr => (by cases hr), fun _ hr => (by cases hr),
      fun _ hc => (by cases hc), fun hp => by cases hp⟩
  | ahead _ waits renames retired claimed =>
    refine ⟨renames, fun hr => ?_, fun _ hr => ?_, fun _ hc => ?_, fun hp => absurd hp waits⟩
    · rw [retired] at hr
      cases hr
    · rw [retired] at hr
      cases hr
    · rw [claimed] at hc
      cases hc
  | @retire row _ there live renames early cooled =>
    have unclaimed := h.claimed_eq_none fun hc => by rw [hc] at early; cases early
    refine ⟨fun hr => (by cases hr), fun _ => rfl, fun r hr => ?_, fun _ hc => ?_, fun hp => by cases hp⟩
    · cases hr
      exact ⟨there, live, renames, cooled⟩
    · rw [show t.claimed = some _ from hc] at unclaimed
      cases unclaimed
  | own late =>
    have unclaimed := h.claimed_eq_none fun hc => by rw [hc] at late; cases late
    refine ⟨fun hr => (by cases hr), fun _ => rfl, h.retired, fun _ hc => ?_, fun hp => by cases hp⟩
    rw [show t.claimed = some _ from hc] at unclaimed
    cases unclaimed
  | claim late _ fresh alone =>
    refine ⟨fun hr => (by cases hr), fun _ => rfl, h.retired, fun _ hc => ?_, fun _ hc => by cases hc⟩
    cases hc
    exact ⟨rfl, rfl, fresh, alone⟩
  | settle late creates =>
    have unclaimed := h.claimed_eq_none fun hc => by rw [hc] at late; cases late
    refine ⟨fun hr => (by cases hr), fun _ => rfl, h.retired, fun _ hc => ?_, fun _ _ => ?_⟩
    · rw [show t.claimed = some _ from hc] at unclaimed
      cases unclaimed
    · cases hr : t.retired with
      | none => rfl
      | some r =>
        have renames := (h.retired r hr).2.2.1
        rw [creates] at renames
        cases renames

theorem finish (h : after.retires = false) (ends : after ≠ .committing) :
    (t.finish after).Sound rows :=
  ⟨fun hr => (by rw [show (t.finish after).phase.retires = false from h] at hr; cases hr),
    fun hr => (by cases hr), fun _ hr => (by cases hr), fun _ hc => (by cases hc),
    fun hp => absurd hp ends⟩

end Task.Sound

/-- A name is claimed anew by a move only while no other transaction is at it, nor at a name for the
account. -/
theorem Task.Move.claimed_cases {t t' : Task} (m : t.Move rows others t') :
    t'.claimed = t.claimed ∨ t'.claimed = none ∨
      (∃ held, t.phase = .claiming held) ∧ (∀ o ∈ others, ¬ o.contends rows t.handle t.account) ∧
        t'.claimed = some ⟨t.handle, some t.account, t.began, none, t.kind.isRename⟩ := by
  cases m with
  | refuse => exact .inr (.inl rfl)
  | ahead _ _ _ _ claimed => exact .inr (.inl claimed)
  | retire | own | settle => exact .inl rfl
  | claim late free => exact .inr (.inr ⟨⟨_, late⟩, free, rfl⟩)

/-- A row is retired by a move only while no other transaction retires it. -/
theorem Task.Move.retired_cases {t t' : Task} (m : t.Move rows others t') :
    t'.retired = t.retired ∨ t'.retired = none ∨ ∃ row, t.phase.early ∧
      (∀ o ∈ others, ¬ o.retired.any (·.handle = row.handle)) ∧ t'.retired = some row := by
  cases m with
  | refuse => exact .inr (.inl rfl)
  | ahead _ _ _ retired => exact .inr (.inl retired)
  | own | claim | settle => exact .inl rfl
  | retire free _ _ _ early => exact .inr (.inr ⟨_, early, free, rfl⟩)

/-! ## What a commit does to the registry -/

/-- The primary key and the index on live names. -/
structure Registry (rows : List HandleRow) : Prop where
  names : (rows.map (·.handle)).Nodup
  live : ∀ x ∈ rows, ∀ y ∈ rows, ∀ a, x.liveOf a → y.liveOf a → x = y

namespace Registry

variable {rows : List HandleRow} {t t' : Task} {x y : HandleRow}

theorem eq_of_handle (h : Registry rows) (hx : x ∈ rows) (hy : y ∈ rows)
    (same : x.handle = y.handle) : x = y :=
  List.inj_on_of_nodup_map h.names hx hy same

theorem handles_map (t : Task) (rows : List HandleRow) : (t.handles rows).map (·.handle) =
    rows.map (·.handle) ++ t.claimed.toList.map (·.handle) := by
  rw [Task.handles, List.map_append, List.map_map]
  congr 1
  refine List.map_congr_left fun row _ => ?_
  dsimp only [Function.comp]
  split <;> rfl

/-- A row after a commit: as it was, retired, or the one claimed. -/
theorem mem_handles_cases (h : y ∈ t.handles rows) :
    (y ∈ rows ∧ ¬ t.retired.any (·.handle = y.handle)) ∨
      (∃ x ∈ rows, t.retired.any (·.handle = x.handle) ∧ y = x.retire t.began) ∨
      t.claimed = some y := by
  rcases List.mem_append.1 h with h | h
  · obtain ⟨x, hx, rfl⟩ := List.mem_map.1 h
    split
    next retired => exact .inr (.inl ⟨x, hx, retired, rfl⟩)
    next kept => exact .inl ⟨hx, kept⟩
  · exact .inr (.inr (Option.mem_toList.1 h))

theorem not_live_retire (x : HandleRow) (now : Nat) (a : String) : ¬ (x.retire now).liveOf a := by
  rw [HandleRow.liveOf, decide_eq_true_eq]
  exact fun h => by cases h.1

theorem commit (h : Registry rows) (sound : t.Sound rows) : Registry (t.handles rows) where
  names := by
    rw [handles_map]
    cases hc : t.claimed with
    | none =>
      rw [Option.toList_none, List.map_nil, List.append_nil]
      exact h.names
    | some row =>
      obtain ⟨rfl, _, fresh, _⟩ := sound.claimed row hc
      refine h.names.append (List.nodup_singleton _) (List.disjoint_singleton.2 fun hm => ?_)
      obtain ⟨x, hx, same⟩ := List.mem_map.1 hm
      exact fresh x hx same
  live := by
    have old_new : ∀ x ∈ rows, ¬ t.retired.any (·.handle = x.handle) → ∀ y, t.claimed = some y →
        ∀ a, x.liveOf a → y.liveOf a → x = y := by
      intro x hx kept y hy a hxa hya
      obtain ⟨rfl, _, _, alone⟩ := sound.claimed y hy
      rw [HandleRow.liveOf, decide_eq_true_eq] at hya
      cases hya.1
      exact absurd (alone x hx hxa) kept
    intro x hx y hy a hxa hya
    rcases mem_handles_cases hx with ⟨hx, kept⟩ | ⟨x, _, _, rfl⟩ | hx
    · rcases mem_handles_cases hy with ⟨hy, _⟩ | ⟨y, _, _, rfl⟩ | hy
      · exact h.live x hx y hy a hxa hya
      · exact absurd hya (not_live_retire _ _ _)
      · exact old_new x hx kept y hy a hxa hya
    · exact absurd hxa (not_live_retire _ _ _)
    · rcases mem_handles_cases hy with ⟨hy, kept⟩ | ⟨y, _, _, rfl⟩ | hy
      · exact (old_new y hy kept x hx a hya hxa).symm
      · exact absurd hya (not_live_retire _ _ _)
      · exact Option.some.inj (hx.symm.trans hy)

end Registry

/-- The registry changes under a transaction that is at other names, other accounts and other rows. -/
theorem Task.Sound.commit {rows : List HandleRow} {t t' : Task} (h : t'.Sound rows)
    (names : ∀ n, t.claimed.any (·.handle = n) → ¬ t'.claimed.any (·.handle = n))
    (accounts : ∀ a, t.claimed.any (·.account = some a) → ¬ t'.claimed.any (·.account = some a))
    (apart : ∀ n, t.retired.any (·.handle = n) → ¬ t'.retired.any (·.handle = n)) :
    t'.Sound (t.handles rows) := by
  refine { h with retired := fun r hr => ?_, claimed := fun r hr => ?_ }
  · obtain ⟨hmem, rest⟩ := h.retired r hr
    refine ⟨(Task.Sound.mem_handles_of_mem hmem).2 fun taken => apart r.handle taken ?_, rest⟩
    rw [hr]
    exact decide_eq_true rfl
  · obtain ⟨hrow, committing, fresh, alone⟩ := h.claimed r hr
    refine ⟨hrow, committing, fun x hx => ?_, fun x hx live => ?_⟩
    · rcases Registry.mem_handles_cases hx with ⟨hx, _⟩ | ⟨old, hold, _, rfl⟩ | hx
      · exact fresh x hx
      · exact fresh old hold
      · rintro same
        refine names t'.handle ?_ ?_
        · rw [hx]
          exact decide_eq_true same
        · rw [hr, hrow]
          exact decide_eq_true rfl
    · rcases Registry.mem_handles_cases hx with ⟨hx, _⟩ | ⟨x, hx, _, rfl⟩ | hx
      · exact alone x hx live
      · exact absurd live (Registry.not_live_retire _ _ _)
      · refine absurd ?_ (accounts t'.account ?_)
        · rw [hr, hrow]
          exact decide_eq_true rfl
        · rw [HandleRow.liveOf, decide_eq_true_eq] at live
          rw [hx]
          exact decide_eq_true live.1

/-! ## Transactions keep apart -/

def Task.claimsName (handle : String) (t : Task) : Prop := t.claimed.any (·.handle = handle)

def Task.claimsFor (account : String) (t : Task) : Prop := t.claimed.any (·.account = some account)

def Task.retires (handle : String) (t : Task) : Prop := t.retired.any (·.handle = handle)

/-- No two transactions claim one name, claim for one account, or retire one row. -/
structure Apart (tasks : List Task) : Prop where
  names : ∀ handle, Tasks.Exclusive (Task.claimsName handle) tasks
  accounts : ∀ account, Tasks.Exclusive (Task.claimsFor account) tasks
  rows : ∀ handle, Tasks.Exclusive (Task.retires handle) tasks

namespace Apart

variable {rows : List HandleRow} {tasks : List Task} {t t' : Task}

/-- A transaction comes, or ends, that has written nothing. -/
theorem concat (h : Apart tasks) (retired : t.retired = none) (claimed : t.claimed = none) :
    Apart (tasks ++ [t]) where
  names n := (h.names n).concat (by rw [Task.claimsName, claimed]; exact Bool.false_ne_true)
  accounts a := (h.accounts a).concat (by rw [Task.claimsFor, claimed]; exact Bool.false_ne_true)
  rows n := (h.rows n).concat (by rw [Task.retires, retired]; exact Bool.false_ne_true)

theorem finish (h : Apart tasks) (at_ : tasks[i]? = some t) (phase : Phase) :
    Apart (tasks.set i (t.finish phase)) where
  names n := (h.names n).set at_ fun holds => absurd holds Bool.false_ne_true
  accounts a := (h.accounts a).set at_ fun holds => absurd holds Bool.false_ne_true
  rows n := (h.rows n).set at_ fun holds => absurd holds Bool.false_ne_true

theorem move (h : Apart tasks) (at_ : tasks[i]? = some t) (sound : t.Sound rows)
    (m : t.Move rows (tasks.eraseIdx i) t') : Apart (tasks.set i t') := by
  have unclaimed : (∃ held, t.phase = .claiming held) → t.claimed = none := by
    rintro ⟨held, late⟩
    exact sound.claimed_eq_none fun hc => by rw [hc] at late; cases late
  refine ⟨fun n => (h.names n).set at_ fun holds => ?_,
    fun a => (h.accounts a).set at_ fun holds => ?_, fun n => (h.rows n).set at_ fun holds => ?_⟩
  · rcases m.claimed_cases with same | none_ | ⟨late, free, new⟩
    · rw [Task.claimsName, same] at holds
      exact .inl holds
    · rw [Task.claimsName, none_] at holds
      exact absurd holds Bool.false_ne_true
    · rw [Task.claimsName, new, Option.any_some, decide_eq_true_eq] at holds
      refine .inr (Tasks.forall_of_eraseIdx at_ ?_ fun o ho taken => free o ho ?_)
      · rw [Task.claimsName, unclaimed late]
        exact Bool.false_ne_true
      · obtain ⟨row, hrow, same⟩ := (Option.any_eq_true _ _).1 taken
        refine Bool.or_eq_true_iff.2 (.inl ((Option.any_eq_true _ _).2 ⟨row, hrow, ?_⟩))
        subst holds
        rw [Bool.or_eq_true]
        exact .inl same
  · rcases m.claimed_cases with same | none_ | ⟨late, free, new⟩
    · rw [Task.claimsFor, same] at holds
      exact .inl holds
    · rw [Task.claimsFor, none_] at holds
      exact absurd holds Bool.false_ne_true
    · rw [Task.claimsFor, new, Option.any_some, decide_eq_true_eq] at holds
      cases holds
      refine .inr (Tasks.forall_of_eraseIdx at_ ?_ fun o ho taken => free o ho ?_)
      · rw [Task.claimsFor, unclaimed late]
        exact Bool.false_ne_true
      · obtain ⟨row, hrow, same⟩ := (Option.any_eq_true _ _).1 taken
        refine Bool.or_eq_true_iff.2 (.inl ((Option.any_eq_true _ _).2 ⟨row, hrow, ?_⟩))
        rw [Bool.or_eq_true]
        exact .inr same
  · rcases m.retired_cases with same | none_ | ⟨row, early, free, new⟩
    · rw [Task.retires, same] at holds
      exact .inl holds
    · rw [Task.retires, none_] at holds
      exact absurd holds Bool.false_ne_true
    · rw [Task.retires, new, Option.any_some, decide_eq_true_eq] at holds
      refine .inr (Tasks.forall_of_eraseIdx at_ ?_ fun o ho taken => free o ho ?_)
      · rw [Task.retires, sound.retired_eq_none early]
        exact Bool.false_ne_true
      · rw [holds]
        exact taken

end Apart

/-! ## Runs -/

variable {P : Account.Primitives} {s s' : State} {a : Action}

theorem Task.next_underway {t : Task} (h : t.next db now others = some t') : t.phase.underway := by
  rw [Task.next] at h
  cases hphase : t.phase with
  | done | refused | unanswered => rw [hphase] at h; cases h
  | _ => rfl

/-- What a step does. -/
inductive State.Change (s : State) (a : Action) : State → Prop where
  | around {new : State} (handles : new.db.handles = s.db.handles) (tasks : new.tasks = s.tasks)
      (commits : new.commits = s.commits) : Change s a new
  | started {t : Task} (early : t.phase.early) (waits : t.phase.retires = false)
      (retired : t.retired = none) (claimed : t.claimed = none) :
      Change s a { s with tasks := s.tasks ++ [t] }
  | moved {i : Nat} (at_ : s.tasks[i]? = some t) (underway : t.phase.underway)
      (move : t.Sound s.db.handles → t.Move s.db.handles (s.tasks.eraseIdx i) t') :
      Change s a { s with tasks := s.tasks.set i t' }
  | committed (at_ : s.tasks[i]? = some t) (committing : t.phase = .committing)
      (ends : phase = .done ∨ phase = .unanswered)
      (offTheEdge : s.offTheEdge a → t.kind.isRename → ∀ last,
        (renames s.commits t.account).getLast? = some last →
        t.began + 500000 < last + DAY ∨ last + DAY ≤ t.began) :
      Change s a (s.commit i t phase)

theorem State.receive_change (h : ∀ t, received = .ok t →
    t.phase.early ∧ t.phase.retires = false ∧ t.retired = none ∧ t.claimed = none) :
    s.Change a (s.receive received) := by
  cases received with
  | error => exact .around rfl rfl rfl
  | ok t =>
    obtain ⟨early, waits, retired, claimed⟩ := h t rfl
    exact .started early waits retired claimed

theorem State.offTheEdge_of {t : Task}
    (hg : (!t.kind.isRename || (renames s.commits t.account).getLast?.all fun last =>
      t.began + 500000 < last + DAY || last + DAY ≤ t.began) = true) (rename : t.kind.isRename)
    (hlast : (renames s.commits t.account).getLast? = some last) :
    t.began + 500000 < last + DAY ∨ last + DAY ≤ t.began := by
  rw [rename, Bool.not_true, Bool.false_or, hlast, Option.all_some, Bool.or_eq_true,
    decide_eq_true_eq, decide_eq_true_eq] at hg
  exact hg

theorem State.change (h : s.step P a = some s') : s.Change a s' := by
  cases a with
  | pass time =>
    obtain ⟨_, h⟩ := Option.ite_none_right_eq_some.1 h
    cases h
    exact .around rfl rfl rfl
  | register deviceId account =>
    obtain ⟨_, h⟩ := Option.ite_none_right_eq_some.1 h
    cases h
    exact .around rfl rfl rfl
  | createAccount handle identityKey =>
    cases h
    refine State.receive_change fun t ht => ?_
    obtain ⟨_, _, ht⟩ := Fallible.bind_eq_ok_iff.1 ht
    obtain ⟨key, _, ht⟩ := Fallible.bind_eq_ok_iff.1 ht
    split at ht <;> cases ht
    exact ⟨rfl, rfl, rfl, rfl⟩
  | renameAccount deviceId account handle =>
    cases h
    refine State.receive_change fun t ht => ?_
    obtain ⟨handle, _, ht⟩ := Fallible.bind_eq_ok_iff.1 ht
    obtain ⟨_, _, ht⟩ := Fallible.bind_eq_ok_iff.1 ht
    cases ht
    exact ⟨rfl, rfl, rfl, rfl⟩
  | statement i =>
    obtain ⟨t, at_, h⟩ := Option.bind_eq_some_iff.1 h
    obtain ⟨t', hn, h⟩ := Option.bind_eq_some_iff.1 h
    cases h
    exact .moved at_ (Task.next_underway hn) fun sound => sound.move hn
  | commit i =>
    obtain ⟨t, at_, h⟩ := Option.bind_eq_some_iff.1 h
    obtain ⟨committing, h⟩ := Option.ite_none_right_eq_some.1 h
    cases h
    refine .committed at_ committing (.inl rfl) fun hg rename last hlast => ?_
    rw [State.offTheEdge, at_] at hg
    exact State.offTheEdge_of hg rename hlast
  | lose i =>
    obtain ⟨t, at_, h⟩ := Option.bind_eq_some_iff.1 h
    obtain ⟨committing, h⟩ := Option.ite_none_right_eq_some.1 h
    cases h
    refine .committed at_ committing (.inr rfl) fun hg rename last hlast => ?_
    rw [State.offTheEdge, at_] at hg
    exact State.offTheEdge_of hg rename hlast
  | fail i =>
    obtain ⟨t, at_, h⟩ := Option.bind_eq_some_iff.1 h
    obtain ⟨underway, h⟩ := Option.ite_none_right_eq_some.1 h
    cases h
    exact .moved at_ underway fun _ => .refuse

/-- What holds of every server: the registry is what the commits have made of it, and an account
that was renamed answers to the name of its last rename. -/
structure Inv (s : State) : Prop where
  tasks : ∀ t ∈ s.tasks, t.Sound s.db.handles
  apart : Apart s.tasks
  registry : Registry s.db.handles
  given : s.db.handles.map (·.handle) = (given s.commits).map (·.1)
  replayed : s.db.handles = replay s.commits
  ended : ∀ c ∈ s.commits, ∃ t, s.tasks[c.index]? = some t ∧
    (t.phase = .done ∨ t.phase = .unanswered)
  last : ∀ account time, (renames s.commits account).getLast? = some time →
    ∃ x ∈ s.db.handles, x.liveOf account ∧ x.fromRename ∧ x.claimedAt = time

theorem given_concat (commits : List Commit) (c : Commit) : given (commits ++ [c]) =
    given commits ++ c.task.claimed.toList.map fun row => (row.handle, row.account) := by
  rw [given, List.flatMap_append, List.flatMap_singleton]
  rfl

theorem replay_concat (commits : List Commit) (c : Commit) :
    replay (commits ++ [c]) = c.task.handles (replay commits) := by
  rw [replay, List.foldl_append]
  rfl

theorem renames_concat (commits : List Commit) (c : Commit) (account : String) :
    renames (commits ++ [c]) account = renames commits account ++
      if c.task.kind.isRename ∧ c.task.account = account ∧ c.task.claimed.isSome then
        [c.task.began] else [] := by
  rw [renames, List.filter_append, List.map_append, renames, List.filter_cons, List.filter_nil]
  congr 1
  by_cases h : c.task.kind.isRename ∧ c.task.account = account ∧ c.task.claimed.isSome
  · rw [if_pos (decide_eq_true h), if_pos h]
    rfl
  · rw [if_neg (mt of_decide_eq_true h), if_neg h]
    rfl

/-- The name of an account's last rename is still its name after the commit of another request, or
the commit is its next rename. -/
theorem Task.Sound.last {rows : List HandleRow} {t : Task} {account : String} (h : t.Sound rows)
    (registry : Registry rows) (committing : t.phase = .committing) {x : HandleRow} (hx : x ∈ rows)
    (live : x.liveOf account) :
    x ∈ t.handles rows ∨ t.kind.isRename ∧ t.account = account ∧ t.claimed.isSome ∧
      t.retired = some x := by
  by_cases kept : t.retired.any (·.handle = x.handle)
  · obtain ⟨r, hr, same⟩ := (Option.any_eq_true _ _).1 kept
    obtain ⟨hmem, own, rename, _⟩ := h.retired r hr
    obtain rfl := registry.eq_of_handle hmem hx (of_decide_eq_true same)
    refine .inr ⟨rename, ?_, ?_, hr⟩
    · rw [HandleRow.liveOf, decide_eq_true_eq] at own live
      exact Option.some.inj (own.1.symm.trans live.1)
    · cases hc : t.claimed with
      | some => rfl
      | none =>
        have unretired := h.idle committing hc
        rw [hr] at unretired
        cases unretired
  · exact .inl ((Task.Sound.mem_handles_of_mem hx).2 kept)

namespace Inv

theorem of_initial (initial : s.Initial) : Inv s := by
  obtain ⟨handles, tasks, commits⟩ := initial
  refine ⟨fun t ht => ?_, ⟨fun _ => ?_, fun _ => ?_, fun _ => ?_⟩, ⟨?_, fun x hx => ?_⟩, ?_, ?_,
    fun c hc => ?_, fun _ _ hlast => ?_⟩
  · rw [tasks] at ht
    cases ht
  · rw [tasks]
    exact Tasks.Exclusive.of_none fun _ ht => by cases ht
  · rw [tasks]
    exact Tasks.Exclusive.of_none fun _ ht => by cases ht
  · rw [tasks]
    exact Tasks.Exclusive.of_none fun _ ht => by cases ht
  · rw [handles]
    exact List.nodup_nil
  · rw [handles] at hx
    cases hx
  · rw [handles, commits]
    rfl
  · rw [handles, commits]
    rfl
  · rw [commits] at hc
    cases hc
  · rw [commits] at hlast
    cases hlast

theorem commit (h : Inv s) (at_ : s.tasks[i]? = some t) (committing : t.phase = .committing)
    (ends : phase = .done ∨ phase = .unanswered) : Inv (s.commit i t phase) := by
  have sound := h.tasks t (List.mem_of_getElem? at_)
  have endsSo : phase.retires = false ∧ phase ≠ .committing := by
    rcases ends with rfl | rfl
    · exact ⟨rfl, fun hc => by cases hc⟩
    · exact ⟨rfl, fun hc => by cases hc⟩
  refine ⟨fun t' ht' => ?_, h.apart.finish at_ phase, h.registry.commit sound, ?_, ?_, ?_, ?_⟩
  · obtain ⟨j, hj⟩ := List.getElem?_of_mem ht'
    rcases (Tasks.getElem?_set_eq_some_iff at_).1 hj with ⟨_, rfl⟩ | ⟨other, hj⟩
    · exact Task.Sound.finish endsSo.1 endsSo.2
    -- No other transaction has written where this one has.
    · exact (h.tasks t' (List.mem_of_getElem? hj)).commit
        (fun n mine theirs => other (h.apart.names n hj at_ theirs mine))
        (fun a mine theirs => other (h.apart.accounts a hj at_ theirs mine))
        fun n mine theirs => other (h.apart.rows n hj at_ theirs mine)
  · rw [State.commit, given_concat, List.map_append, List.map_map]
    exact (Registry.handles_map t s.db.handles).trans (congrArg (· ++ _) h.given)
  · rw [State.commit, replay_concat]
    exact congrArg t.handles h.replayed
  · refine Tasks.forall_mem_concat (fun c hc => ?_) ?_
    · obtain ⟨t₀, at₀, ended⟩ := h.ended c hc
      refine ⟨t₀, (Tasks.getElem?_set_eq_some_iff at_).2 (.inr ⟨?_, at₀⟩), ended⟩
      rintro rfl
      rw [at₀] at at_
      cases at_
      rcases ended with ended | ended <;> rw [ended] at committing <;> cases committing
    · exact ⟨_, (Tasks.getElem?_set_eq_some_iff at_).2 (.inl ⟨rfl, rfl⟩), ends⟩
  · intro account time hlast
    rw [State.commit, renames_concat] at hlast
    split at hlast
    next renamed =>
      rw [List.getLast?_concat] at hlast
      cases hlast
      obtain ⟨row, hrow⟩ := Option.isSome_iff_exists.1 renamed.2.2
      obtain ⟨rfl, _⟩ := sound.claimed row hrow
      refine ⟨_, List.mem_append_right _ (Option.mem_toList.2 hrow), ?_, renamed.1, rfl⟩
      rw [HandleRow.liveOf, decide_eq_true_eq]
      exact ⟨congrArg some renamed.2.1, rfl⟩
    next same =>
      rw [List.append_nil] at hlast
      obtain ⟨x, hx, live, rest⟩ := h.last account time hlast
      rcases sound.last h.registry committing hx live with kept | ⟨rename, own, claimed, _⟩
      · exact ⟨x, kept, live, rest⟩
      · exact absurd ⟨rename, own, claimed⟩ same

theorem step (h : Inv s) (hs : s.step P a = some s') : Inv s' := by
  cases State.change hs with
  | around handles tasks commits =>
    obtain ⟨h₁, h₂, h₃, h₄, h₅, h₆, h₇⟩ := h
    exact ⟨handles ▸ tasks ▸ h₁, tasks ▸ h₂, handles ▸ h₃, handles ▸ commits ▸ h₄,
      handles ▸ commits ▸ h₅, tasks ▸ commits ▸ h₆, handles ▸ commits ▸ h₇⟩
  | started early waits retired claimed =>
    refine { h with
      tasks := Tasks.forall_mem_concat h.tasks ?_
      apart := h.apart.concat retired claimed
      ended := fun c hc => ?_ }
    · refine ⟨fun hr => ?_, fun hr => ?_, fun _ hr => ?_, fun _ hc => ?_, fun _ _ => retired⟩
      · rw [waits] at hr
        cases hr
      · rw [retired] at hr
        cases hr
      · rw [retired] at hr
        cases hr
      · rw [claimed] at hc
        cases hc
    · obtain ⟨t, at_, ended⟩ := h.ended c hc
      exact ⟨t, Tasks.getElem?_concat_eq_some_iff.2 (.inl at_), ended⟩
  | moved at_ underway move =>
    have sound := h.tasks _ (List.mem_of_getElem? at_)
    refine { h with
      tasks := Tasks.forall_mem_set h.tasks (sound.of_move (move sound))
      apart := h.apart.move at_ sound (move sound)
      ended := fun c hc => ?_ }
    obtain ⟨t₀, at₀, ended⟩ := h.ended c hc
    refine ⟨t₀, (Tasks.getElem?_set_eq_some_iff at_).2 (.inr ⟨?_, at₀⟩), ended⟩
    rintro rfl
    rw [at₀] at at_
    cases at_
    rcases ended with ended | ended <;> rw [ended] at underway <;> cases underway
  | committed at_ committing ends => exact h.commit at_ committing ends

end Inv

/-- Successive renames of one account begin a day apart. -/
def Spaced (s : State) : Prop :=
  ∀ account, (renames s.commits account).IsChain fun time next => time + DAY ≤ next

/-- The cooldown is measured in seconds, to the nearest. -/
theorem le_of_epoch {began claimed : Nat}
    (h : RENAME_COOLDOWN_SECONDS ≤ epoch ((began : Int) - claimed)) : claimed + DAY ≤ began + 500000 := by
  rw [RENAME_COOLDOWN_SECONDS, epoch] at h
  rw [DAY]
  split at h <;> omega

theorem Spaced.step (h : Spaced s) (inv : Inv s) (hg : s.offTheEdge a)
    (hs : s.step P a = some s') : Spaced s' := by
  cases State.change hs with
  | around _ _ commits =>
    rw [Spaced, commits]
    exact h
  | started | moved => exact h
  | @committed i t phase at_ committing ends offTheEdge =>
    intro account
    rw [State.commit, renames_concat]
    split
    next renamed =>
      obtain ⟨rename, rfl, claimed⟩ := renamed
      refine (h t.account).append (.singleton _) fun last hlast next hnext => ?_
      cases hnext
      -- The name of the last rename is the one retired, and the code has measured its age.
      have sound := inv.tasks t (List.mem_of_getElem? at_)
      obtain ⟨x, hx, live, renamed, rfl⟩ := inv.last t.account last hlast
      obtain ⟨row, hrow⟩ := Option.isSome_iff_exists.1 claimed
      have retired := (sound.claimed row hrow).2.2.2 x hx live
      obtain ⟨r, hr, same⟩ := (Option.any_eq_true _ _).1 retired
      obtain ⟨hmem, _, _, cooled⟩ := sound.retired r hr
      obtain rfl := inv.registry.eq_of_handle hmem hx (of_decide_eq_true same)
      have nearly := le_of_epoch (cooled renamed)
      rcases offTheEdge hg rename r.claimedAt hlast with early | late
      · omega
      · exact late
    · rw [List.append_nil]
      exact h account

/-- A refused request has committed nothing. -/
theorem Inv.not_committed (h : Inv s) (at_ : s.tasks[i]? = some t) (refused : t.phase = .refused e) :
    ∀ c ∈ s.commits, c.index ≠ i := by
  rintro c hc rfl
  obtain ⟨t', at', ended⟩ := h.ended c hc
  rw [at_] at at'
  cases at'
  rcases ended with ended | ended <;> rw [refused] at ended <;> cases ended

/-- A name is given once and for all, an account answers to one name at most, the registry is what
the commits have made of it and a refused request has none; and renames keep a day apart where none
begins within half a second of the end of the day. -/
theorem registry_kept (initial : s.Initial)
    (run : Reach (State.step P) (fun s a => s.offTheEdge a) s s') :
    ((given s'.commits).map (·.1)).Nodup ∧
      (∀ x ∈ s'.db.handles, ∀ y ∈ s'.db.handles, ∀ account,
        x.liveOf account → y.liveOf account → x = y) ∧
      (∀ account, (renames s'.commits account).IsChain fun time next => time + DAY ≤ next) ∧
      s'.db.handles = replay s'.commits ∧
      ∀ i t e, s'.tasks[i]? = some t → t.phase = .refused e → ∀ c ∈ s'.commits, c.index ≠ i := by
  have both : Inv s' ∧ Spaced s' := by
    induction run with
    | refl =>
      refine ⟨.of_initial initial, fun account => ?_⟩
      rw [initial.commits]
      exact .nil
    | tail _ hg hs ih => exact ⟨ih.1.step hs, ih.2.step ih.1 hg hs⟩
  obtain ⟨inv, spaced⟩ := both
  exact ⟨inv.given ▸ inv.registry.names, inv.registry.live, spaced, inv.replayed,
    fun _ _ _ at_ => inv.not_committed at_⟩

/-! ## Renames a day apart, and almost a day apart -/

/-- The digest of a key is the key. -/
def plain : Account.Primitives where
  sha256 key := key
  isVerifyingKey _ := true
  verify _ _ _ := true

def empty : State := ⟨0, ⟨[], [], [], [], fun _ => none⟩, [], []⟩

theorem empty_initial : empty.Initial := ⟨rfl, rfl, rfl⟩

def aliceKey : Bytes := List.replicate 32 1

def alice : String := Account.accountId plain aliceKey

/-- Alice has an account and a phone. -/
def signUp : List Action :=
  [.createAccount "alice" (Base64.encode aliceKey)] ++ List.replicate 6 (.statement 0) ++
    [.commit 0, .register "phone" alice]

/-- Her next request is a rename that goes through. -/
def renamed (request : Nat) (handle : String) : List Action :=
  [.renameAccount "phone" alice (some handle)] ++ List.replicate 5 (.statement request) ++
    [.commit request]

/-- Two renames a day apart; and one more, at once, that is refused. -/
def aDayApart : List Action :=
  signUp ++ renamed 1 "alice_b" ++ [.pass DAY] ++ renamed 2 "alice_c" ++
    [.renameAccount "phone" alice (some "alice_d")] ++ List.replicate 4 (.statement 3)

theorem registry_kept_aDayApart : ∃ s,
    Reach (State.step plain) (fun s a => s.offTheEdge a) empty s ∧
      renames s.commits alice = [0, DAY] ∧
      (((given s.commits).map (·.1)).Nodup ∧
        (∀ x ∈ s.db.handles, ∀ y ∈ s.db.handles, ∀ account,
          x.liveOf account → y.liveOf account → x = y) ∧
        (∀ account, (renames s.commits account).IsChain fun time next => time + DAY ≤ next) ∧
        s.db.handles = replay s.commits ∧
        ∀ i t e, s.tasks[i]? = some t → t.phase = .refused e → ∀ c ∈ s.commits, c.index ≠ i) := by
  have executed : (run (fun s a => if s.offTheEdge a then s.step plain a else none) empty
      aDayApart).map (fun s => renames s.commits alice) = some [0, DAY] := by decide +kernel
  obtain ⟨s, h, twice⟩ := Option.map_eq_some_iff.1 executed
  have reached : Reach (State.step plain) (fun s a => s.offTheEdge a) empty s :=
    reach_of_run_guarded h
  exact ⟨s, reached, twice, registry_kept empty_initial reached⟩

/-- The second rename begins half a second before the day is over. -/
def almostADayApart : List Action :=
  signUp ++ renamed 1 "alice_b" ++ [.pass (DAY - 500000)] ++ renamed 2 "alice_c"

theorem renamed_almost_a_day_apart : empty.Initial ∧ ∃ s,
    run (State.step plain) empty almostADayApart = some s ∧
      renames s.commits alice = [0, DAY - 500000] ∧
      ¬ (renames s.commits alice).IsChain fun time next => time + DAY ≤ next := by
  have executed : (run (State.step plain) empty almostADayApart).map
      (fun s => renames s.commits alice) = some [0, DAY - 500000] := by decide +kernel
  obtain ⟨s, h, twice⟩ := Option.map_eq_some_iff.1 executed
  refine ⟨empty_initial, s, h, twice, fun chain => ?_⟩
  rw [twice] at chain
  exact absurd ((List.isChain_cons_cons.1 chain).1) (by decide)

end Whispee.Server.Handles
