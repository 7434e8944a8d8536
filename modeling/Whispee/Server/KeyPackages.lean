import Whispee.Account.Resolve
import Whispee.Lib.Mvcc
import Whispee.Lib.Tasks
import Whispee.Lib.Transition
import Whispee.Server.Throttle

/-!
# The stock of key packages

`publish_key_packages`, `claim_key_package`, `key_package_stock` and `revoke_device` of
`crates/server/src/routes.rs`, and the deletion of `rotate_account`, over the table of
`migrations/0001_initial.sql`. A statement that goes over several rows takes them one at a time,
others in between; what it does is seen once it commits.
-/

namespace Whispee.Server.KeyPackages

open Account (Primitives)
open Auth (MAX_CLOCK_SKEW absDiff asSecs)
open Groups (decodeB64 json)
open Mvcc Transition

def MAX_KEY_PACKAGES_PER_REQUEST : Nat := 100

/-! ## The tables -/

/-- A row of `key_packages`. -/
structure Row where
  id : Nat
  deviceId : String
  payload : Bytes
  deriving DecidableEq

structure Device where
  account : String
  revokedAt : Option UInt64

structure Database where
  /-- `accounts.identity_key`, by id. -/
  identityKey : String → Option Bytes
  devices : String → Option Device
  packages : Table Row
  /-- What the sequence of `key_packages.id` returns next. -/
  nextId : Nat

/-- `SELECT COUNT(*) FROM key_packages WHERE device_id = $1`. -/
def stock (packages : Table Row) (deviceId : String) : Nat :=
  packages.countP fun u => u.xmin = none ∧ u.row.deviceId = deviceId

/-- The rows a statement that starts now has to look at, `ORDER BY id`. -/
def visible (packages : Table Row) (p : Row → Bool) : List Nat :=
  ((packages.filter fun u => u.xmin = none ∧ p u.row).map (·.row.id)).insertionSort (· ≤ ·)

/-- The row of this number, as far as nobody is deleting it. -/
def free? (packages : Table Row) (id : Nat) : Option (Tuple Row) :=
  packages.find? fun u => u.row.id = id ∧ u.Committed

/-- A statement under way deletes the row of this number. -/
def locked (packages : Table Row) (id : Nat) : Bool :=
  packages.any fun u => u.row.id = id ∧ !u.Committed

/-- The transaction deletes a row. -/
def mark (packages : Table Row) (x id : Nat) : Table Row :=
  packages.delete x fun u => u.row.id = id ∧ u.Committed

/-! ## One request -/

inductive Request where
  | publish (deviceId : String) (packages : List Bytes)
  | claim (caller target : String)
  | revoke (caller target : String) (revokedAt : UInt64) (revocation : Bytes)
  /-- `rotate_account`, from its deletion of key packages on. -/
  | rotate (caller account : String)
  deriving DecidableEq

/-- The rows a request deletes that takes none for itself. -/
def Request.purges (db : Database) : Request → Row → Bool
  | .revoke _ target _ _, row => row.deviceId = target
  | .rotate caller account, row =>
    (db.devices row.deviceId).any (·.account = account) ∧ row.deviceId ≠ caller
  | _, _ => false

/-- The statement a request sends next, or how it has ended. -/
inductive Phase where
  /-- `INSERT INTO key_packages`, some of the rows inserted. -/
  | inserting (inserted : List Row) (rest : List Bytes)
  /-- Whether the target is revoked. -/
  | checking
  /-- `DELETE FROM key_packages ... RETURNING`: it starts, looks for a row nobody has locked, and
  has found one. -/
  | selecting
  | scanning (candidates : List Nat)
  | deleting (row : Row)
  /-- The stock left behind. -/
  | counting (row : Row)
  | answered (package : String) (remaining : Nat)
  /-- The target's account and its key, then the caller's account. -/
  | finding
  | calling (account : String) (identityKey : Bytes)
  /-- `UPDATE devices SET revoked_at`. -/
  | recording
  /-- `DELETE FROM key_packages`: it starts, and goes over the rows it has seen. -/
  | clearing
  | purging (marked : List Row) (rest : List Nat)
  | done
  | refused (error : ApiError)

namespace Phase

/-- What the statement under way inserts. -/
@[simp] def inserted : Phase → List Row
  | .inserting rows _ => rows
  | _ => []

/-- The row it takes for the caller. -/
@[simp] def taken : Phase → List Row
  | .deleting row => [row]
  | _ => []

/-- The rows it deletes for nobody. -/
@[simp] def marked : Phase → List Row
  | .purging rows _ => rows
  | _ => []

def underway : Phase → Bool
  | .done | .refused _ | .answered _ _ => false
  | _ => true

/-- The statement has gone over all its rows, and what follows once it has committed. -/
def committed : Phase → Option Phase
  | .inserting _ [] | .purging _ [] => some .done
  | .deleting row => some (.counting row)
  | _ => none

/-- A claim has found its target not revoked. -/
def pastCheck : Phase → Bool
  | .selecting | .scanning _ | .deleting _ => true
  | _ => false

end Phase

/-- What a request begins with. -/
def Request.start : Request → Phase
  | .publish _ packages => .inserting [] packages
  | .claim _ _ => .checking
  | .revoke _ _ _ _ => .finding
  | .rotate _ _ => .clearing

structure Task where
  request : Request
  phase : Phase
  /-- When it came in. -/
  since : Nat

/-- `publish_key_packages`, what it checks of the body. -/
def publishKeyPackages (packages : Option (List String)) : Except ApiError (List Bytes) := do
  let packages ← json packages
  if packages.isEmpty then .error (.badRequest "no key package provided")
  else if packages.length > MAX_KEY_PACKAGES_PER_REQUEST then
    .error (.badRequest "too many key packages in one request")
  else packages.mapM decodeB64

/-- `revoke_device`, what it checks of the body. -/
def revokeDevice (body : Option (UInt64 × String)) (now : Nat) : Except ApiError (UInt64 × Bytes) := do
  let (revokedAt, revocation) ← json body
  let revocation ← decodeB64 revocation
  if absDiff (asSecs now) revokedAt.toNat > MAX_CLOCK_SKEW then
    .error (.badRequest "revocation timestamp outside the window")
  else .ok (revokedAt, revocation)

/-- The next statement of a request, or the next row of one, unless it has to wait. -/
def next (P : Primitives) (db : Database) (x : Nat) (request : Request) :
    Phase → Option (Database × Phase)
  | .inserting rows (payload :: rest) =>
    match request with
    | .publish deviceId _ =>
      let row : Row := ⟨db.nextId, deviceId, payload⟩
      some ({ db with packages := db.packages.insert x db.nextId row, nextId := db.nextId + 1 },
        .inserting (rows ++ [row]) rest)
    | _ => none
  | .checking =>
    match request with
    | .claim _ target =>
      if (db.devices target).any (·.revokedAt.isSome) then some (db, .refused .notFound)
      else some (db, .selecting)
    | _ => none
  | .selecting =>
    match request with
    | .claim _ target => some (db, .scanning (visible db.packages (·.deviceId = target)))
    | _ => none
  | .scanning [] => some (db, .refused .notFound)
  | .scanning (id :: rest) =>
    match request, free? db.packages id with
    | .claim _ target, some u =>
      if u.row.deviceId = target then
        some ({ db with packages := mark db.packages x id }, .deleting u.row)
      else some (db, .scanning rest)
    -- `SKIP LOCKED`, or the row is gone.
    | _, _ => some (db, .scanning rest)
  | .counting row => some (db, .answered (Base64.encode row.payload) (stock db.packages row.deviceId))
  | .finding =>
    match request with
    | .revoke _ target _ _ =>
      match (db.devices target).bind fun d => (db.identityKey d.account).map (d.account, ·) with
      | some (account, identityKey) => some (db, .calling account identityKey)
      | none => some (db, .refused .notFound)
    | _ => none
  | .calling account identityKey =>
    match request with
    | .revoke caller target revokedAt revocation =>
      if (db.devices caller).map (·.account) ≠ some account then some (db, .refused .forbidden)
      else match Account.verifyRevocation P identityKey ⟨account, target, revokedAt⟩ revocation with
        | .ok () => some (db, .recording)
        | .error _ => some (db, .refused .forbidden)
    | _ => none
  | .recording =>
    match request with
    | .revoke _ target revokedAt _ =>
      let revoke (d : Device) : Device :=
        if d.revokedAt.isSome then d else { d with revokedAt := some revokedAt }
      some ({ db with devices := Function.update db.devices target ((db.devices target).map revoke) },
        .clearing)
    | _ => none
  | .clearing => some (db, .purging [] (visible db.packages (request.purges db)))
  | .purging rows (id :: rest) =>
    if locked db.packages id then none
    else match free? db.packages id with
      | some u =>
        some ({ db with packages := mark db.packages x id }, .purging (rows ++ [u.row]) rest)
      | none => some (db, .purging rows rest)
  | _ => none

/-! ## The server -/

structure State where
  time : Nat
  db : Database
  claims : Served
  writes : Throttle
  tasks : List Task
  /-- The rows published, the rows handed out and to which request, the rows deleted otherwise. -/
  published : List Row
  handed : List (Nat × Row)
  purged : List Row

inductive Action where
  | pass (time : Nat)
  /-- An account is created, or its key changed. -/
  | identify (account : String) (key : Bytes)
  | register (deviceId account : String)
  | publish (deviceId : String) (packages : Option (List String))
  | claim (caller target : String)
  | revoke (caller target : String) (body : Option (UInt64 × String))
  | rotate (caller account : String)
  /-- The next statement of a request takes effect, or goes over one more row. -/
  | statement (task : Nat)
  /-- A statement commits. -/
  | commit (task : Nat)
  /-- It commits, and the connection is lost. -/
  | lose (task : Nat)
  /-- A statement fails, or its request goes away. -/
  | fail (task : Nat)

namespace State

def receive (s : State) (request : Request) : State :=
  { s with tasks := s.tasks ++ [⟨request, request.start, s.time⟩] }

def commit (s : State) (i : Nat) (t : Task) (phase : Phase) : State :=
  { s with
    db := { s.db with packages := s.db.packages.commit i }
    tasks := s.tasks.set i { t with phase }
    published := s.published ++ t.phase.inserted
    handed := s.handed ++ t.phase.taken.map (i, ·)
    purged := s.purged ++ t.phase.marked }

def rollback (s : State) (i : Nat) (t : Task) : State :=
  { s with
    db := { s.db with packages := s.db.packages.rollback i }
    tasks := s.tasks.set i { t with phase := .refused .database } }

def step (P : Primitives) (s : State) : Action → Option State
  | .pass time => if s.time ≤ time then some { s with time } else none
  | .identify account key =>
    some { s with db := { s.db with
      identityKey := Function.update s.db.identityKey account (some key) } }
  | .register deviceId account =>
    if (s.db.devices deviceId).isSome then none
    else some { s with db := { s.db with
      devices := Function.update s.db.devices deviceId (some ⟨account, none⟩) } }
  | .publish deviceId packages =>
    let (allowed, writes) := s.writes.allows deviceId s.time
    let s := { s with writes }
    if allowed then
      match publishKeyPackages packages with
      | .ok packages => some (s.receive (.publish deviceId packages))
      | .error _ => some s
    else some s
  | .claim caller target =>
    let call : Call := ⟨claimKey (caller, target), s.time⟩
    let claims := s.claims.call call
    let allowed := (s.claims.throttle.allows call.key call.at_).1
    let s := { s with claims }
    some (if allowed then s.receive (.claim caller target) else s)
  | .revoke caller target body =>
    match revokeDevice body s.time with
    | .ok (revokedAt, revocation) => some (s.receive (.revoke caller target revokedAt revocation))
    | .error _ => some s
  | .rotate caller account => some (s.receive (.rotate caller account))
  | .statement i => do
    let t ← s.tasks[i]?
    let (db, phase) ← next P s.db i t.request t.phase
    some { s with db, tasks := s.tasks.set i { t with phase } }
  | .commit i => do
    let t ← s.tasks[i]?
    let phase ← t.phase.committed
    some (s.commit i t phase)
  | .lose i => do
    let t ← s.tasks[i]?
    let _ ← t.phase.committed
    some (s.commit i t (.refused .database))
  | .fail i => do
    let t ← s.tasks[i]?
    if t.phase.underway then some (s.rollback i t) else none

/-- The server at its first start. -/
structure Initial (quota : UInt32) (s : State) : Prop where
  packages : s.db.packages = []
  claims : s.claims = ⟨.perMinute quota, []⟩
  tasks : s.tasks = []
  published : s.published = []
  handed : s.handed = []
  purged : s.purged = []

end State

/-! ## What a statement does to the table -/

theorem free?_eq_some (h : free? packages n = some u) :
    u ∈ packages ∧ u.row.id = n ∧ u.Committed := by
  have hfound := List.find?_some h
  rw [decide_eq_true_eq] at hfound
  exact ⟨List.mem_of_find?_eq_some h, hfound⟩

theorem filter_free {packages : Table Row} (distinct : (packages.map (·.row.id)).Nodup)
    (h : free? packages n = some u) :
    packages.filter (fun u => u.row.id = n ∧ u.Committed) = [u] := by
  obtain ⟨hu, hid, hcommitted⟩ := free?_eq_some h
  induction packages with
  | nil => cases hu
  | cons v packages ih =>
    rw [List.map_cons, List.nodup_cons] at distinct
    rcases List.mem_cons.1 hu with rfl | hu
    · have others : ∀ v ∈ packages, ¬ (v.row.id = n ∧ v.Committed) := by
        rintro v hv ⟨hv', _⟩
        exact distinct.1 (List.mem_map.2 ⟨v, hv, hv'.trans hid.symm⟩)
      rw [List.filter_cons, if_pos (by simp [hid, hcommitted])]
      rw [List.filter_eq_nil_iff.2 fun v hv => by simpa using others v hv]
    · have apart : v.row.id ≠ n := by
        rintro rfl
        exact distinct.1 (List.mem_map.2 ⟨u, hu, hid⟩)
      rw [List.filter_cons_of_neg (by simp [apart])]
      refine ih distinct.2 ?_ hu
      rwa [free?, List.find?_cons_of_neg (by simp [apart])] at h

theorem ids_mark : (mark packages x n).map (·.row.id) = packages.map (·.row.id) := by
  rw [mark, Table.delete, List.map_map]
  refine List.map_congr_left fun u _ => ?_
  simp only [Function.comp_apply]
  split <;> rfl

theorem ids_commit {packages : Table Row} :
    ((packages.commit x).map (·.row.id)).Sublist (packages.map (·.row.id)) := by
  rw [Table.commit, List.map_map]
  have same : ((fun u : Tuple Row => u.row.id) ∘
      fun u => if u.xmin = some x then { u with xmin := none } else u) = (·.row.id) := by
    funext u
    simp only [Function.comp_apply]
    split <;> rfl
  rw [same]
  exact List.filter_sublist.map _

theorem ids_rollback {packages : Table Row} :
    ((packages.rollback x).map (·.row.id)).Sublist (packages.map (·.row.id)) := by
  rw [Table.rollback, List.map_map]
  have same : ((fun u : Tuple Row => u.row.id) ∘
      fun u => if u.xmax = some x then { u with xmax := none } else u) = (·.row.id) := by
    funext u
    simp only [Function.comp_apply]
    split <;> rfl
  rw [same]
  exact List.filter_sublist.map _

/-- What a step of a request does to the rows. -/
inductive Next (db : Database) (x : Nat) (request : Request) : Phase → Database → Phase → Prop where
  /-- It reads, or writes elsewhere. -/
  | passes (packages : db'.packages = db.packages) (nextId : db'.nextId = db.nextId)
      (inserted : phase'.inserted = phase.inserted) (taken : phase'.taken = phase.taken)
      (marked : phase'.marked = phase.marked) : Next db x request phase db' phase'
  | inserts (isPublish : request = .publish deviceId packages) :
      Next db x request (.inserting rows (payload :: rest))
        { db with
          packages := db.packages.insert x db.nextId ⟨db.nextId, deviceId, payload⟩
          nextId := db.nextId + 1 }
        (.inserting (rows ++ [⟨db.nextId, deviceId, payload⟩]) rest)
  | takes (isClaim : request = .claim caller u.row.deviceId) (free : free? db.packages n = some u) :
      Next db x request (.scanning (n :: rest)) { db with packages := mark db.packages x n }
        (.deleting u.row)
  | marks (free : free? db.packages n = some u) :
      Next db x request (.purging rows (n :: rest)) { db with packages := mark db.packages x n }
        (.purging (rows ++ [u.row]) rest)

theorem next_spec (h : next P db x request phase = some (db', phase')) :
    Next db x request phase db' phase' := by
  revert h
  fun_cases next P db x request phase <;> intro h <;> cases h <;>
    first
    | exact .passes rfl rfl rfl rfl rfl
    | exact .inserts rfl
    | exact .takes rfl ‹_›
    | exact .marks ‹_›

/-! ## The ledger -/

/-- What the statement under way adds to the weight of the table. -/
def Task.owed (w : Row → Int) (t : Task) : Int :=
  (t.phase.inserted.map w).sum - (t.phase.taken.map w).sum - (t.phase.marked.map w).sum

def owedBy (tasks : List Task) (w : Row → Int) (x : Nat) : Int := (tasks[x]?).elim 0 (·.owed w)

theorem owedBy_set (at_ : tasks[i]? = some old) (new : Task) (w : Row → Int) (x : Nat) :
    owedBy (tasks.set i new) w x = if x = i then new.owed w else owedBy tasks w x := by
  have inRange : i < tasks.length := (List.getElem?_eq_some_iff.1 at_).1
  rw [owedBy, List.getElem?_set]
  by_cases h : i = x
  · subst h
    simp [inRange]
  · simp [h, Ne.symm h, owedBy]

theorem owedBy_concat (h : new.owed w = 0) (x : Nat) :
    owedBy (tasks ++ [new]) w x = owedBy tasks w x := by
  unfold owedBy
  rcases Nat.lt_trichotomy x tasks.length with hx | rfl | hx
  · rw [List.getElem?_append_left hx]
  · simp [h]
  · rw [List.getElem?_eq_none (by simp; omega), List.getElem?_eq_none (Nat.le_of_lt hx)]

/-- The rows inserted and not yet committed. -/
def drafts (tasks : List Task) : List Row := tasks.flatMap (·.phase.inserted)

theorem drafts_concat {phase : Phase} (h : phase.inserted = []) :
    drafts (tasks ++ [⟨request, phase, since⟩]) = drafts tasks := by
  rw [drafts, List.flatMap_append, List.flatMap_singleton, h, List.append_nil]
  rfl

theorem drafts_set_perm (at_ : tasks[i]? = some t) (phase : Phase) :
    (phase.inserted ++ drafts tasks).Perm
      (t.phase.inserted ++ drafts (tasks.set i { t with phase })) :=
  Tasks.flatMap_set_perm (f := fun t : Task => t.phase.inserted) at_ { t with phase }

theorem drafts_insert (at_ : tasks[i]? = some ⟨request, .inserting rows rest, since⟩) :
    (drafts (tasks.set i ⟨request, .inserting (rows ++ [row]) rest', since⟩)).Perm
      (row :: drafts tasks) := by
  refine (List.perm_append_left_iff rows).1 ?_
  refine (drafts_set_perm at_ _).symm.trans ?_
  simp [Phase.inserted]

theorem drafts_set {phase : Phase} (at_ : tasks[i]? = some t) (h : phase.inserted = t.phase.inserted) :
    (drafts (tasks.set i { t with phase })).Perm (drafts tasks) := by
  refine (List.perm_append_left_iff t.phase.inserted).1 ?_
  refine (drafts_set_perm at_ _).symm.trans ?_
  rw [h]

theorem Request.inserted_start (request : Request) : request.start.inserted = [] := by
  cases request <;> rfl

theorem owed_start {request : Request} (w : Row → Int) :
    Task.owed w ⟨request, request.start, since⟩ = 0 := by
  cases request <;> rfl

/-- The table and the statements under way agree with what has been published and taken. -/
structure Ledger (s : State) : Prop where
  wf : s.db.packages.Wf
  distinct : (s.db.packages.map (·.row.id)).Nodup
  fresh : ∀ n ∈ s.db.packages.map (·.row.id), n < s.db.nextId
  pending : ∀ w x, s.db.packages.pending w x = owedBy s.tasks w x
  kept : ∀ w : Row → Int, (s.published.map w).sum =
    s.db.packages.kept w + ((s.handed.map (·.2)).map w).sum + (s.purged.map w).sum
  numbered : ((s.published ++ drafts s.tasks).map (·.id)).Nodup
  below : ∀ row ∈ s.published ++ drafts s.tasks, row.id < s.db.nextId

theorem State.Initial.ledger (h : State.Initial quota s) : Ledger s where
  wf := by simp [h.packages, Table.Wf]
  distinct := by simp [h.packages]
  fresh := by simp [h.packages]
  pending w x := by simp [h.packages, h.tasks, Table.pending, owedBy]
  kept w := by simp [h.packages, h.published, h.handed, h.purged, Table.kept]
  numbered := by simp [h.published, h.tasks, drafts]
  below := by simp [h.published, h.tasks, drafts]

namespace Ledger

theorem receive (h : Ledger s) (request : Request) : Ledger (s.receive request) where
  wf := h.wf
  distinct := h.distinct
  fresh := h.fresh
  pending w x := (h.pending w x).trans (owedBy_concat (owed_start w) x).symm
  kept := h.kept
  numbered := by simpa only [State.receive, drafts_concat request.inserted_start] using h.numbered
  below := by simpa only [State.receive, drafts_concat request.inserted_start] using h.below

/-- The rows of the table are no matter of what else the server keeps. -/
theorem congr (h : Ledger s) (packages : s'.db.packages = s.db.packages)
    (nextId : s'.db.nextId = s.db.nextId) (tasks : s'.tasks = s.tasks)
    (published : s'.published = s.published) (handed : s'.handed = s.handed)
    (purged : s'.purged = s.purged) : Ledger s' := by
  constructor
  all_goals simp only [packages, nextId, tasks, published, handed, purged]
  exacts [h.wf, h.distinct, h.fresh, h.pending, h.kept, h.numbered, h.below]

/-- What a step of a request does to the table is what it then owes. -/
theorem pending_next (h : Ledger s) (at_ : s.tasks[i]? = some ⟨request, phase, since⟩)
    (hnext : Next s.db i request phase db' phase') (w : Row → Int) (x : Nat) :
    db'.packages.pending w x = owedBy (s.tasks.set i ⟨request, phase', since⟩) w x := by
  have hown : s.db.packages.pending w i = Task.owed w ⟨request, phase, since⟩ := by
    rw [h.pending, owedBy, at_]
    rfl
  have hother := h.pending w x
  rw [owedBy_set at_]
  cases hnext with
  | passes packages _ inserted taken marked =>
    rw [packages]
    split
    next hx => rw [hx, hown, Task.owed, Task.owed, inserted, taken, marked]
    next => exact hother
  | inserts =>
    split
    next hx =>
      rw [hx, Table.pending_insert, hown]
      simp [Task.owed]
    next hx => rw [Table.pending_insert_of_ne hx, hother]
  | takes _ free =>
    split
    next hx =>
      rw [hx, mark, Table.pending_delete (by simp), filter_free h.distinct free, hown]
      simp [Task.owed]
    next hx => rw [mark, Table.pending_delete_of_ne (by simp) hx, hother]
  | marks free =>
    split
    next hx =>
      rw [hx, mark, Table.pending_delete (by simp), filter_free h.distinct free, hown]
      simp [Task.owed]
      omega
    next hx => rw [mark, Table.pending_delete_of_ne (by simp) hx, hother]

/-- A row is marked for deletion. -/
theorem mark (h : Ledger s) (at_ : s.tasks[i]? = some ⟨request, phase, since⟩)
    (inserted : phase'.inserted = phase.inserted)
    (pending : ∀ w x, (mark s.db.packages i n).pending w x =
      owedBy (s.tasks.set i ⟨request, phase', since⟩) w x) :
    Ledger { s with
      db := { s.db with packages := KeyPackages.mark s.db.packages i n }
      tasks := s.tasks.set i ⟨request, phase', since⟩ } where
  wf := h.wf.delete (by simp)
  distinct := by simpa only [ids_mark] using h.distinct
  fresh := by simpa only [ids_mark] using h.fresh
  pending := pending
  kept w := by simpa only [KeyPackages.mark, Table.kept_delete] using h.kept w
  numbered := (((drafts_set at_ inserted).append_left s.published).map _).nodup_iff.2 h.numbered
  below := by
    simpa only [((drafts_set at_ inserted).append_left s.published).mem_iff] using h.below

theorem next (h : Ledger s) (at_ : s.tasks[i]? = some ⟨request, phase, since⟩)
    (hnext : Next s.db i request phase db' phase') :
    Ledger { s with db := db', tasks := s.tasks.set i ⟨request, phase', since⟩ } := by
  have hpending := h.pending_next at_ hnext
  cases hnext with
  | passes packages nextId inserted =>
    have hdrafts := (drafts_set at_ inserted).append_left s.published
    constructor
    · simpa only [packages] using h.wf
    · simpa only [packages] using h.distinct
    · simpa only [packages, nextId] using h.fresh
    · exact hpending
    · simpa only [packages] using h.kept
    · exact (hdrafts.map _).nodup_iff.2 h.numbered
    · simpa only [nextId, hdrafts.mem_iff] using h.below
  | @inserts deviceId _ rows payload rest =>
    let row : Row := ⟨s.db.nextId, deviceId, payload⟩
    have hids : (s.db.packages.insert i s.db.nextId row).map (·.row.id) =
        s.db.packages.map (·.row.id) ++ [s.db.nextId] := by simp [Table.insert, row]
    have hdrafts : (s.published ++ drafts (s.tasks.set i
        ⟨request, .inserting (rows ++ [row]) rest, since⟩)).Perm
          (row :: (s.published ++ drafts s.tasks)) :=
      ((drafts_insert at_).append_left _).trans List.perm_middle
    constructor
    · exact h.wf.insert
    · simp only [row] at hids
      rw [hids, List.nodup_append_comm, List.singleton_append, List.nodup_cons]
      exact ⟨fun hmem => Nat.lt_irrefl _ (h.fresh _ hmem), h.distinct⟩
    · intro n hn
      rw [hids, List.mem_append, List.mem_singleton] at hn
      rcases hn with hn | rfl
      · exact Nat.lt_succ_of_lt (h.fresh n hn)
      · exact Nat.lt_succ_self _
    · exact hpending
    · simpa only [Table.kept_insert] using h.kept
    · rw [(hdrafts.map _).nodup_iff, List.map_cons, List.nodup_cons]
      refine ⟨fun hmem => ?_, h.numbered⟩
      obtain ⟨row', hrow', hid⟩ := List.mem_map.1 hmem
      exact Nat.ne_of_lt (h.below row' hrow') hid
    · intro row' hrow'
      rcases List.mem_cons.1 (hdrafts.mem_iff.1 hrow') with rfl | hrow'
      · exact Nat.lt_succ_self _
      · exact Nat.lt_succ_of_lt (h.below row' hrow')
  | takes => exact h.mark at_ rfl hpending
  | marks => exact h.mark at_ rfl hpending

theorem pending_own (h : Ledger s) (at_ : s.tasks[i]? = some t) (w : Row → Int) :
    s.db.packages.pending w i = t.owed w := by
  rw [h.pending, owedBy, at_]
  rfl

theorem commit (h : Ledger s) (at_ : s.tasks[i]? = some t) (hinserted : phase.inserted = [])
    (howed : ∀ w, Task.owed w { t with phase } = 0) : Ledger (s.commit i t phase) := by
  have hdrafts : (drafts s.tasks).Perm (t.phase.inserted ++ drafts (s.tasks.set i { t with phase })) := by
    have perm := drafts_set_perm at_ phase
    rwa [hinserted, List.nil_append] at perm
  have hpublished : ((s.published ++ t.phase.inserted) ++ drafts (s.tasks.set i { t with phase })).Perm
      (s.published ++ drafts s.tasks) := by
    rw [List.append_assoc]
    exact hdrafts.symm.append_left _
  constructor
  · exact h.wf.commit
  · exact h.distinct.sublist ids_commit
  · exact fun n hn => h.fresh n (ids_commit.subset hn)
  · intro w x
    refine Eq.trans ?_ (owedBy_set at_ _ w x).symm
    split
    next hx =>
      subst hx
      rw [howed]
      exact Table.pending_eq_zero Table.not_marked_commit
    next hx => exact (Table.pending_commit_of_ne h.wf hx).trans (h.pending w x)
  · intro w
    have hkept := h.kept w
    have hown := h.pending_own at_ w
    have hhanded : (s.handed ++ t.phase.taken.map (i, ·)).map (·.2) =
        s.handed.map (·.2) ++ t.phase.taken := by simp
    simp only [State.commit, hhanded, Table.kept_commit h.wf, List.map_append, List.sum_append]
      at hkept ⊢
    rw [Task.owed] at hown
    omega
  · exact (hpublished.map _).nodup_iff.2 h.numbered
  · exact fun row hrow => h.below row (hpublished.mem_iff.1 hrow)

theorem rollback (h : Ledger s) (at_ : s.tasks[i]? = some t) : Ledger (s.rollback i t) := by
  have hdrafts : (drafts s.tasks).Perm
      (t.phase.inserted ++ drafts (s.tasks.set i { t with phase := .refused .database })) :=
    drafts_set_perm at_ (.refused .database)
  have hleft : (s.published ++ drafts (s.tasks.set i { t with phase := .refused .database })).Sublist
      (s.published ++ (t.phase.inserted ++
        drafts (s.tasks.set i { t with phase := .refused .database }))) :=
    (List.sublist_append_right _ _).append_left _
  have hall := hdrafts.append_left s.published
  constructor
  · exact h.wf.rollback
  · exact h.distinct.sublist ids_rollback
  · exact fun n hn => h.fresh n (ids_rollback.subset hn)
  · intro w x
    refine Eq.trans ?_ (owedBy_set at_ _ w x).symm
    split
    next hx =>
      subst hx
      exact Table.pending_eq_zero Table.not_marked_rollback
    next hx => exact (Table.pending_rollback_of_ne h.wf hx).trans (h.pending w x)
  · intro w
    simpa only [State.rollback, Table.kept_rollback] using h.kept w
  · exact ((hall.map _).nodup_iff.1 h.numbered).sublist (hleft.map _)
  · exact fun row hrow => h.below row (hall.mem_iff.2 (hleft.subset hrow))

end Ledger

/-! ## What a step does -/

/-- A request comes in, a claim counted and admitted. -/
def Request.counts (s : State) (claims : Served) : Request → Prop
  | .claim caller target => claims = s.claims.call ⟨claimKey (caller, target), s.time⟩ ∧
      (s.claims.throttle.allows (claimKey (caller, target)) s.time).1
  | _ => claims = s.claims

inductive Moves (P : Primitives) (s : State) : State → Prop where
  /-- It leaves the requests alone. -/
  | aside (kept : ∀ deviceId device, s.db.devices deviceId = some device →
        devices deviceId = some device) (later : s.time ≤ time)
      (counts : claims = s.claims ∨ ∃ key, claims = s.claims.call ⟨key, s.time⟩) :
      Moves P s { s with time, claims, writes, db := { s.db with identityKey, devices } }
  | receives (writes : Throttle) (counts : Request.counts s claims request) :
      Moves P s ({ s with claims, writes }.receive request)
  | advances (at_ : s.tasks[i]? = some ⟨request, phase, since⟩)
      (next : next P s.db i request phase = some (db, phase')) :
      Moves P s { s with db, tasks := s.tasks.set i ⟨request, phase', since⟩ }
  | commits (at_ : s.tasks[i]? = some t) (committed : t.phase.committed = some phase)
      (after : phase' = phase ∨ phase' = .refused .database) : Moves P s (s.commit i t phase')
  | rollsBack (at_ : s.tasks[i]? = some t) (underway : t.phase.underway) : Moves P s (s.rollback i t)

theorem step_cases {s : State} (h : s.step P a = some s') : Moves P s s' := by
  have hsame : ∀ id device, s.db.devices id = some device → s.db.devices id = some device :=
    fun _ _ h => h
  cases a with
  | pass time =>
    simp only [State.step, Option.ite_none_right_eq_some] at h
    cases h.2
    exact .aside hsame h.1 (.inl rfl)
  | identify account key =>
    cases h
    exact .aside hsame (Nat.le_refl _) (.inl rfl)
  | register deviceId account =>
    simp only [State.step, Option.ite_none_left_eq_some, Bool.not_eq_true] at h
    cases h.2
    refine .aside (fun id device hd => ?_) (Nat.le_refl _) (.inl rfl)
    rw [Function.update_of_ne, hd]
    rintro rfl
    simp [hd] at h
  | publish deviceId packages =>
    simp only [State.step] at h
    split at h
    · split at h <;> cases h
      · exact .receives _ rfl
      · exact .aside hsame (Nat.le_refl _) (.inl rfl)
    · cases h
      exact .aside hsame (Nat.le_refl _) (.inl rfl)
  | claim caller target =>
    simp only [State.step] at h
    split at h <;> cases h
    · exact .receives _ ⟨rfl, ‹_›⟩
    · exact .aside hsame (Nat.le_refl _) (.inr ⟨_, rfl⟩)
  | revoke caller target body =>
    simp only [State.step] at h
    split at h <;> cases h
    · exact .receives _ rfl
    · exact .aside hsame (Nat.le_refl _) (.inl rfl)
  | rotate caller account =>
    cases h
    exact .receives _ rfl
  | statement i =>
    obtain ⟨⟨request, phase, since⟩, at_, h⟩ := Option.bind_eq_some_iff.1 h
    obtain ⟨⟨db, phase'⟩, hnext, h⟩ := Option.bind_eq_some_iff.1 h
    cases h
    exact .advances at_ hnext
  | commit i =>
    obtain ⟨t, at_, h⟩ := Option.bind_eq_some_iff.1 h
    obtain ⟨phase, hcommitted, h⟩ := Option.bind_eq_some_iff.1 h
    cases h
    exact .commits at_ hcommitted (.inl rfl)
  | lose i =>
    obtain ⟨t, at_, h⟩ := Option.bind_eq_some_iff.1 h
    obtain ⟨phase, hcommitted, h⟩ := Option.bind_eq_some_iff.1 h
    cases h
    exact .commits at_ hcommitted (.inr rfl)
  | fail i =>
    obtain ⟨t, at_, h⟩ := Option.bind_eq_some_iff.1 h
    split at h
    next hunderway =>
      cases h
      exact .rollsBack at_ hunderway
    next => cases h

theorem Phase.committed_cases {old : Phase} (h : old.committed = some phase) :
    (∃ rows, old = .inserting rows [] ∧ phase = .done) ∨
      (∃ rows, old = .purging rows [] ∧ phase = .done) ∨
      ∃ row, old = .deleting row ∧ phase = .counting row := by
  revert h
  fun_cases Phase.committed old <;> intro h <;> cases h
  · exact .inl ⟨_, rfl, rfl⟩
  · exact .inr (.inl ⟨_, rfl, rfl⟩)
  · exact .inr (.inr ⟨_, rfl, rfl⟩)

theorem Phase.owes_nothing_of_committed {old : Phase} (h : old.committed = some phase)
    (after : phase' = phase ∨ phase' = .refused .database) :
    phase'.inserted = [] ∧ phase'.taken = [] ∧ phase'.marked = [] := by
  rcases after with rfl | rfl
  · rcases committed_cases h with ⟨_, _, rfl⟩ | ⟨_, _, rfl⟩ | ⟨_, _, rfl⟩ <;> exact ⟨rfl, rfl, rfl⟩
  · exact ⟨rfl, rfl, rfl⟩

theorem Ledger.step (h : Ledger s) (hstep : s.step P a = some s') : Ledger s' := by
  cases step_cases hstep with
  | aside => exact h.congr rfl rfl rfl rfl rfl rfl
  | @receives claims request writes =>
    exact (h.congr rfl rfl rfl rfl rfl rfl : Ledger { s with claims, writes }).receive request
  | advances at_ hnext => exact h.next at_ (next_spec hnext)
  | commits at_ hcommitted after =>
    obtain ⟨inserted, taken, marked⟩ := Phase.owes_nothing_of_committed hcommitted after
    refine h.commit at_ inserted fun w => ?_
    rw [Task.owed, inserted, taken, marked]
    rfl
  | rollsBack at_ => exact h.rollback at_

/-! ## Who gets what -/

/-- A claim whose row is deleted, or that has got none. -/
def Phase.over : Phase → Bool
  | .counting _ | .answered _ _ | .refused _ => true
  | _ => false

/-- What a request that stands here has done. -/
def Task.Sound (handed : List (Nat × Row)) (i : Nat) (t : Task) : Prop :=
  match t.phase with
  | .inserting rows rest => ∃ deviceId packages, t.request = .publish deviceId packages ∧
      rows.map (·.payload) ++ rest = packages ∧ ∀ row ∈ rows, row.deviceId = deviceId
  | .deleting row => ∃ caller, t.request = .claim caller row.deviceId
  | .counting row => (i, row) ∈ handed
  | .answered package _ => ∃ row, (i, row) ∈ handed ∧ package = Base64.encode row.payload
  | _ => True

theorem Task.Sound.mono (h : Task.Sound handed i t) (sub : handed ⊆ handed') :
    Task.Sound handed' i t := by
  obtain ⟨request, phase, since⟩ := t
  cases phase with
  | counting row => exact sub h
  | answered =>
    obtain ⟨row, hrow, hpackage⟩ := h
    exact ⟨row, sub hrow, hpackage⟩
  | _ => exact h

theorem next_sound (h : Task.Sound handed i ⟨request, phase, since⟩)
    (hnext : next P db i request phase = some (db', phase')) :
    Task.Sound handed i ⟨request, phase', since⟩ := by
  revert h hnext
  fun_cases next P db i request phase <;> intro h hnext <;> cases hnext
  case case1 rows payload rest deviceId packages row =>
    obtain ⟨_, _, ⟨⟩, hrows, hdevice⟩ := h
    refine ⟨deviceId, packages, rfl, by simpa using hrows, fun row' hrow' => ?_⟩
    rcases List.mem_append.1 hrow' with hrow' | hrow'
    · exact hdevice row' hrow'
    · cases List.mem_singleton.1 hrow'
      rfl
  all_goals
    first
    | exact trivial
    | exact ⟨_, rfl⟩
    | exact ⟨_, h, rfl⟩

theorem next_over (h : phase.over) (hnext : next P db i request phase = some (db', phase')) :
    phase'.over := by
  cases phase with
  | counting =>
    cases hnext
    rfl
  | answered | refused => cases hnext
  | _ => cases h

/-- Whom the rows were published by, and handed to. -/
structure Dealt (s : State) : Prop where
  sound : ∀ i t, s.tasks[i]? = some t → Task.Sound s.handed i t
  published : ∀ row ∈ s.published, ∃ t ∈ s.tasks, ∃ packages,
    t.request = .publish row.deviceId packages ∧ row.payload ∈ packages
  handed : ∀ h ∈ s.handed, ∃ t, s.tasks[h.1]? = some t ∧ t.phase.over ∧
    ∃ caller, t.request = .claim caller h.2.deviceId
  once : (s.handed.map (·.1)).Nodup

theorem State.Initial.dealt (h : State.Initial quota s) : Dealt s := by
  constructor <;> simp [h.tasks, h.published, h.handed]

namespace Dealt

theorem receive (h : Dealt s) (request : Request) : Dealt (s.receive request) where
  sound i t at_ := by
    rcases Tasks.getElem?_concat_eq_some_iff.1 at_ with at_ | ⟨_, rfl⟩
    · exact h.sound i t at_
    · cases request with
      | publish deviceId packages => exact ⟨deviceId, packages, rfl, rfl, by simp⟩
      | _ => exact trivial
  published row hrow := by
    obtain ⟨t, ht, hpublish⟩ := h.published row hrow
    exact ⟨t, List.mem_append_left _ ht, hpublish⟩
  handed e he := by
    obtain ⟨t, at_, hclaim⟩ := h.handed e he
    exact ⟨t, Tasks.getElem?_concat_eq_some_iff.2 (.inl at_), hclaim⟩
  once := h.once

theorem published_set (h : Dealt s) (at_ : s.tasks[i]? = some t) (phase : Phase) :
    ∀ row ∈ s.published, ∃ t' ∈ s.tasks.set i { t with phase }, ∃ packages,
      t'.request = .publish row.deviceId packages ∧ row.payload ∈ packages := by
  intro row hrow
  obtain ⟨t', ht', hpublish⟩ := h.published row hrow
  obtain ⟨j, hj⟩ := List.getElem?_of_mem ht'
  by_cases hij : j = i
  · subst hij
    cases at_.symm.trans hj
    exact ⟨_, List.mem_of_getElem? ((Tasks.getElem?_set_eq_some_iff at_).2 (.inl ⟨rfl, rfl⟩)),
      hpublish⟩
  · exact ⟨t', List.mem_of_getElem? ((Tasks.getElem?_set_eq_some_iff at_).2 (.inr ⟨hij, hj⟩)),
      hpublish⟩

theorem handed_set (h : Dealt s) (at_ : s.tasks[i]? = some t) (phase : Phase)
    (hover : t.phase.over → phase.over) :
    ∀ e ∈ s.handed, ∃ t', (s.tasks.set i { t with phase })[e.1]? = some t' ∧ t'.phase.over ∧
      ∃ caller, t'.request = .claim caller e.2.deviceId := by
  intro e he
  obtain ⟨t', at_', hover', hclaim⟩ := h.handed e he
  by_cases hij : e.1 = i
  · rw [hij] at at_' ⊢
    cases at_.symm.trans at_'
    exact ⟨_, (Tasks.getElem?_set_eq_some_iff at_).2 (.inl ⟨rfl, rfl⟩), hover hover', hclaim⟩
  · exact ⟨t', (Tasks.getElem?_set_eq_some_iff at_).2 (.inr ⟨hij, at_'⟩), hover', hclaim⟩

/-- A request goes on. -/
theorem set (h : Dealt s) (at_ : s.tasks[i]? = some t) {phase : Phase}
    (hover : t.phase.over → phase.over) (hsound : Task.Sound s.handed i { t with phase }) :
    Dealt { s with db, tasks := s.tasks.set i { t with phase } } where
  sound j t' at_' := by
    rcases (Tasks.getElem?_set_eq_some_iff at_).1 at_' with ⟨rfl, rfl⟩ | ⟨_, at_'⟩
    · exact hsound
    · exact h.sound j t' at_'
  published := h.published_set at_ phase
  handed := h.handed_set at_ _ hover
  once := h.once

/-- What is published or handed out is so once its statement commits. -/
theorem commit (h : Dealt s) (at_ : s.tasks[i]? = some t) (hcommitted : t.phase.committed = some done)
    (after : phase = done ∨ phase = .refused .database) : Dealt (s.commit i t phase) := by
  obtain ⟨request, old, since⟩ := t
  have hold := h.sound i _ at_
  have hnew : Task.Sound (s.handed ++ old.taken.map (i, ·)) i ⟨request, phase, since⟩ := by
    rcases after with rfl | rfl
    · rcases Phase.committed_cases hcommitted with
        ⟨rows, rfl, rfl⟩ | ⟨rows, rfl, rfl⟩ | ⟨row, rfl, rfl⟩
      · exact trivial
      · exact trivial
      · exact List.mem_append_right _ (List.mem_singleton_self _)
    · exact trivial
  have hnever : old.over = false := by
    rcases Phase.committed_cases hcommitted with ⟨_, rfl, _⟩ | ⟨_, rfl, _⟩ | ⟨_, rfl, _⟩ <;> rfl
  have hgone := h.handed_set at_ phase (by simp [hnever])
  constructor
  · intro j t' at_'
    rcases (Tasks.getElem?_set_eq_some_iff at_).1 at_' with ⟨rfl, rfl⟩ | ⟨_, at_'⟩
    · exact hnew
    · exact (h.sound j t' at_').mono (List.subset_append_left _ _)
  · intro row hrow
    rcases List.mem_append.1 hrow with hrow | hrow
    · exact h.published_set at_ phase row hrow
    · have hrow : row ∈ old.inserted := hrow
      rcases Phase.committed_cases hcommitted with ⟨rows, rfl, _⟩ | ⟨_, rfl, _⟩ | ⟨_, rfl, _⟩
      · obtain ⟨deviceId, packages, hrequest, hpayloads, hdevice⟩ := hold
        refine ⟨_, List.mem_of_getElem? ((Tasks.getElem?_set_eq_some_iff at_).2 (.inl ⟨rfl, rfl⟩)),
          packages, ?_, ?_⟩
        · rw [hdevice row hrow]
          exact hrequest
        · rw [← hpayloads, List.append_nil]
          exact List.mem_map_of_mem hrow
      · cases hrow
      · cases hrow
  · intro e he
    rcases List.mem_append.1 he with he | he
    · exact hgone e he
    · obtain ⟨row, hrow, rfl⟩ := List.mem_map.1 he
      have hrow : row ∈ old.taken := hrow
      rcases Phase.committed_cases hcommitted with ⟨_, rfl, _⟩ | ⟨_, rfl, _⟩ | ⟨row', rfl, rfl⟩
      · cases hrow
      · cases hrow
      · cases List.mem_singleton.1 hrow
        refine ⟨_, (Tasks.getElem?_set_eq_some_iff at_).2 (.inl ⟨rfl, rfl⟩), ?_, hold⟩
        rcases after with rfl | rfl <;> rfl
  · have hfree : i ∉ s.handed.map (·.1) := by
      intro hmem
      obtain ⟨e, he, rfl⟩ := List.mem_map.1 hmem
      obtain ⟨t', at_', hover, _⟩ := h.handed e he
      cases at_.symm.trans at_'
      exact Bool.false_ne_true (hnever.symm.trans hover)
    change ((s.handed ++ old.taken.map (i, ·)).map (·.1)).Nodup
    rcases Phase.committed_cases hcommitted with ⟨_, rfl, _⟩ | ⟨_, rfl, _⟩ | ⟨row, rfl, _⟩
    · simpa [Phase.taken] using h.once
    · simpa [Phase.taken] using h.once
    · rw [List.map_append, List.nodup_append_comm]
      exact List.nodup_cons.2 ⟨hfree, h.once⟩

end Dealt

theorem Dealt.step (h : Dealt s) (hstep : s.step P a = some s') : Dealt s' := by
  cases step_cases hstep with
  | aside => exact ⟨h.sound, h.published, h.handed, h.once⟩
  | @receives claims request writes =>
    exact (⟨h.sound, h.published, h.handed, h.once⟩ : Dealt { s with claims, writes }).receive request
  | advances at_ hnext =>
    exact h.set at_ (fun hover => next_over hover hnext) (next_sound (h.sound _ _ at_) hnext)
  | commits at_ hcommitted after => exact h.commit at_ hcommitted after
  | rollsBack at_ => exact h.set at_ (fun _ => rfl) trivial

/-! ## A package is used once -/

/-- What the stock promises, at every moment. -/
structure SingleUse (s : State) : Prop where
  /-- Every package published is in stock, or has left it in one way. -/
  conserved : s.published.Perm (s.db.packages.rows ++ s.handed.map (·.2) ++ s.purged)
  numbered : (s.published.map (·.id)).Nodup
  /-- It is one its device has published. -/
  published : ∀ row ∈ s.published, ∃ t ∈ s.tasks, ∃ packages,
    t.request = .publish row.deviceId packages ∧ row.payload ∈ packages
  /-- A claim takes at most one, of the device it aims at. -/
  single : (s.handed.map (·.1)).Nodup
  aimed : ∀ e ∈ s.handed, ∃ t caller, s.tasks[e.1]? = some t ∧ t.request = .claim caller e.2.deviceId
  /-- What a claim answers is what it took. -/
  answers : ∀ i request package remaining since,
    s.tasks[i]? = some ⟨request, .answered package remaining, since⟩ →
      ∃ row, (i, row) ∈ s.handed ∧ package = Base64.encode row.payload

theorem Ledger.conserved (h : Ledger s) :
    s.published.Perm (s.db.packages.rows ++ s.handed.map (·.2) ++ s.purged) := by
  refine List.perm_iff_count.2 fun row => ?_
  have hcount : ∀ rows : List Row,
      (rows.map fun row' => if row' = row then (1 : Int) else 0).sum = rows.count row := by
    intro rows
    induction rows with
    | nil => rfl
    | cons row' rows ih =>
      rw [List.map_cons, List.sum_cons, ih, List.count_cons]
      by_cases heq : row' = row <;> simp [heq, Int.add_comm]
  have hkept := h.kept fun row' => if row' = row then (1 : Int) else 0
  rw [Table.kept_eq] at hkept
  simp only [hcount] at hkept
  simp only [List.count_append]
  omega

/-- In every run, however the statements of publications, claims, revocations and rotations come in
between each other and wherever they fail, a key package is handed out at most once. -/
theorem single_use (start : State.Initial quota s₀)
    (reach : Reach (State.step P) (fun _ _ => True) s₀ s) : SingleUse s := by
  have ledger : Ledger s := reach.invariant start.ledger fun h _ hstep => h.step hstep
  have dealt : Dealt s := reach.invariant start.dealt fun h _ hstep => h.step hstep
  constructor
  · exact ledger.conserved
  · have hnumbered := ledger.numbered
    rw [List.map_append] at hnumbered
    exact (List.nodup_append.1 hnumbered).1
  · exact dealt.published
  · exact dealt.once
  · intro e he
    obtain ⟨t, at_, _, caller, hclaim⟩ := dealt.handed e he
    exact ⟨t, caller, at_, hclaim⟩
  · intro i request package remaining since at_
    exact dealt.sound i _ at_

/-- The server at its first start, no limit set. -/
def empty : State :=
  ⟨0, ⟨fun _ => none, fun _ => none, [], 0⟩, ⟨.perMinute 0, []⟩, .perMinute 0, [], [], [], []⟩

theorem empty_initial : State.Initial 0 empty := ⟨rfl, rfl, rfl, rfl, rfl, rfl⟩

/-- Two claims come at once for the one package there is. -/
def twoAtOnce : List Action :=
  [.publish "phone" (some ["AAAA"]), .statement 0, .commit 0, .claim "alice" "phone",
    .claim "carol" "phone", .statement 1, .statement 2, .statement 1, .statement 2, .statement 1,
    .statement 2, .statement 2, .commit 1, .statement 1]

theorem single_use_twoAtOnce : ∃ s, Reach (State.step ⟨id, fun _ => true, fun _ _ _ => true⟩)
    (fun _ _ => True) empty s ∧ s.handed = [(1, ⟨0, "phone", [0, 0, 0]⟩)] ∧ SingleUse s := by
  have executed : (run (State.step ⟨id, fun _ => true, fun _ _ _ => true⟩) empty
      twoAtOnce).map (·.handed) = some [(1, ⟨0, "phone", [0, 0, 0]⟩)] := by decide +kernel
  obtain ⟨s, h, hhanded⟩ := Option.map_eq_some_iff.1 executed
  exact ⟨s, reach_of_run h, hhanded, single_use empty_initial (reach_of_run h)⟩

/-! ## Revocation -/

def Database.revoked (db : Database) (deviceId : String) : Bool :=
  (db.devices deviceId).any (·.revokedAt.isSome)

/-- A claim of the run before, that has found its target not revoked. -/
def Ahead (s₀ : State) (i : Nat) : Prop := ∃ t, s₀.tasks[i]? = some t ∧ t.phase.pastCheck

/-- What a device can still lose once it is revoked. -/
structure Barred (deviceId : String) (s₀ s : State) : Prop where
  revoked : s.db.revoked deviceId
  claims : ∀ i t caller, s.tasks[i]? = some t → t.request = .claim caller deviceId →
    t.phase.pastCheck → Ahead s₀ i
  handed : ∀ e ∈ s.handed, e.2.deviceId = deviceId → e ∈ s₀.handed ∨ Ahead s₀ e.1

theorem revoked_update (devices : String → Option Device) (target : String) (revokedAt : UInt64)
    (h : (devices deviceId).any (·.revokedAt.isSome)) :
    (Function.update devices target ((devices target).map fun d =>
      if d.revokedAt.isSome then d else { d with revokedAt := some revokedAt }) deviceId).any
        (·.revokedAt.isSome) := by
  by_cases htarget : deviceId = target
  · subst htarget
    obtain ⟨device, hdevice, hrevoked⟩ := Option.any_eq_true .. |>.1 h
    simp [hdevice, hrevoked]
  · rwa [Function.update_of_ne htarget]

theorem next_revoked (h : Database.revoked db deviceId)
    (hnext : next P db i request phase = some (db', phase')) : db'.revoked deviceId := by
  revert hnext
  fun_cases next P db i request phase <;> intro hnext <;> cases hnext <;>
    first
    | exact h
    | exact revoked_update _ _ _ h

/-- A claim passes its check on a target that is not revoked. -/
theorem next_pastCheck (hnext : next P db i request phase = some (db', phase'))
    (h : phase'.pastCheck) :
    phase.pastCheck ∨ ∃ caller target, request = .claim caller target ∧ ¬ db.revoked target := by
  revert hnext h
  fun_cases next P db i request phase <;> intro hnext h <;> cases hnext <;>
    first
    | exact .inl rfl
    | exact .inr ⟨_, _, rfl, ‹_›⟩
    | cases h

namespace Barred

theorem step (h : Barred deviceId s₀ s) (dealt : Dealt s) (hstep : s.step P a = some s') :
    Barred deviceId s₀ s' := by
  cases step_cases hstep with
  | aside kept =>
    refine ⟨?_, h.claims, h.handed⟩
    obtain ⟨device, hdevice, hrevoked⟩ := Option.any_eq_true .. |>.1 h.revoked
    exact Option.any_eq_true .. |>.2 ⟨device, kept _ _ hdevice, hrevoked⟩
  | @receives claims request writes =>
    refine ⟨h.revoked, fun i t caller at_ hclaim hpast => ?_, h.handed⟩
    rcases Tasks.getElem?_concat_eq_some_iff.1 at_ with at_ | ⟨_, rfl⟩
    · exact h.claims i t caller at_ hclaim hpast
    · cases hclaim
      cases hpast
  | @advances i request phase since db phase' at_ hnext =>
    refine ⟨next_revoked h.revoked hnext, fun j t caller at_' hclaim hpast => ?_, h.handed⟩
    rcases (Tasks.getElem?_set_eq_some_iff at_).1 at_' with ⟨rfl, rfl⟩ | ⟨_, at_'⟩
    · rcases next_pastCheck hnext hpast with hpast | ⟨_, _, hclaim', hnot⟩
      · exact h.claims j _ caller at_ hclaim hpast
      · cases hclaim.symm.trans hclaim'
        exact absurd h.revoked hnot
    · exact h.claims j t caller at_' hclaim hpast
  | @commits i t phase phase' at_ hcommitted after =>
    obtain ⟨request, old, since⟩ := t
    refine ⟨h.revoked, fun j t caller at_' hclaim hpast => ?_, fun e he hdevice => ?_⟩
    · rcases (Tasks.getElem?_set_eq_some_iff at_).1 at_' with ⟨rfl, rfl⟩ | ⟨_, at_'⟩
      · rcases Phase.committed_cases hcommitted with ⟨_, _, rfl⟩ | ⟨_, _, rfl⟩ | ⟨_, _, rfl⟩ <;>
          rcases after with rfl | rfl <;> cases hpast
      · exact h.claims j t caller at_' hclaim hpast
    · rcases List.mem_append.1 he with he | he
      · exact h.handed e he hdevice
      · obtain ⟨row, hrow, rfl⟩ := List.mem_map.1 he
        have hrow : row ∈ old.taken := hrow
        have hold := dealt.sound i _ at_
        rcases Phase.committed_cases hcommitted with ⟨_, rfl, _⟩ | ⟨_, rfl, _⟩ | ⟨row', rfl, rfl⟩
        · cases hrow
        · cases hrow
        · cases List.mem_singleton.1 hrow
          obtain ⟨caller, hclaim⟩ := hold
          subst hdevice
          exact .inr (h.claims i _ caller at_ hclaim rfl)
  | @rollsBack i t at_ =>
    refine ⟨h.revoked, fun j t' caller at_' hclaim hpast => ?_, h.handed⟩
    rcases (Tasks.getElem?_set_eq_some_iff at_).1 at_' with ⟨rfl, rfl⟩ | ⟨_, at_'⟩
    · cases hpast
    · exact h.claims j t' caller at_' hclaim hpast

end Barred

/-- Once the revocation of a device is recorded, its packages go to none but the claims that have
found it not revoked by then; whatever it publishes afterwards stays where it is. -/
theorem revoked_handed_to_none (start : State.Initial quota s₀)
    (before : Reach (State.step P) (fun _ _ => True) s₀ s) (revoked : s.db.revoked deviceId)
    (after : Reach (State.step P) (fun _ _ => True) s s') :
    s'.db.revoked deviceId ∧ ∀ e ∈ s'.handed, e.2.deviceId = deviceId →
      e ∈ s.handed ∨ ∃ t, s.tasks[e.1]? = some t ∧ t.phase.pastCheck := by
  have dealt : Dealt s := before.invariant start.dealt fun h _ hstep => h.step hstep
  have barred : Barred deviceId s s := ⟨revoked, fun _ t _ at_ _ hpast => ⟨t, at_, hpast⟩,
    fun _ he _ => .inl he⟩
  obtain ⟨_, h⟩ : Dealt s' ∧ Barred deviceId s s' := by
    induction after with
    | refl => exact ⟨dealt, barred⟩
    | tail _ _ hstep ih => exact ⟨ih.1.step hstep, ih.2.step ih.1 hstep⟩
  exact ⟨h.revoked, h.handed⟩

/-- A revocation is recorded while one claim has passed its check and another has not. -/
def revokedBetween : List Action :=
  [.identify "bob" (List.replicate 32 7), .register "phone" "bob",
    .publish "phone" (some ["AAAA", "AAAB"]), .statement 0, .statement 0, .commit 0,
    .claim "alice" "phone", .statement 1, .revoke "phone" "phone"
      (some (0, Base64.encode (List.replicate 64 0))), .statement 2, .statement 2, .statement 2]

/-- Both claims go on. -/
def claimedAfter : List Action :=
  [.claim "carol" "phone", .statement 3, .statement 1, .statement 1, .commit 1]

theorem revoked_handed_to_none_revokedBetween : ∃ s s',
    run (State.step ⟨id, fun _ => true, fun _ _ _ => true⟩) empty revokedBetween = some s ∧
      run (State.step ⟨id, fun _ => true, fun _ _ _ => true⟩) s claimedAfter = some s' ∧
      s'.handed = [(1, ⟨0, "phone", [0, 0, 0]⟩)] ∧ s'.db.revoked "phone" ∧
      ∀ e ∈ s'.handed, e.2.deviceId = "phone" →
        e ∈ s.handed ∨ ∃ t, s.tasks[e.1]? = some t ∧ t.phase.pastCheck := by
  have first : (run (State.step ⟨id, fun _ => true, fun _ _ _ => true⟩) empty revokedBetween).map
      (fun s => (s.db.revoked "phone", (run (State.step ⟨id, fun _ => true, fun _ _ _ => true⟩) s
        claimedAfter).map (·.handed))) = some (true, some [(1, ⟨0, "phone", [0, 0, 0]⟩)]) := by
    decide +kernel
  obtain ⟨s, h, hs⟩ := Option.map_eq_some_iff.1 first
  obtain ⟨hrevoked, hs⟩ := Prod.mk.inj hs
  obtain ⟨s', h', hhanded⟩ := Option.map_eq_some_iff.1 hs
  exact ⟨s, s', h, h', hhanded, revoked_handed_to_none empty_initial (reach_of_run h) hrevoked
    (reach_of_run h')⟩

/-! ## What one caller can take -/

/-- When claims of a caller on a target came in that were let through. -/
def admissions (tasks : List Task) (caller target : String) : List Nat :=
  (tasks.filter (·.request = .claim caller target)).map (·.since)

theorem admissions_set (at_ : tasks[i]? = some t) (phase : Phase) :
    admissions (tasks.set i { t with phase }) caller target = admissions tasks caller target := by
  unfold admissions
  induction tasks generalizing i with
  | nil => rfl
  | cons t' tasks ih =>
    cases i with
    | zero =>
      cases at_
      simp only [List.set_cons_zero, List.filter_cons]
      split <;> rfl
    | succ i =>
      simp only [List.set_cons_succ, List.filter_cons]
      split <;> simp [ih at_]

/-- What the limiter has been asked, and when. -/
structure Clocked (quota : UInt32) (claims : Served) (time : Nat) : Prop where
  served : claims = serve quota (claims.log.map (·.1))
  ordered : ((claims.log.map (·.1)).map (·.at_)).Pairwise (· ≤ ·)
  past : ∀ at_ ∈ (claims.log.map (·.1)).map (·.at_), at_ ≤ time

theorem log_call (claims : Served) (c : Call) :
    (claims.call c).log.map (·.1) = claims.log.map (·.1) ++ [c] := by
  simp [Served.call]

theorem log_serve (calls : List Call) : (serve quota calls).log.map (·.1) = calls := by
  induction calls using List.reverseRecOn with
  | nil => rfl
  | append_singleton calls c ih => rw [serve_concat, log_call, ih]

theorem Clocked.call (h : Clocked quota claims time) (key : String) :
    Clocked quota (claims.call ⟨key, time⟩) time where
  served := by rw [log_call, serve_concat, ← h.served]
  ordered := by
    rw [log_call, List.map_append, List.pairwise_append]
    refine ⟨h.ordered, List.pairwise_singleton _ _, fun at_ hat now hnow => ?_⟩
    cases List.mem_singleton.1 hnow
    exact h.past at_ hat
  past := by
    rw [log_call, List.map_append]
    intro at_ hat
    rcases List.mem_append.1 hat with hat | hat
    · exact h.past at_ hat
    · cases List.mem_singleton.1 hat
      exact Nat.le_refl _

theorem Clocked.later (h : Clocked quota claims time) (hle : time ≤ time') :
    Clocked quota claims time' where
  served := h.served
  ordered := h.ordered
  past at_ hat := Nat.le_trans (h.past at_ hat) hle

/-- The requests under way are those the limiter has let through. -/
structure Counted (quota : UInt32) (s : State) : Prop where
  clocked : Clocked quota s.claims s.time
  admitted : ∀ caller target,
    (admissions s.tasks caller target).Sublist (s.claims.admitted (claimKey (caller, target)))

theorem State.Initial.counted (h : State.Initial quota s) : Counted quota s := by
  refine ⟨⟨?_, ?_, ?_⟩, ?_⟩
  · rw [h.claims]
    rfl
  · simp [h.claims]
  · simp [h.claims]
  · simp [h.tasks, admissions]

theorem admitted_sublist_call (claims : Served) (c : Call) (key : String) :
    (claims.admitted key).Sublist ((claims.call c).admitted key) := by
  rw [admitted_call]
  exact List.sublist_append_left _ _

theorem admissions_concat (tasks : List Task) (request : Request) :
    admissions (tasks ++ [⟨request, phase, since⟩]) caller target =
      admissions tasks caller target ++ if request = .claim caller target then [since] else [] := by
  unfold admissions
  rw [List.filter_append, List.map_append, List.filter_singleton]
  by_cases h : request = .claim caller target <;> simp [h]

theorem Counted.set (h : Counted quota s) (at_ : s.tasks[i]? = some t) (phase : Phase)
    (caller target : String) : (admissions (s.tasks.set i { t with phase }) caller target).Sublist
      (s.claims.admitted (claimKey (caller, target))) := by
  rw [admissions_set at_]
  exact h.admitted caller target

theorem Counted.step (h : Counted quota s) (hstep : s.step P a = some s') : Counted quota s' := by
  cases step_cases hstep with
  | aside kept later counts =>
    rcases counts with rfl | ⟨key, rfl⟩
    · exact ⟨h.clocked.later later, h.admitted⟩
    · exact ⟨(h.clocked.call key).later later, fun caller target =>
        (h.admitted caller target).trans (admitted_sublist_call _ _ _)⟩
  | @receives claims request writes counts =>
    cases request with
    | claim caller' target' =>
      obtain ⟨rfl, hallowed⟩ := counts
      refine ⟨h.clocked.call _, fun caller target => ?_⟩
      change (admissions (s.tasks ++ [⟨.claim caller' target', _, s.time⟩]) caller target).Sublist
        ((s.claims.call ⟨claimKey (caller', target'), s.time⟩).admitted _)
      rw [admissions_concat, admitted_call]
      refine (h.admitted caller target).append ?_
      split
      next hclaim =>
        cases hclaim
        rw [if_pos ⟨rfl, hallowed⟩]
      next => exact List.nil_sublist _
    | publish | revoke | rotate =>
      cases counts
      refine ⟨h.clocked, fun caller target => ?_⟩
      change (admissions (s.tasks ++ [⟨_, _, s.time⟩]) caller target).Sublist _
      rw [admissions_concat, if_neg nofun, List.append_nil]
      exact h.admitted caller target
  | advances at_ => exact ⟨h.clocked, h.set at_ _⟩
  | commits at_ => exact ⟨h.clocked, h.set at_ _⟩
  | rollsBack at_ => exact ⟨h.clocked, h.set at_ _⟩

/-- A claim of the caller on the target that came in within a window's length of a time. -/
def Task.within (start : Nat) (caller target : String) (t : Task) : Bool :=
  t.request = .claim caller target ∧ start ≤ t.since ∧ t.since ≤ start + Throttle.WINDOW

theorem countP_within (start : Nat) (tasks : List Task) : tasks.countP (·.within start caller target) =
    FixedWindow.countWithin Throttle.WINDOW start (admissions tasks caller target) := by
  rw [FixedWindow.countWithin, admissions, List.countP_map, List.countP_filter]
  refine List.countP_congr fun t _ => ?_
  simp only [Task.within, Function.comp_apply, decide_eq_true_eq, Bool.and_eq_true]
  exact and_comm

/-- The claims a caller makes on a device within a minute cost it at most two quotas of its stock,
whatever requests come in besides. The limiter is in memory: it counts from the start of the
server. -/
theorem drained_le (start : State.Initial quota s₀)
    (reach : Reach (State.step P) (fun _ _ => True) s₀ s) (hquota : quota ≠ 0)
    (few : ∀ key from_, ((own key (s.claims.log.map (·.1))).countP fun t =>
      from_ ≤ t ∧ t < from_ + Throttle.WINDOW) < 2 ^ 32) (caller target : String) (from_ : Nat) :
    (s.handed.countP fun e => (s.tasks[e.1]?).any (·.within from_ caller target)) ≤
      2 * quota.toNat := by
  have dealt : Dealt s := reach.invariant start.dealt fun h _ hstep => h.step hstep
  have counted : Counted quota s := reach.invariant start.counted fun h _ hstep => h.step hstep
  have timed : Timed (s.claims.log.map (·.1)) := ⟨counted.clocked.ordered, few⟩
  have limited : Limited quota (s.claims.log.map (·.1))
      (serve quota (s.claims.log.map (·.1))) := limited_serve timed
  rw [← counted.clocked.served] at limited
  calc (s.handed.countP fun e => (s.tasks[e.1]?).any (·.within from_ caller target))
    _ = (s.handed.map (·.1)).countP fun i => (s.tasks[i]?).any (·.within from_ caller target) := by
      rw [List.countP_map]
      rfl
    _ ≤ s.tasks.countP (·.within from_ caller target) := Tasks.countP_getElem?_le dealt.once _
    _ = FixedWindow.countWithin Throttle.WINDOW from_ (admissions s.tasks caller target) :=
      countP_within _ _
    _ ≤ FixedWindow.countWithin Throttle.WINDOW from_
        (s.claims.admitted (claimKey (caller, target))) :=
      (counted.admitted caller target).countP_le
    _ ≤ 2 * quota.toNat := by
      rw [limited.admitted hquota]
      exact FixedWindow.countWithin_le (by decide) (timed.pairwise_own _) _ _

/-- The limiter lets a claim through where its specification does. -/
theorem State.step_claim {s : State} {c : Call} (calls : List Call)
    (arrived : c = ⟨claimKey (caller, target), s.time⟩) (served : s.claims = serve quota calls)
    (timed : Timed (calls ++ [c])) :
    s.step P (.claim caller target) =
      let s' : State := { s with claims := serve quota (calls ++ [c]) }
      some (if specified quota calls c then s'.receive (.claim caller target) else s') := by
  have limited : Limited quota (calls ++ [c]) (serve quota (calls ++ [c])) := limited_serve timed
  have length : (serve quota calls).log.length = calls.length := (limited_serve timed.init).length
  have decided := limited.decisions calls _ [] rfl
  rw [serve_concat, Served.call, ← length, List.getElem?_concat_length] at decided
  have allowed := (Prod.mk.inj (Option.some.inj decided)).2
  rw [State.step, served, ← arrived]
  dsimp only
  rw [allowed, serve_concat]

/-! ## Three claims, of which the second comes too soon -/

/-- One claim a minute is let through. -/
def onceAMinute : State := { empty with claims := ⟨.perMinute 1, []⟩ }

theorem onceAMinute_initial : State.Initial 1 onceAMinute := ⟨rfl, rfl, rfl, rfl, rfl, rfl⟩

/-- Every signature verifies. -/
def anySignature : Primitives := ⟨id, fun _ => true, fun _ _ _ => true⟩

def stocking : List Action :=
  [.publish "phone" (some ["AAAA", "AAAB", "AAAC"]), .statement 0, .statement 0, .statement 0,
    .commit 0]

def handing (i : Nat) : List Action := [.statement i, .statement i, .statement i, .commit i]

def aliceAt (at_ : Nat) : Call := ⟨claimKey ("alice", "phone"), at_⟩

/-- A claim is let through, as the last of these. -/
def asked (s : State) (calls : List Call) : State :=
  { s with claims := serve 1 calls }.receive (.claim "alice" "phone")

def stocked : State := (run (State.step anySignature) onceAMinute stocking).getD onceAMinute

def claimedOnce : State :=
  (run (State.step anySignature) (asked stocked [aliceAt 0]) (handing 1)).getD stocked

/-- Another claim is refused, and a minute passes. -/
def minuteLater : State :=
  { claimedOnce with claims := serve 1 [aliceAt 0, aliceAt 0], time := Throttle.WINDOW }

def claimedTwice : State :=
  (run (State.step anySignature) (asked minuteLater
    [aliceAt 0, aliceAt 0, aliceAt Throttle.WINDOW]) (handing 2)).getD minuteLater

theorem reach_claimedOnce :
    Reach (State.step anySignature) (fun _ _ => True) onceAMinute claimedOnce := by
  have stock : run (State.step anySignature) onceAMinute stocking = some stocked := rfl
  have timed : Timed [aliceAt 0] := .of_length (by decide) (by decide)
  have claim : State.step anySignature stocked (.claim "alice" "phone") =
      some (asked stocked [aliceAt 0]) :=
    (State.step_claim (s := stocked) (c := aliceAt 0) [] rfl rfl timed).trans
      (congrArg some (if_pos (by decide)))
  have hand : run (State.step anySignature) (asked stocked [aliceAt 0]) (handing 1) =
      some claimedOnce := rfl
  exact ((reach_of_run stock).tail trivial claim).trans (reach_of_run hand)

theorem reach_minuteLater :
    Reach (State.step anySignature) (fun _ _ => True) onceAMinute minuteLater := by
  have timed : Timed [aliceAt 0, aliceAt 0] := .of_length (by decide) (by decide)
  have refuse : State.step anySignature claimedOnce (.claim "alice" "phone") =
      some { claimedOnce with claims := serve 1 [aliceAt 0, aliceAt 0] } :=
    (State.step_claim (s := claimedOnce) (c := aliceAt 0) [aliceAt 0] rfl rfl timed).trans
      (congrArg some (if_neg (by decide)))
  have pass : State.step anySignature { claimedOnce with claims := serve 1 [aliceAt 0, aliceAt 0] }
      (.pass Throttle.WINDOW) = some minuteLater := rfl
  exact (reach_claimedOnce.tail trivial refuse).tail trivial pass

theorem reach_claimedTwice :
    Reach (State.step anySignature) (fun _ _ => True) onceAMinute claimedTwice := by
  have timed : Timed [aliceAt 0, aliceAt 0, aliceAt Throttle.WINDOW] :=
    .of_length (by decide) (by decide)
  have claim : State.step anySignature minuteLater (.claim "alice" "phone") =
      some (asked minuteLater [aliceAt 0, aliceAt 0, aliceAt Throttle.WINDOW]) :=
    (State.step_claim (s := minuteLater) (c := aliceAt Throttle.WINDOW) [aliceAt 0, aliceAt 0]
      rfl rfl timed).trans (congrArg some (if_pos (by decide)))
  have hand : run (State.step anySignature) (asked minuteLater
      [aliceAt 0, aliceAt 0, aliceAt Throttle.WINDOW]) (handing 2) = some claimedTwice := rfl
  exact (reach_minuteLater.tail trivial claim).trans (reach_of_run hand)

/-- Both quotas of that minute and the next are used up. -/
theorem drained_le_onceAMinute :
    Reach (State.step anySignature) (fun _ _ => True) onceAMinute claimedTwice ∧
      claimedTwice.handed = [(1, ⟨0, "phone", [0, 0, 0]⟩), (2, ⟨1, "phone", [0, 0, 1]⟩)] ∧
      (claimedTwice.handed.countP fun e =>
        (claimedTwice.tasks[e.1]?).any (·.within 0 "alice" "phone")) ≤ 2 * (1 : UInt32).toNat := by
  have served : claimedTwice.claims = serve 1 [aliceAt 0, aliceAt 0, aliceAt Throttle.WINDOW] := rfl
  have timed : Timed [aliceAt 0, aliceAt 0, aliceAt Throttle.WINDOW] :=
    .of_length (by decide) (by decide)
  refine ⟨reach_claimedTwice, rfl,
    drained_le onceAMinute_initial reach_claimedTwice (by decide) ?_ _ _ _⟩
  rw [served, log_serve]
  exact timed.few

end Whispee.Server.KeyPackages
