import Mathlib.Data.List.Dedup
import Mathlib.Logic.Relation
import Whispee.Lib.Tasks
import Whispee.Lib.Transition
import Whispee.Server.Groups

/-!
# Adding members

`add_members` of `crates/server/src/routes.rs`, one step for each statement of its transaction. The
transaction sees what others have committed and what it has written itself, and waits for the rows
another one has written and not yet committed. Between two statements anything else may happen: an
account changes its policy, a device is registered or revoked, members are removed.
-/

namespace Whispee.Server.AddMembers

open Groups Transition

/-! ## One request -/

structure Payload where
  deviceIds : List String
  /-- The group's posting key, base64. -/
  postingKey : Option String

/-- What a request asks for, once its form is accepted. -/
structure Request where
  groupId : Bytes
  /-- The signing device. -/
  deviceId : String
  deviceIds : List String
  postingKey : Option Bytes
  deriving DecidableEq

/-- The checks of `add_members` that look at the request alone. -/
def receive (groupId deviceId : String) (payload : Option Payload) : Except ApiError Request := do
  let groupId ← decodeGroupId groupId
  let payload ← json payload
  if payload.deviceIds.isEmpty then .error (.badRequest "no device provided")
  else match payload.postingKey with
    | none => .ok ⟨groupId, deviceId, payload.deviceIds, none⟩
    | some encoded => do
      let key ← decodeB64 encoded
      if key.length ≠ 32 then .error (.badRequest "posting key of invalid length")
      else .ok ⟨groupId, deviceId, payload.deviceIds, some key⟩

/-- The statement a request sends next, or how it has ended. -/
inductive Phase where
  /-- `INSERT INTO groups`. -/
  | creating
  /-- The row of the caller, in the group it has just created. -/
  | founding
  /-- The caller's membership of a group that was there. -/
  | joining
  /-- The caller's account. -/
  | identifying
  /-- The policy of the first of these devices; after the last, their rows. -/
  | contacting (caller : String) (rest : List String)
  /-- Whether the caller's account and this one share a group. -/
  | sharing (caller deviceId account : String) (rest : List String)
  | committing
  | added
  | refused (error : ApiError)
  /-- The commit was sent, and its answer lost. -/
  | unanswered
  deriving DecidableEq

/-- One device let through by `may_contact`: what the first query found of it, and what was there
to be seen at the last. -/
structure Evaluation where
  deviceId : String
  caller : String
  found : Option (String × ContactPolicy)
  seen : Database

structure Task where
  request : Request
  phase : Phase
  /-- Written and not yet committed. -/
  group : Option GroupRow
  members : List Member
  evaluated : List Evaluation
  /-- The accounts that have been closed since the request came in. -/
  closed : List String

namespace Task

def start (request : Request) (closed : List String) : Task :=
  ⟨request, .creating, none, [], [], closed⟩

/-- What the statements of the transaction see. -/
def view (t : Task) (db : Database) : Database :=
  { db with groups := db.groups ++ t.group.toList, members := db.members ++ t.members }

/-- The transaction ends, and nothing of it is left but what it commits. -/
def finish (t : Task) (phase : Phase) : Task := { t with phase, group := none, members := [] }

def evaluate (t : Task) (e : Evaluation) (phase : Phase) : Task :=
  { t with phase, evaluated := t.evaluated ++ [e] }

/-- The rows of the devices asked for. -/
def rows (t : Task) : List Member := t.request.deviceIds.map fun id => ⟨t.request.groupId, id⟩

/-- The next statement, unless it has to wait for one of the `others`. -/
def next (db : Database) (others : List Task) (t : Task) : Option Task :=
  let r := t.request
  let view := t.view db
  match t.phase with
  | .creating =>
    if others.any fun o => o.group.any (·.id = r.groupId) then none
    else if (view.group? r.groupId).isSome then some { t with phase := .joining }
    else some { t with group := some ⟨r.groupId, r.postingKey⟩, phase := .founding }
  | .founding =>
    if (view.device? r.deviceId).isSome then
      some { t with members := [⟨r.groupId, r.deviceId⟩], phase := .identifying }
    else some (t.finish (.refused .database))
  | .joining =>
    -- `d.revoked_at` is not looked at.
    if ⟨r.groupId, r.deviceId⟩ ∈ view.members then some { t with phase := .identifying }
    else some (t.finish (.refused .forbidden))
  | .identifying =>
    match view.callerAccount r.deviceId with
    | .ok caller => some { t with phase := .contacting caller r.deviceIds }
    | .error e => some (t.finish (.refused e))
  | .contacting caller (deviceId :: rest) =>
    let found := view.contact? deviceId
    match Contact.of caller found with
    | .allowed => some (t.evaluate ⟨deviceId, caller, found, view⟩ (.contacting caller rest))
    | .denied => some (t.finish (.refused .forbidden))
    | .ifShared account => some { t with phase := .sharing caller deviceId account rest }
  | .sharing caller deviceId account rest =>
    if view.shared caller account r.groupId then
      some (t.evaluate ⟨deviceId, caller, some (account, .known), view⟩ (.contacting caller rest))
    else some (t.finish (.refused .forbidden))
  | .contacting _ [] =>
    if others.any fun o => o.members.any (· ∈ t.rows) then none
    else if (view.group? r.groupId).isSome ∧ r.deviceIds.all fun id => (view.device? id).isSome then
      some { t with
        members := t.members ++ (t.rows.filter (· ∉ view.members)).dedup, phase := .committing }
    else some (t.finish (.refused .database))
  | _ => none

end Task

/-! ## The server -/

/-- A transaction that has been committed, by which request and over what. -/
structure Commit where
  index : Nat
  db : Database
  task : Task

structure State where
  db : Database
  tasks : List Task
  commits : List Commit

inductive Action where
  | receive (groupId deviceId : String) (payload : Option Payload)
  /-- The next statement of a request takes effect. -/
  | statement (task : Nat)
  | commit (task : Nat)
  /-- The commit takes effect, and its answer is lost. -/
  | lose (task : Nat)
  /-- A statement of a request fails. -/
  | fail (task : Nat)
  | createAccount (id : String) (identityKey : Bytes)
  | registerDevice (payload : RegisterDevice)
  | rotate (account : String) (identityKey : Bytes)
  | setContactPolicy (account : String) (policy : ContactPolicy)
  | revoke (deviceId : String)
  | removeMembers (groupId : Bytes) (deviceIds : List String)
  /-- `purge_once` deletes a group without members. -/
  | purge (groupId : Bytes)

/-- A request that is still to be answered. -/
def Phase.underway : Phase → Bool
  | .added | .refused _ | .unanswered => false
  | _ => true

def isClosed (db : Database) (account : String) : Bool := db.policyOf account = some .closed

namespace State

/-- Another route, or the purge, has written: an account that is no longer closed has not been
closed throughout. -/
def written (s : State) (db : Database) : State :=
  { s with db, tasks := s.tasks.map fun t => { t with closed := t.closed.filter (isClosed db) } }

def commit (s : State) (i : Nat) (t : Task) (phase : Phase) : State where
  db := t.view s.db
  tasks := s.tasks.set i (t.finish phase)
  commits := s.commits ++ [⟨i, s.db, t⟩]

def step (P : Account.Primitives) (s : State) : Action → Option State
  | .receive groupId deviceId payload =>
    match receive groupId deviceId payload with
    | .ok request =>
      let closed := (s.db.accounts.map (·.id)).filter (isClosed s.db)
      some { s with tasks := s.tasks ++ [.start request closed] }
    -- Refused before its first statement.
    | .error _ => some s
  | .statement i => do
    let t ← s.tasks[i]?
    let t ← t.next s.db (s.tasks.eraseIdx i)
    some { s with tasks := s.tasks.set i t }
  | .commit i => do
    let t ← s.tasks[i]?
    if t.phase = .committing then some (s.commit i t .added) else none
  | .lose i => do
    let t ← s.tasks[i]?
    if t.phase = .committing then some (s.commit i t .unanswered) else none
  | .fail i => do
    let t ← s.tasks[i]?
    if t.phase.underway then
      some { s with tasks := s.tasks.set i (t.finish (.refused .database)) }
    else none
  | .createAccount id identityKey =>
    if (s.db.account? id).isSome then none else some (s.written (s.db.createAccount id identityKey))
  | .registerDevice payload => (registerDevice P s.db payload).toOption.map s.written
  | .rotate account identityKey => some (s.written (s.db.setIdentityKey account identityKey))
  | .setContactPolicy account policy => some (s.written (s.db.setContactPolicy account policy))
  | .revoke deviceId => some (s.written (s.db.revoke deviceId))
  | .removeMembers groupId deviceIds => some (s.written (s.db.removeMembers groupId deviceIds))
  | .purge groupId =>
    -- A row that is not committed holds its group as one that is.
    if s.db.members.any (·.groupId = groupId) ∨
        s.tasks.any fun t => t.members.any (·.groupId = groupId) then none
    else some (s.written (s.db.deleteGroup groupId))

/-- The server at its first start. -/
structure Initial (s : State) : Prop where
  groups : s.db.groups = []
  members : s.db.members = []
  tasks : s.tasks = []
  commits : s.commits = []

end State

/-! ## What is asked of a commit -/

/-- The policy a device was let through under: the one that was found, or the one of its account as
it is inserted if nothing was found of it. -/
def Evaluation.policy (e : Evaluation) (db : Database) (account : String) : Option ContactPolicy :=
  e.found.elim (db.policyOf account) (some ·.2)

/-- Each device of another account belongs to one that was not closed throughout and, if it was let
through as `known`, shared a group with the caller's when that was asked. -/
def Commit.Admitted (c : Commit) : Prop :=
  ∀ m ∈ c.task.members, ∀ caller account,
    c.db.accountOf c.task.request.deviceId = some caller →
    c.db.accountOf m.deviceId = some account → account ≠ caller →
    account ∉ c.task.closed ∧ ∃ e ∈ c.task.evaluated, e.deviceId = m.deviceId ∧
      (e.policy c.db account = some .known → e.seen.shared caller account c.task.request.groupId)

/-- A device about to be added was known when it was asked about; or it is of the caller's own
account, or of one that would have let it through. -/
def Task.askedAbout (t : Task) (db : Database) (m : Member) : Bool :=
  match db.accountOf t.request.deviceId, db.accountOf m.deviceId with
  | some caller, some account =>
    account = caller || (t.evaluated.any fun e => e.deviceId = m.deviceId && e.found.isSome) ||
      (account ∉ t.closed && (db.policyOf account ≠ some .known || t.evaluated.any fun e =>
        e.deviceId = m.deviceId && e.seen.shared caller account t.request.groupId))
  | _, _ => true

/-- No device is added that was registered between the question about it and the commit, to another
account that would not have let it through. -/
def State.noneSlipsIn (s : State) : Action → Bool
  | .commit i | .lose i =>
    match s.tasks[i]? with
    | some t => t.members.all (t.askedAbout s.db)
    | none => true
  | _ => true

/-! ## What a request has found out -/

/-- Whose request it is, once the transaction has asked. -/
def Phase.caller : Phase → Option String
  | .contacting caller _ | .sharing caller _ _ _ => some caller
  | _ => none

/-- The devices still to be asked about. -/
def Task.pending (t : Task) : List String :=
  match t.phase with
  | .contacting _ rest => rest
  | .sharing _ deviceId _ rest => deviceId :: rest
  | .committing => []
  | _ => t.request.deviceIds

structure Evaluation.Sound (db : Database) (r : Request) (closed : List String) (e : Evaluation) :
    Prop where
  caller : db.accountOf r.deviceId = some e.caller
  found : ∀ account policy, e.found = some (account, policy) →
    db.accountOf e.deviceId = some account ∧ (account = e.caller ∨
      account ∉ closed ∧ (policy = .known → e.seen.shared e.caller account r.groupId))

structure Task.Sound (db : Database) (t : Task) : Prop where
  closed : ∀ a ∈ t.closed, isClosed db a
  caller : ∀ caller, t.phase.caller = some caller →
    db.accountOf t.request.deviceId = some caller
  sharing : ∀ caller id account rest, t.phase = .sharing caller id account rest →
    db.accountOf id = some account ∧ account ∉ t.closed
  evaluated : ∀ e ∈ t.evaluated, e.Sound db t.request t.closed
  asked : ∀ id ∈ t.request.deviceIds, id ∈ t.pending ∨ ∃ e ∈ t.evaluated, e.deviceId = id
  members : ∀ m ∈ t.members, m.deviceId = t.request.deviceId ∨
    t.pending = [] ∧ m.deviceId ∈ t.request.deviceIds

namespace Task.Sound

variable {db db' : Database} {t t' : Task} {r : Request} {after : Phase} {new : Option GroupRow} {written : List Member}
  {since : List String}

theorem start (closed : ∀ a ∈ since, isClosed db a) : (Task.start r since).Sound db where
  closed := closed
  caller _ h := by cases h
  sharing _ _ _ _ h := by cases h
  evaluated _ h := by cases h
  asked _ h := .inl h
  members _ h := by cases h

/-- The transaction is over. -/
theorem finish (h : t.Sound db) (caller : after.caller = none)
    (pending : (t.finish after).pending = t.request.deviceIds) : (t.finish after).Sound db where
  closed := h.closed
  caller c hc := by
    rw [show (t.finish after).phase.caller = none from caller] at hc
    cases hc
  sharing _ _ _ _ hs := by
    rw [show after = _ from hs] at caller
    cases caller
  evaluated := h.evaluated
  asked _ hid := .inl (pending ▸ hid)
  members _ hm := by cases hm

theorem refuse (h : t.Sound db) (error : ApiError) : (t.finish (.refused error)).Sound db :=
  h.finish rfl rfl

/-- The tables change around it. -/
theorem mono (h : t.Sound db) (keeps : db.KeepsDevices db') (fewer : since ⊆ t.closed)
    (closed : ∀ a ∈ since, isClosed db' a) : Task.Sound db' { t with closed := since } where
  closed := closed
  caller c hc := keeps (h.caller c hc)
  sharing c id account rest hs :=
    have ⟨own, open_⟩ := h.sharing c id account rest hs
    ⟨keeps own, fun hmem => open_ (fewer hmem)⟩
  evaluated e he :=
    have sound := h.evaluated e he
    { caller := keeps sound.caller
      found := fun account policy hfound => by
        obtain ⟨own, admits⟩ := sound.found account policy hfound
        exact ⟨keeps own, admits.imp_right fun a => ⟨fun hmem => a.1 (fewer hmem), a.2⟩⟩ }
  asked := h.asked
  members := h.members

/-- An account that lets the device through now has not been closed throughout. -/
theorem notMem_closed (h : t.Sound db) (found : db.policyOf account = some policy)
    (letsThrough : policy ≠ .closed) : account ∉ t.closed := by
  intro hmem
  have closed := of_decide_eq_true (h.closed account hmem)
  rw [found] at closed
  exact letsThrough (Option.some.inj closed)

/-- The same devices are left to be asked about. -/
theorem move (h : t.Sound db) (caller : ∀ c, after.caller = some c →
      db.accountOf t.request.deviceId = some c)
    (sharing : ∀ c id a rest, after = .sharing c id a rest →
      db.accountOf id = some a ∧ a ∉ t.closed)
    (pending : { t with phase := after }.pending = t.pending)
    (members : ∀ m ∈ written, m.deviceId = t.request.deviceId ∨
      t.pending = [] ∧ m.deviceId ∈ t.request.deviceIds) :
    Task.Sound db { t with phase := after, group := new, members := written } where
  closed := h.closed
  caller := caller
  sharing := sharing
  evaluated := h.evaluated
  asked id hid := (h.asked id hid).imp_left fun hp => pending ▸ hp
  members m hm := (members m hm).imp_right fun hp => ⟨pending.trans hp.1, hp.2⟩

/-- One more device is let through. -/
theorem evaluate (h : t.Sound db) (hcaller : t.phase.caller = after.caller)
    (sharing : ∀ c id a rest, after ≠ .sharing c id a rest)
    (pending : t.pending = e.deviceId :: (t.evaluate e after).pending)
    (sound : e.Sound db t.request t.closed) : (t.evaluate e after).Sound db where
  closed := h.closed
  caller c hc := h.caller c (hcaller ▸ hc)
  sharing c id a rest hs := absurd hs (sharing c id a rest)
  evaluated := Tasks.forall_mem_concat h.evaluated sound
  asked id hid := by
    rcases h.asked id hid with hpending | ⟨e', he', hdevice⟩
    · rw [pending, List.mem_cons] at hpending
      rcases hpending with rfl | hpending
      · exact .inr ⟨e, List.mem_append_right _ (List.mem_singleton_self e), rfl⟩
      · exact .inl hpending
    · exact .inr ⟨e', List.mem_append_left _ he', hdevice⟩
  members m hm := by
    refine (h.members m hm).imp_right fun ⟨nil, _⟩ => ?_
    rw [pending] at nil
    cases nil

theorem next (h : t.Sound db) (hn : t.next db others = some t') : t'.Sound db := by
  rw [Task.next] at hn
  split at hn
  next at_ => -- creating
    split at hn
    · cases hn
    split at hn <;> cases hn
    · refine h.move ?_ ?_ ?_ h.members
      · exact fun _ hc => by cases hc
      · exact fun _ _ _ _ hs => by cases hs
      · rw [Task.pending, Task.pending, at_]
    · refine h.move ?_ ?_ ?_ h.members
      · exact fun _ hc => by cases hc
      · exact fun _ _ _ _ hs => by cases hs
      · rw [Task.pending, Task.pending, at_]
  next at_ => -- founding
    split at hn <;> cases hn
    · refine h.move ?_ ?_ ?_ fun m hm => .inl ?_
      · exact fun _ hc => by cases hc
      · exact fun _ _ _ _ hs => by cases hs
      · rw [Task.pending, Task.pending, at_]
      · rw [List.mem_singleton.1 hm]
    · exact h.refuse _
  next at_ => -- joining
    split at hn <;> cases hn
    · refine h.move ?_ ?_ ?_ h.members
      · exact fun _ hc => by cases hc
      · exact fun _ _ _ _ hs => by cases hs
      · rw [Task.pending, Task.pending, at_]
    · exact h.refuse _
  next at_ => -- identifying
    split at hn <;> cases hn
    next caller hcaller =>
      refine h.move ?_ ?_ ?_ h.members
      · intro c hc
        cases hc
        exact callerAccount_eq_ok hcaller
      · exact fun _ _ _ _ hs => by cases hs
      · rw [Task.pending, Task.pending, at_]
    · exact h.refuse _
  next caller deviceId rest at_ => -- contacting
    have own := h.caller caller (by rw [at_]; rfl)
    dsimp only at hn
    split at hn <;> cases hn
    next allowed =>
      refine h.evaluate (by rw [at_]; rfl) (fun _ _ _ _ hs => by cases hs) ?_ ⟨own, ?_⟩
      · rw [Task.pending, at_]
        rfl
      · intro account policy hfound
        dsimp only at hfound
        rw [hfound] at allowed
        obtain ⟨hdevice, hpolicy⟩ := contact?_eq_some hfound
        refine ⟨hdevice, (Contact.of_eq_allowed allowed).imp_right ?_⟩
        rintro rfl
        exact ⟨h.notMem_closed hpolicy (by decide), fun he => by cases he⟩
    · exact h.refuse _
    next account ifShared =>
      obtain ⟨hdevice, hpolicy⟩ := contact?_eq_some (Contact.of_eq_ifShared ifShared)
      refine h.move ?_ ?_ ?_ h.members
      · intro c hc
        cases hc
        exact own
      · intro c id a rest' hs
        cases hs
        exact ⟨hdevice, h.notMem_closed hpolicy (by decide)⟩
      · rw [Task.pending, Task.pending, at_]
  next caller deviceId account rest at_ => -- sharing
    have own := h.caller caller (by rw [at_]; rfl)
    obtain ⟨hdevice, open_⟩ := h.sharing caller deviceId account rest at_
    split at hn <;> cases hn
    next shared =>
      refine h.evaluate (by rw [at_]; rfl) (fun _ _ _ _ hs => by cases hs) ?_ ⟨own, ?_⟩
      · rw [Task.pending, at_]
        rfl
      · intro account' policy hfound
        cases hfound
        exact ⟨hdevice, .inr ⟨open_, fun _ => shared⟩⟩
    · exact h.refuse _
  next caller at_ => -- the last of the statements
    have nil : t.pending = [] := by rw [Task.pending, at_]
    split at hn
    · cases hn
    split at hn <;> cases hn
    · refine h.move ?_ ?_ ?_ fun m hm => ?_
      · exact fun _ hc => by cases hc
      · exact fun _ _ _ _ hs => by cases hs
      · rw [nil, Task.pending]
      · rcases List.mem_append.1 hm with hm | hm
        · exact h.members m hm
        · obtain ⟨id, hid, rfl⟩ := List.mem_map.1 (List.mem_of_mem_filter (List.mem_dedup.1 hm))
          exact .inr ⟨nil, hid⟩
    · exact h.refuse _
  · cases hn

end Task.Sound

/-! ## Runs -/

variable {P : Account.Primitives} {s s' : State} {a : Action}

theorem Task.next_underway {t : Task} (h : t.next db others = some t') : t.phase.underway := by
  rw [Task.next] at h
  cases hphase : t.phase with
  | added | refused | unanswered => rw [hphase] at h; cases h
  | creating | founding | joining | identifying | contacting | sharing | committing => rfl

/-- What a step does. -/
inductive State.Change (s : State) (a : Action) : State → Prop where
  | same : Change s a s
  | started (closed : ∀ a ∈ since, isClosed s.db a) :
      Change s a { s with tasks := s.tasks ++ [.start r since] }
  | moved (at_ : s.tasks[i]? = some t) (underway : t.phase.underway)
      (sound : t.Sound s.db → t'.Sound s.db) : Change s a { s with tasks := s.tasks.set i t' }
  | committed (at_ : s.tasks[i]? = some t) (committing : t.phase = .committing)
      (ends : phase = .added ∨ phase = .unanswered)
      (asked : s.noneSlipsIn a → ∀ m ∈ t.members, t.askedAbout s.db m) :
      Change s a (s.commit i t phase)
  | written {new : Database} (keeps : s.db.KeepsDevices new) (groups : new.groups ⊆ s.db.groups)
      (members : new.members ⊆ s.db.members) : Change s a (s.written new)

theorem State.change (h : s.step P a = some s') : s.Change a s' := by
  cases a with
  | receive groupId deviceId payload =>
    rw [State.step] at h
    split at h <;> cases h
    · exact .started fun a ha => (List.mem_filter.1 ha).2
    · exact .same
  | statement i =>
    obtain ⟨t, at_, h⟩ := Option.bind_eq_some_iff.1 h
    obtain ⟨t', hn, h⟩ := Option.bind_eq_some_iff.1 h
    cases h
    exact .moved at_ (Task.next_underway hn) fun sound => sound.next hn
  | commit i =>
    obtain ⟨t, at_, h⟩ := Option.bind_eq_some_iff.1 h
    obtain ⟨committing, h⟩ := Option.ite_none_right_eq_some.1 h
    cases h
    refine .committed at_ committing (.inl rfl) fun hg => ?_
    rw [State.noneSlipsIn, at_] at hg
    exact List.all_eq_true.1 hg
  | lose i =>
    obtain ⟨t, at_, h⟩ := Option.bind_eq_some_iff.1 h
    obtain ⟨committing, h⟩ := Option.ite_none_right_eq_some.1 h
    cases h
    refine .committed at_ committing (.inr rfl) fun hg => ?_
    rw [State.noneSlipsIn, at_] at hg
    exact List.all_eq_true.1 hg
  | fail i =>
    obtain ⟨t, at_, h⟩ := Option.bind_eq_some_iff.1 h
    obtain ⟨underway, h⟩ := Option.ite_none_right_eq_some.1 h
    cases h
    exact .moved at_ underway fun sound => sound.refuse _
  | createAccount id identityKey =>
    obtain ⟨_, h⟩ := Option.ite_none_left_eq_some.1 h
    cases h
    exact .written (fun _ _ h => h) (List.Subset.refl _) (List.Subset.refl _)
  | registerDevice payload =>
    obtain ⟨new, hnew, rfl⟩ := Option.map_eq_some_iff.1 h
    obtain ⟨devices, rfl, keeps⟩ := registerDevice_spec (Fallible.toOption_eq_some hnew)
    exact .written keeps (List.Subset.refl _) (List.Subset.refl _)
  | rotate account identityKey | setContactPolicy account policy =>
    cases h
    exact .written (fun _ _ h => h) (List.Subset.refl _) (List.Subset.refl _)
  | revoke deviceId =>
    cases h
    exact .written (keepsDevices_revoke deviceId) (List.Subset.refl _) (List.Subset.refl _)
  | removeMembers groupId deviceIds =>
    cases h
    exact .written (fun _ _ h => h) (List.Subset.refl _) (List.filter_subset_self _)
  | purge groupId =>
    obtain ⟨_, h⟩ := Option.ite_none_left_eq_some.1 h
    cases h
    exact .written (fun _ _ h => h) (List.filter_subset_self _) (List.Subset.refl _)

/-- Every row comes from a request that has been answered, or whose answer is lost. -/
structure Traced (s : State) : Prop where
  groups : ∀ g ∈ s.db.groups, ∃ c ∈ s.commits, c.task.group = some g
  members : ∀ m ∈ s.db.members, ∃ c ∈ s.commits, m ∈ c.task.members
  ended : ∀ c ∈ s.commits, ∃ t, s.tasks[c.index]? = some t ∧
    (t.phase = .added ∨ t.phase = .unanswered)

theorem Traced.step (h : Traced s) (hs : s.step P a = some s') : Traced s' := by
  cases State.change hs with
  | same => exact h
  | started =>
    refine { h with ended := fun c hc => ?_ }
    obtain ⟨t, at_, ends⟩ := h.ended c hc
    exact ⟨t, Tasks.getElem?_concat_eq_some_iff.2 (.inl at_), ends⟩
  | @moved i t t' at_ underway =>
    refine { h with ended := fun c hc => ?_ }
    obtain ⟨t₀, at₀, ends⟩ := h.ended c hc
    refine ⟨t₀, (Tasks.getElem?_set_eq_some_iff at_).2 (.inr ⟨?_, at₀⟩), ends⟩
    -- The request of a commit is over, and no statement of it is left.
    rintro rfl
    rw [at₀] at at_
    cases at_
    rcases ends with ends | ends <;> rw [ends] at underway <;> cases underway
  | @committed i t phase at_ committing ends =>
    refine ⟨fun g hg => ?_, fun m hm => ?_, Tasks.forall_mem_concat (fun c hc => ?_) ?_⟩
    · rcases List.mem_append.1 hg with hg | hg
      · obtain ⟨c, hc, hgroup⟩ := h.groups g hg
        exact ⟨c, List.mem_append_left _ hc, hgroup⟩
      · exact ⟨_, List.mem_append_right _ (List.mem_singleton_self _), Option.mem_toList.1 hg⟩
    · rcases List.mem_append.1 hm with hm | hm
      · obtain ⟨c, hc, hmember⟩ := h.members m hm
        exact ⟨c, List.mem_append_left _ hc, hmember⟩
      · exact ⟨_, List.mem_append_right _ (List.mem_singleton_self _), hm⟩
    · obtain ⟨t₀, at₀, ended⟩ := h.ended c hc
      refine ⟨t₀, (Tasks.getElem?_set_eq_some_iff at_).2 (.inr ⟨?_, at₀⟩), ended⟩
      rintro rfl
      rw [at₀] at at_
      cases at_
      rcases ended with ended | ended <;> rw [ended] at committing <;> cases committing
    · exact ⟨_, (Tasks.getElem?_set_eq_some_iff at_).2 (.inl ⟨rfl, rfl⟩), ends⟩
  | @written new _ groups members =>
    refine ⟨fun g hg => h.groups g (groups hg), fun m hm => h.members m (members hm), fun c hc => ?_⟩
    obtain ⟨t, at_, ended⟩ := h.ended c hc
    refine ⟨{ t with closed := t.closed.filter (isClosed new) }, ?_, ended⟩
    exact List.getElem?_map.trans (congrArg _ at_)

structure Inv (s : State) : Prop where
  tasks : ∀ t ∈ s.tasks, t.Sound s.db
  admitted : ∀ c ∈ s.commits, c.Admitted

/-- A commit whose devices were all known when they were asked about. -/
theorem Task.Sound.admitted {t : Task} (h : t.Sound s.db) (committing : t.phase = .committing)
    (asked : ∀ m ∈ t.members, t.askedAbout s.db m) : Commit.Admitted ⟨i, s.db, t⟩ := by
  intro m hm caller account hcaller haccount other
  have hid : m.deviceId ∈ t.request.deviceIds := by
    rcases h.members m hm with own | ⟨_, hid⟩
    · rw [own, hcaller] at haccount
      exact absurd (Option.some.inj haccount).symm other
    · exact hid
  -- A device found when it was asked about was let through by what was found.
  have of_found : ∀ e ∈ t.evaluated, e.deviceId = m.deviceId → e.found.isSome →
      account ∉ t.closed ∧ (e.policy s.db account = some .known →
        e.seen.shared caller account t.request.groupId) := by
    intro e he hdevice hfound
    obtain ⟨⟨account', policy⟩, hfound⟩ := Option.isSome_iff_exists.1 hfound
    obtain ⟨howner, lets⟩ := (h.evaluated e he).found account' policy hfound
    have hcaller' := (h.evaluated e he).caller
    rw [hdevice, haccount] at howner
    rw [hcaller] at hcaller'
    cases howner
    cases hcaller'
    refine (lets.resolve_left other).imp_right fun shared known => shared ?_
    rw [Evaluation.policy, hfound] at known
    exact Option.some.inj known
  obtain ⟨e, he, hdevice⟩ : ∃ e ∈ t.evaluated, e.deviceId = m.deviceId := by
    refine (h.asked m.deviceId hid).resolve_left fun hpending => ?_
    rw [Task.pending, committing] at hpending
    cases hpending
  have hask := asked m hm
  rw [Task.askedAbout, hcaller, haccount] at hask
  simp only [Bool.or_eq_true, Bool.and_eq_true, decide_eq_true_eq, List.any_eq_true] at hask
  rcases hask with (own | ⟨e', he', hdevice', hfound⟩) | ⟨open_, lets⟩
  · exact absurd own other
  · obtain ⟨open_, shared⟩ := of_found e' he' hdevice' hfound
    exact ⟨open_, e', he', hdevice', shared⟩
  · refine ⟨open_, ?_⟩
    rcases lets with unknown | ⟨e', he', hdevice', shared⟩
    · refine ⟨e, he, hdevice, fun known => ?_⟩
      cases hfound : e.found with
      | none =>
        rw [Evaluation.policy, hfound] at known
        exact absurd known unknown
      | some => exact (of_found e he hdevice (by rw [hfound]; rfl)).2 known
    · exact ⟨e', he', hdevice', fun _ => shared⟩

theorem Inv.step (h : Inv s) (hg : s.noneSlipsIn a) (hs : s.step P a = some s') : Inv s' := by
  cases State.change hs with
  | same => exact h
  | started closed => exact { h with tasks := Tasks.forall_mem_concat h.tasks (.start closed) }
  | moved at_ _ sound =>
    exact { h with tasks := Tasks.forall_mem_set h.tasks (sound (h.tasks _ (List.mem_of_getElem? at_))) }
  | @committed i t phase at_ committing ends asked =>
    have sound := h.tasks t (List.mem_of_getElem? at_)
    refine ⟨fun t' ht' => ?_, ?_⟩
    · have kept : t'.Sound s.db := by
        refine Tasks.forall_mem_set h.tasks ?_ t' ht'
        rcases ends with rfl | rfl
        · exact sound.finish rfl rfl
        · exact sound.finish rfl rfl
      exact kept.mono (fun _ _ h => h) (List.Subset.refl _) kept.closed
    · exact Tasks.forall_mem_concat h.admitted (sound.admitted committing (asked hg))
  | written keeps =>
    refine { h with tasks := fun t' ht' => ?_ }
    obtain ⟨t, ht, rfl⟩ := List.mem_map.1 ht'
    exact (h.tasks t ht).mono keeps (List.filter_subset_self _) fun a ha => (List.mem_filter.1 ha).2

theorem Inv.of_initial (initial : s.Initial) : Inv s := by
  refine ⟨fun t ht => ?_, fun c hc => ?_⟩
  · rw [initial.tasks] at ht
    cases ht
  · rw [initial.commits] at hc
    cases hc

theorem Traced.of_initial (initial : s.Initial) : Traced s := by
  refine ⟨fun g hg => ?_, fun m hm => ?_, fun c hc => ?_⟩
  · rw [initial.groups] at hg
    cases hg
  · rw [initial.members] at hm
    cases hm
  · rw [initial.commits] at hc
    cases hc

/-- A refused request has committed nothing. -/
theorem Traced.not_committed (h : Traced s) (at_ : s.tasks[i]? = some t)
    (refused : t.phase = .refused e) : ∀ c ∈ s.commits, c.index ≠ i := by
  rintro c hc rfl
  obtain ⟨t', at', ended⟩ := h.ended c hc
  rw [at_] at at'
  cases at'
  rcases ended with ended | ended <;> rw [refused] at ended <;> cases ended

/-- Where no device slips in, what is committed respects the policies; and every row of a group or
a member comes from a commit, none from a refused request. -/
theorem contact_policy_respected (initial : s.Initial)
    (run : Reach (State.step P) (fun s a => s.noneSlipsIn a) s s') :
    (∀ c ∈ s'.commits, c.Admitted) ∧
      (∀ g ∈ s'.db.groups, ∃ c ∈ s'.commits, c.task.group = some g) ∧
      (∀ m ∈ s'.db.members, ∃ c ∈ s'.commits, m ∈ c.task.members) ∧
      ∀ i t e, s'.tasks[i]? = some t → t.phase = .refused e → ∀ c ∈ s'.commits, c.index ≠ i := by
  have inv : Inv s' := run.invariant (.of_initial initial) fun h hg hs => h.step hg hs
  have traced : Traced s' := run.invariant (.of_initial initial) fun h _ hs => h.step hs
  exact ⟨inv.admitted, traced.groups, traced.members, fun _ _ _ at_ => traced.not_committed at_⟩

/-! ## A request that runs alone -/

/-- The group and the caller's place in it. -/
def enter (db : Database) (r : Request) : Except ApiError Database :=
  if (db.group? r.groupId).isSome then
    if ⟨r.groupId, r.deviceId⟩ ∈ db.members then .ok db else .error .forbidden
  else if (db.device? r.deviceId).isSome then
    .ok { db with
      groups := db.groups ++ [⟨r.groupId, r.postingKey⟩]
      members := db.members ++ [⟨r.groupId, r.deviceId⟩] }
  else .error .database

/-- The devices asked for, all or none. -/
def contactAll (db : Database) (caller : String) (groupId : Bytes) :
    List String → Except ApiError Unit
  | [] => .ok ()
  | id :: rest =>
    if db.mayContact caller id groupId then contactAll db caller groupId rest
    else .error .forbidden

/-- Their rows. -/
def insertAll (db : Database) (r : Request) : Except ApiError Database :=
  if (db.group? r.groupId).isSome ∧ r.deviceIds.all fun id => (db.device? id).isSome then
    let rows : List Member := r.deviceIds.map fun id => ⟨r.groupId, id⟩
    .ok { db with members := db.members ++ (rows.filter (· ∉ db.members)).dedup }
  else .error .database

/-- `add_members` while nothing else happens: what it leaves committed. -/
def addMembers (db : Database) (r : Request) : Except ApiError Database := do
  let db ← enter db r
  let caller ← db.callerAccount r.deviceId
  contactAll db caller r.groupId r.deviceIds
  insertAll db r

namespace Task

variable {db : Database} {t t' : Task}

/-- The statements of a request whose transaction is the only one. -/
def Alone (db : Database) : Task → Task → Prop :=
  Relation.ReflTransGen fun t t' => t.next db [] = some t'

/-- How a request ends that runs alone. -/
def Ends (db : Database) (result : Except ApiError Database) (t : Task) : Prop :=
  match result with
  | .ok committed => t.phase = .committing ∧ t.view db = committed
  | .error e => t.phase = .refused e

/-- How the questions about the devices end. -/
def Asked (caller : String) (result : Except ApiError Unit) (t t' : Task) : Prop :=
  match result with
  | .ok () => t'.phase = .contacting caller [] ∧ t'.request = t.request ∧ t'.group = t.group ∧
      t'.members = t.members
  | .error e => t'.phase = .refused e

theorem alone_insert (at_ : t.phase = .contacting caller []) :
    ∃ t', t.next db [] = some t' ∧ t'.Ends db (insertAll (t.view db) t.request) := by
  rw [next, at_, insertAll]
  simp only [List.any_nil, Bool.false_eq_true, if_false]
  split
  · refine ⟨_, rfl, rfl, ?_⟩
    rw [view, view, List.append_assoc]
    rfl
  · exact ⟨_, rfl, rfl⟩

/-- The devices left are asked about one after the other. -/
theorem alone_contact (at_ : t.phase = .contacting caller rest) :
    ∃ t', Alone db t t' ∧
      Asked caller (contactAll (t.view db) caller t.request.groupId rest) t t' := by
  induction rest generalizing t with
  | nil => exact ⟨t, .refl, at_, rfl, rfl, rfl⟩
  | cons id rest ih =>
    rw [contactAll]
    cases hcontact : Contact.of caller ((t.view db).contact? id) with
    | allowed =>
      have may : (t.view db).mayContact caller id t.request.groupId := by
        rw [Database.mayContact, hcontact]
      have first : t.next db [] = some (t.evaluate ⟨id, caller, (t.view db).contact? id, t.view db⟩
          (.contacting caller rest)) := by
        rw [next, at_]
        dsimp only
        rw [hcontact]
      rw [if_pos may]
      obtain ⟨t', run, ends⟩ := ih (t := t.evaluate _ _) rfl
      exact ⟨t', .head first run, ends⟩
    | denied =>
      have may : ¬ (t.view db).mayContact caller id t.request.groupId := by
        rw [Database.mayContact, hcontact]
        exact Bool.false_ne_true
      have first : t.next db [] = some (t.finish (.refused .forbidden)) := by
        rw [next, at_]
        dsimp only
        rw [hcontact]
      rw [if_neg may]
      exact ⟨_, .single first, rfl⟩
    | ifShared account =>
      have may : (t.view db).mayContact caller id t.request.groupId =
          (t.view db).shared caller account t.request.groupId := by
        rw [Database.mayContact, hcontact]
      have first : t.next db [] = some { t with phase := .sharing caller id account rest } := by
        rw [next, at_]
        dsimp only
        rw [hcontact]
      rw [may]
      cases hshared : (t.view db).shared caller account t.request.groupId with
      | true =>
        have second : Task.next db [] { t with phase := .sharing caller id account rest } =
            some (t.evaluate ⟨id, caller, some (account, .known), t.view db⟩
              (.contacting caller rest)) := if_pos hshared
        obtain ⟨t', run, ends⟩ := ih (t := t.evaluate _ _) rfl
        exact ⟨t', .head first (.head second run), ends⟩
      | false =>
        have second : Task.next db [] { t with phase := .sharing caller id account rest } =
            some (t.finish (.refused .forbidden)) := if_neg (Bool.eq_false_iff.1 hshared)
        exact ⟨_, .head first (.single second), rfl⟩

/-- The transaction that runs alone has found or created its group. -/
theorem alone_enter (r : Request) (closed : List String) :
    ∃ t, Alone db (.start r closed) t ∧ t.request = r ∧
      match enter db r with
      | .ok entered => t.phase = .identifying ∧ t.view db = entered
      | .error e => t.phase = .refused e := by
  have unchanged : (Task.start r closed).view db = db := by
    rw [view, start, Option.toList_none, List.append_nil, List.append_nil]
  have others : (([] : List Task).any fun o => o.group.any (·.id = r.groupId)) ≠ true :=
    Bool.false_ne_true
  rw [enter]
  by_cases there : (db.group? r.groupId).isSome
  · have first : (Task.start r closed).next db [] =
        some { Task.start r closed with phase := .joining } := by
      rw [next]
      exact (if_neg others).trans (if_pos (unchanged.symm ▸ there))
    rw [if_pos there]
    by_cases member : ⟨r.groupId, r.deviceId⟩ ∈ db.members
    · have second : Task.next db [] { Task.start r closed with phase := .joining } =
          some { Task.start r closed with phase := .identifying } :=
        if_pos (List.mem_append_left _ member)
      rw [if_pos member]
      exact ⟨_, .head first (.single second), rfl, rfl, unchanged⟩
    · have second : Task.next db [] { Task.start r closed with phase := .joining } =
          some ((Task.start r closed).finish (.refused .forbidden)) := by
        refine if_neg fun hm => member ?_
        rcases List.mem_append.1 hm with hm | hm
        · exact hm
        · cases hm
      rw [if_neg member]
      exact ⟨_, .head first (.single second), rfl, rfl⟩
  · have first : (Task.start r closed).next db [] = some { Task.start r closed with
        group := some ⟨r.groupId, r.postingKey⟩, phase := .founding } := by
      rw [next]
      exact (if_neg others).trans (if_neg (unchanged.symm ▸ there))
    rw [if_neg there]
    by_cases registered : (db.device? r.deviceId).isSome
    · rw [if_pos registered]
      exact ⟨_, .head first (.single (if_pos registered)), rfl, rfl, rfl⟩
    · rw [if_neg registered]
      exact ⟨_, .head first (.single (if_neg registered)), rfl, rfl⟩

/-- A request whose transaction is the only one does what `addMembers` says. -/
theorem alone_ends (r : Request) (closed : List String) :
    ∃ t, Alone db (.start r closed) t ∧ t.Ends db (addMembers db r) := by
  obtain ⟨t, run, rfl, entered⟩ := alone_enter r closed
  rw [addMembers]
  cases henter : enter db t.request with
  | error e =>
    rw [henter] at entered
    exact ⟨t, run, entered⟩
  | ok db' =>
    rw [henter] at entered
    obtain ⟨at_, rfl⟩ := entered
    change ∃ t' : Task, _ ∧ t'.Ends db ((t.view db).callerAccount t.request.deviceId >>= _)
    cases hcaller : (t.view db).callerAccount t.request.deviceId with
    | error e =>
      have third : t.next db [] = some (t.finish (.refused e)) := by
        rw [next, at_]
        dsimp only
        rw [hcaller]
      exact ⟨_, run.trans (.single third), rfl⟩
    | ok caller =>
      have third : t.next db [] =
          some { t with phase := .contacting caller t.request.deviceIds } := by
        rw [next, at_]
        dsimp only
        rw [hcaller]
      obtain ⟨t', run', asked⟩ := alone_contact
        (t := { t with phase := .contacting caller t.request.deviceIds }) rfl
      have asked : Asked caller
          (contactAll (t.view db) caller t.request.groupId t.request.deviceIds) t t' := asked
      have run := (run.trans (.single third)).trans run'
      change ∃ t' : Task, _ ∧ t'.Ends db
        (contactAll (t.view db) caller t.request.groupId t.request.deviceIds >>= _)
      cases hall : contactAll (t.view db) caller t.request.groupId t.request.deviceIds with
      | error e =>
        rw [hall] at asked
        exact ⟨t', run, asked⟩
      | ok =>
        rw [hall] at asked
        obtain ⟨at', hr, hg, hm⟩ := asked
        obtain ⟨t'', last, ends⟩ := alone_insert at'
        have same : t'.view db = t.view db := by rw [view, view, hg, hm]
        rw [same, hr] at ends
        exact ⟨t'', run.trans (.single last), ends⟩

end Task

/-! ## A device that comes in between -/

/-- Every key is a key, and every signature verifies. -/
def trusting : Account.Primitives where
  sha256 _ := []
  isVerifyingKey _ := true
  verify _ _ _ := true

def empty : State := ⟨⟨[], [], [], []⟩, [], []⟩

theorem empty_initial : empty.Initial := ⟨rfl, rfl, rfl, rfl⟩

def alice : String := "aaaaaaaaaaaaaaaaaaaaaaaaaaaaaaaa"

def bob : String := "bbbbbbbbbbbbbbbbbbbbbbbbbbbbbbbb"

def phoneOf (account : String) : String := account ++ ":phone"

/-- The registration of an account's phone. -/
def phone (account : String) : RegisterDevice where
  id := phoneOf account
  account
  authKey := Base64.encode (List.replicate 32 1)
  mlsKey := Base64.encode [2]
  attestation := Base64.encode (List.replicate 64 3)

/-- Alice has a phone; Bob has an account, with this policy, and no device yet. -/
def twoAccounts (policy : ContactPolicy) : List Action :=
  [.createAccount alice (List.replicate 32 4), .createAccount bob (List.replicate 32 5),
    .registerDevice (phone alice), .setContactPolicy bob policy]

/-- Alice adds Bob's phone to a new group. -/
def addsBob : Action := .receive "0a" (phoneOf alice) (some ⟨[phoneOf bob], none⟩)

/-- Alice adds Bob's phone, which was registered before; then he closes, and she asks again. -/
def addedThenRefused : List Action :=
  twoAccounts .open ++ [.registerDevice (phone bob), addsBob] ++ List.replicate 5 (.statement 0) ++
    [.commit 0, .setContactPolicy bob .closed, addsBob] ++ List.replicate 4 (.statement 1)

theorem contact_policy_respected_addedThenRefused : ∃ s,
    Reach (State.step trusting) (fun s a => s.noneSlipsIn a) empty s ∧
      (s.commits.map fun c => c.task.members) ≠ [] ∧
      ((∀ c ∈ s.commits, c.Admitted) ∧
        (∀ g ∈ s.db.groups, ∃ c ∈ s.commits, c.task.group = some g) ∧
        (∀ m ∈ s.db.members, ∃ c ∈ s.commits, m ∈ c.task.members) ∧
        ∀ i t e, s.tasks[i]? = some t → t.phase = .refused e → ∀ c ∈ s.commits, c.index ≠ i) := by
  have executed : ∃ s, run (fun s a => if s.noneSlipsIn a then s.step trusting a else none) empty
      addedThenRefused = some s ∧ (s.commits.map fun c => c.task.members) ≠ [] :=
    ⟨_, rfl, List.cons_ne_nil _ _⟩
  obtain ⟨s, h, some_⟩ := executed
  have reached : Reach (State.step trusting) (fun s a => s.noneSlipsIn a) empty s :=
    reach_of_run_guarded h
  exact ⟨s, reached, some_, contact_policy_respected empty_initial reached⟩

/-- Bob is closed, and his phone is registered when Alice has asked about it. -/
def registeredMeanwhile : List Action :=
  twoAccounts .closed ++ [addsBob] ++ List.replicate 4 (.statement 0) ++
    [.registerDevice (phone bob), .statement 0, .commit 0]

/-- The phone of an account that was closed throughout is in the group of another. -/
theorem registered_meanwhile_slips_in : empty.Initial ∧ ∃ s,
    run (State.step trusting) empty registeredMeanwhile = some s ∧
      ∃ c ∈ s.commits, ∃ m ∈ c.task.members, m ∈ s.db.members ∧
        c.db.accountOf c.task.request.deviceId = some alice ∧
        c.db.accountOf m.deviceId = some bob ∧ bob ∈ c.task.closed :=
  ⟨empty_initial, _, rfl, _, .head _, _, .tail _ (.head _), .tail _ (.head _), rfl, rfl, .head _⟩

end Whispee.Server.AddMembers
