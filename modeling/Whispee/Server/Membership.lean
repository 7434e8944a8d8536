import Whispee.Server.AddMembers
import Whispee.Server.Envelopes
import Whispee.Server.Storage

/-!
# What is reserved to members

The routes of `crates/server/src/routes.rs`, and the frame of `crates/server/src/gateway.rs`, that
are for the members of a group, one request at a time: those that ask whether the signing device is
a member, and those that ask for the group's MAC instead and do not learn who sends it. What the
signature, the headers and the JSON of a request amount to is taken from it beforehand.
-/

namespace Whispee.Server.Membership

open Groups AddMembers

def MAX_SIGNAL_BYTES : Nat := 4096

def DOMAIN_POST : Bytes := asBytes "wac-post-v1"

def DOMAIN_SIGNAL : Bytes := asBytes "wac-signal-mac-v1"

structure Crypto where
  sha256 : Bytes → Bytes
  hmac : (key message : Bytes) → Bytes

/-! ## The tables -/

structure VaultRow where
  account : String
  groupId : Bytes
  seq : Int
  payload : Bytes
  deriving DecidableEq

structure AttachmentRow where
  id : Nat
  groupId : Bytes
  account : String
  payload : Bytes

structure Store where
  db : Database
  /-- `next_seq` and the envelopes of a group. -/
  mailbox : Bytes → GroupTable
  /-- `posting_nonces`, as rows of group and nonce. -/
  postingNonces : List (Bytes × Bytes)
  vault : List VaultRow
  attachments : List AttachmentRow
  /-- `account_storage.bytes`. -/
  stored : String → Option Nat

inductive Answer where
  | added (count : Nat)
  | removed (count : Nat)
  | posted (seq : Nat)
  | page (page : EnvelopePage)
  | stored (count : Nat)
  | uploaded (id : Nat)
  | payload (bytes : Bytes)
  | noContent
  | subscribed
  /-- The error frame of a refused subscription. -/
  | denied
  /-- A refusal that leaves something behind. -/
  | refused (error : ApiError)
  deriving DecidableEq

/-- A handler's answer, and what it leaves. -/
abbrev Handled := Except ApiError (Store × Answer)

/-- `storage::charge`. -/
def Store.charge (s : Store) (ceiling : Nat) (account : String) (bytes : Nat) : Option Store :=
  match s.stored account with
  | none => none
  | some stored =>
    if ceiling = 0 ∨ stored + bytes ≤ ceiling then
      some { s with stored := Function.update s.stored account (some (stored + bytes)) }
    else none

/-! ## By membership -/

/-- `writes.allows`, which has counted the request. -/
def throttle (allowed : Bool) : Except ApiError Unit :=
  if allowed then .ok () else .error .tooManyRequests

def addMembers (s : Store) (groupId deviceId : String) (payload : Option Payload) : Handled := do
  let r ← receive groupId deviceId payload
  let db ← AddMembers.addMembers s.db r
  .ok ({ s with db }, .added r.deviceIds.length)

def removeMembers (s : Store) (groupId deviceId : String) (payload : Option (List String)) :
    Handled := do
  let groupId ← decodeGroupId groupId
  let deviceIds ← json payload
  if deviceIds.isEmpty then .error (.badRequest "no device provided")
  else do
    s.db.requireMembership groupId deviceId
    let db := s.db.removeMembers groupId deviceIds
    .ok ({ s with db }, .removed (s.db.members.length - db.members.length))

/-- The part of `post_envelope` that both of its paths end in. -/
def insertEnvelope (s : Store) (groupId blob : Bytes) (now : Nat) : Handled :=
  if blob.isEmpty then .error (.badRequest "empty envelope")
  else if (s.db.group? groupId).isNone then .error .database
  else
    let seq := (s.mailbox groupId).nextSeq + 1
    let table := (s.mailbox groupId).insert ⟨seq, blob, now⟩
    .ok ({ s with mailbox := Function.update s.mailbox groupId table }, .posted seq)

/-- `post_envelope`, signed. -/
def postEnvelope (s : Store) (groupId deviceId : String) (allowed : Bool)
    (payload : Option String) (now : Nat) : Handled := do
  let groupId ← decodeGroupId groupId
  throttle allowed
  let payload ← json payload
  s.db.requireMembership groupId deviceId
  let blob ← decodeB64 payload
  insertEnvelope s groupId blob now

def fetchEnvelopes (s : Store) (groupId deviceId : String) (after : Int) : Handled := do
  let groupId ← decodeGroupId groupId
  s.db.requireMembership groupId deviceId
  if (s.db.group? groupId).isNone then .error .database
  else
    let mailbox := s.mailbox groupId
    .ok (s, .page ⟨mailbox.oldestSurviving, mailbox.page after.toNat⟩)

/-- `INSERT INTO vault_entries … ON CONFLICT DO NOTHING RETURNING octet_length(payload)`. -/
def insertVault (vault : List VaultRow) : List VaultRow → List VaultRow × Nat
  | [] => (vault, 0)
  | row :: rows =>
    if vault.any fun old => old.account = row.account ∧ old.groupId = row.groupId ∧ old.seq = row.seq
    then insertVault vault rows
    else
      let (vault, bytes) := insertVault (vault ++ [row]) rows
      (vault, row.payload.length + bytes)

def storeVault (ceiling : Nat) (s : Store) (groupId deviceId : String) (allowed : Bool)
    (payload : Option (List (Int × String))) : Handled := do
  throttle allowed
  let groupId ← decodeGroupId groupId
  let entries ← json payload
  if entries.isEmpty then .error (.badRequest "no entry provided")
  else if entries.length > Storage.MAX_VAULT_ENTRIES then
    .error (.badRequest "too many entries in one request")
  else do
    s.db.requireMembership groupId deviceId
    let account ← s.db.callerAccount deviceId
    let rows ← entries.mapM fun entry => do
      let payload ← decodeB64 entry.2
      .ok (⟨account, groupId, entry.1, payload⟩ : VaultRow)
    let (vault, bytes) := insertVault s.vault rows
    let s ← (Store.charge { s with vault } ceiling account bytes).elim (.error .insufficientStorage) .ok
    .ok (s, .stored entries.length)

/-- `upload_attachment`, under the id the database draws. -/
def uploadAttachment (ceiling : Nat) (s : Store) (groupId deviceId : String) (allowed : Bool)
    (body : Bytes) (id : Nat) : Handled := do
  throttle allowed
  let groupId ← decodeGroupId groupId
  s.db.requireMembership groupId deviceId
  if body.isEmpty then .error (.badRequest "empty attachment")
  else do
    let account ← s.db.callerAccount deviceId
    let s ← (s.charge ceiling account body.length).elim (.error .insufficientStorage) .ok
    .ok ({ s with attachments := s.attachments ++ [⟨id, groupId, account, body⟩] }, .uploaded id)

/-- `download_attachment`, of an id if it is one. -/
def downloadAttachment (s : Store) (groupId deviceId : String) (id : Option Nat) : Handled := do
  let groupId ← decodeGroupId groupId
  s.db.requireMembership groupId deviceId
  let id ← id.elim (.error (.badRequest "invalid attachment id")) .ok
  let row ← (s.attachments.find? fun row => row.id = id ∧ row.groupId = groupId).elim
    (.error .notFound) .ok
  .ok (s, .payload row.payload)

/-- The gateway's `subscribe` frame. -/
def subscribe (s : Store) (groupId deviceId : String) : Handled :=
  match decodeGroupId groupId with
  | .error _ => .error (.badRequest "invalid frame")
  | .ok groupId => do
    if ← s.db.isMember groupId deviceId then .ok (s, .subscribed) else .ok (s, .denied)

/-! ## By the group's MAC -/

/-- `posting_key` of a group. -/
def postingKey (s : Store) (groupId : Bytes) : Except ApiError Bytes := do
  let group ← (s.db.group? groupId).elim (.error .notFound) .ok
  group.postingKey.elim (.error .forbidden) .ok

def verifyGroupMac (C : Crypto) (postingKey message mac : Bytes) : Except ApiError Unit :=
  if C.hmac postingKey message = mac then .ok () else .error .forbidden

/-- Checks that an ephemeral signal comes from a group member, without learning which one. -/
def verifySignal (C : Crypto) (s : Store) (groupId nonce mac body : Bytes) :
    Except ApiError Unit :=
  if nonce.length ≠ 16 then .error (.badRequest "invalid signal nonce")
  else if body.length > MAX_SIGNAL_BYTES then .error (.badRequest "signal too large")
  else do
    let key ← postingKey s groupId
    let message ← (Account.encode DOMAIN_SIGNAL [groupId, nonce, C.sha256 body]).toOption.elim
      (.error (.badRequest "malformed signal")) .ok
    verifyGroupMac C key message mac

/-- A header in base64, if it is there and readable. -/
def header (value : Option Bytes) (missing : String) : Except ApiError Bytes :=
  value.elim (.error (.badRequest missing)) .ok

def postSignal (C : Crypto) (s : Store) (groupId : String) (nonce mac body : Option Bytes) :
    Handled := do
  let groupId ← decodeGroupId groupId
  let nonce ← header nonce "signal header missing or unreadable"
  let mac ← header mac "signal header missing or unreadable"
  let body ← body.elim (.error (.badRequest "unreadable body")) .ok
  verifySignal C s groupId nonce mac body
  .ok (s, .noContent)

/-- A refusal after the nonce of a post is used up. -/
def useNonce (s : Store) : Handled → Handled
  | .ok posted => .ok posted
  | .error e => .ok (s, .refused e)

/-- `post_envelope` of nobody in particular, of a body and of the payload it parses to. -/
def postAnonymously (C : Crypto) (s : Store) (groupId : String) (nonce mac : Option Bytes)
    (body : Option (Bytes × Option String)) (now : Nat) : Handled := do
  let groupId ← decodeGroupId groupId
  let nonce ← header nonce "anonymous post header missing or unreadable"
  let mac ← header mac "anonymous post header missing or unreadable"
  if nonce.length ≠ 16 then .error (.badRequest "invalid post nonce")
  else do
    let key ← postingKey s groupId
    let (body, payload) ← body.elim (.error (.badRequest "unreadable body")) .ok
    let payload ← payload.elim (.error (.badRequest "invalid body")) .ok
    let blob ← decodeB64 payload
    let message ← (Account.encode DOMAIN_POST [groupId, nonce, C.sha256 body]).toOption.elim
      (.error (.badRequest "malformed post")) .ok
    verifyGroupMac C key message mac
    if (groupId, nonce) ∈ s.postingNonces then .error .forbidden
    else
      let s := { s with postingNonces := s.postingNonces ++ [(groupId, nonce)] }
      useNonce s (insertEnvelope s groupId blob now)

/-! ## Any of them -/

inductive Operation where
  | addMembers (payload : Option Payload)
  | removeMembers (payload : Option (List String))
  | postEnvelope (allowed : Bool) (payload : Option String) (now : Nat)
  | fetchEnvelopes (after : Int)
  | storeVault (allowed : Bool) (payload : Option (List (Int × String)))
  | uploadAttachment (allowed : Bool) (body : Bytes) (id : Nat)
  | downloadAttachment (id : Option Nat)
  | subscribe
  | postSignal (nonce mac body : Option Bytes)
  | postAnonymously (nonce mac : Option Bytes) (body : Option (Bytes × Option String)) (now : Nat)

/-- What a device asks of a group. -/
structure Asked where
  groupId : String
  deviceId : String
  operation : Operation

def handle (C : Crypto) (ceiling : Nat) (s : Store) (asked : Asked) : Handled :=
  let ⟨groupId, deviceId, operation⟩ := asked
  match operation with
  | .addMembers payload => addMembers s groupId deviceId payload
  | .removeMembers payload => removeMembers s groupId deviceId payload
  | .postEnvelope allowed payload now => postEnvelope s groupId deviceId allowed payload now
  | .fetchEnvelopes after => fetchEnvelopes s groupId deviceId after
  | .storeVault allowed payload => storeVault ceiling s groupId deviceId allowed payload
  | .uploadAttachment allowed body id => uploadAttachment ceiling s groupId deviceId allowed body id
  | .downloadAttachment id => downloadAttachment s groupId deviceId id
  | .subscribe => subscribe s groupId deviceId
  -- The device is not in the request.
  | .postSignal nonce mac body => postSignal C s groupId nonce mac body
  | .postAnonymously nonce mac body now => postAnonymously C s groupId nonce mac body now

def answer (C : Crypto) (ceiling : Nat) (s : Store) (asked : Asked) : Except ApiError Answer :=
  (handle C ceiling s asked).map (·.2)

def Refused : Except ApiError Answer → Prop
  | .error _ | .ok .denied | .ok (.refused _) => True
  | .ok _ => False

namespace Asked

/-- What is asked is for members, by the list of the group's members. A group that is not there is
created for anybody. -/
def reserved (asked : Asked) (s : Store) : Bool :=
  match asked.operation with
  | .addMembers _ =>
    (decodeGroupId asked.groupId).toOption.all fun groupId => (s.db.group? groupId).isSome
  | .postSignal .. | .postAnonymously .. => false
  | _ => true

/-- A device on the list of a group that is there adds others, none of which the contact policy
keeps out. -/
def addsToGroup (asked : Asked) (s : Store) : Bool :=
  match asked.operation with
  | .addMembers payload =>
    (receive asked.groupId asked.deviceId payload).toOption.any fun r =>
      (s.db.group? r.groupId).isSome && ⟨r.groupId, r.deviceId⟩ ∈ s.db.members &&
        (s.db.accountOf r.deviceId).any fun caller =>
          r.deviceIds.all fun id => s.db.mayContact caller id r.groupId
  | _ => false

end Asked

/-- The device was never revoked, and is not on the list of the group. -/
def stranger (db : Database) (groupId : Bytes) (deviceId : String) : Database :=
  { db.removeMembers groupId [deviceId] with
    devices := db.devices.map fun d => if d.id = deviceId then { d with revoked := false } else d }

/-- The state in which the device that asks is a stranger to the group it names. -/
def Store.toStranger (s : Store) (asked : Asked) : Store :=
  match decodeGroupId asked.groupId with
  | .ok groupId => { s with db := stranger s.db groupId asked.deviceId }
  | .error _ => s

/-! ## Strangers and the contact policy -/

section
variable {db db' : Database}

theorem device?_map {f : DeviceRow → DeviceRow} (keeps : ∀ d, (f d).id = d.id) (id : String) :
    Database.device? { db with devices := db.devices.map f } id = (db.device? id).map f := by
  rw [Database.device?, List.find?_map, Database.device?]
  congr 2
  funext d
  exact congrArg (fun id' => decide (id' = id)) (keeps d)

theorem mem_stranger {m : Member} :
    m ∈ (stranger db groupId deviceId).members ↔ m ∈ db.members ∧ m ≠ ⟨groupId, deviceId⟩ := by
  obtain ⟨group, device⟩ := m
  simp [stranger, Database.removeMembers, imp_iff_not_or]

theorem device?_stranger (id : String) :
    (stranger db groupId deviceId).device? id = (db.device? id).map fun d =>
      if d.id = deviceId then { d with revoked := false } else d :=
  device?_map (fun d => by split <;> rfl) id

theorem accountOf_stranger (id : String) :
    (stranger db groupId deviceId).accountOf id = db.accountOf id := by
  rw [Database.accountOf, device?_stranger, Option.map_map, Database.accountOf]
  congr 1
  funext d
  dsimp only [Function.comp]
  split <;> rfl

theorem contact?_eq (id : String) : db.contact? id =
    (db.accountOf id).bind fun account =>
      (db.account? account).map fun a => (a.id, a.contactPolicy) := by
  rw [Database.contact?, Database.accountOf]
  cases db.device? id with
  | none => rfl
  | some d =>
    change ((db.account? d.account).bind fun a => some (a.id, a.contactPolicy)) =
      (db.account? d.account).map _
    cases db.account? d.account <;> rfl

theorem shared_of_shared (accounts : ∀ id, db'.accountOf id = db.accountOf id)
    (members : ∀ m ∈ db.members, m.groupId ≠ groupId → m ∈ db'.members)
    (h : db.shared caller account groupId) : db'.shared caller account groupId := by
  simp only [Database.shared, List.any_eq_true, decide_eq_true_eq] at h ⊢
  obtain ⟨mine, hmine, elsewhere, own, theirs, htheirs, same, other⟩ := h
  refine ⟨mine, members mine hmine elsewhere, elsewhere, (accounts _).trans own, theirs, ?_, same,
    (accounts _).trans other⟩
  exact members theirs htheirs (same ▸ elsewhere)

/-- Who may be contacted does not depend on who is in the group itself. -/
theorem mayContact_congr (accounts : db'.accounts = db.accounts)
    (devices : ∀ id, db'.accountOf id = db.accountOf id)
    (members : ∀ m, m.groupId ≠ groupId → (m ∈ db'.members ↔ m ∈ db.members)) :
    db'.mayContact caller deviceId groupId = db.mayContact caller deviceId groupId := by
  have contact : db'.contact? deviceId = db.contact? deviceId := by
    rw [contact?_eq, contact?_eq, devices]
    congr 1
    funext account
    rw [Database.account?, Database.account?, accounts]
  have shared : ∀ account, db'.shared caller account groupId = db.shared caller account groupId :=
    fun account => Bool.eq_iff_iff.2
      ⟨shared_of_shared (fun id => (devices id).symm) fun m hm other => (members m other).1 hm,
        shared_of_shared devices fun m hm other => (members m other).2 hm⟩
  rw [Database.mayContact, Database.mayContact, contact]
  cases Contact.of caller (db.contact? deviceId) with
  | allowed | denied => rfl
  | ifShared account => exact shared account

theorem contactAll_eq (ids : List String) : contactAll db caller groupId ids =
    if ids.all fun id => db.mayContact caller id groupId then .ok () else .error .forbidden := by
  induction ids with
  | nil => rfl
  | cons id ids ih =>
    rw [contactAll, ih, List.all_cons]
    cases db.mayContact caller id groupId <;> rfl

/-! ## Adding, as a stranger and as a revoked member -/

variable {r : Request}

/-- A device on the list is let in, revoked or not. -/
theorem addMembers_member (there : (db.group? r.groupId).isSome)
    (hmem : ⟨r.groupId, r.deviceId⟩ ∈ db.members) (own : db.accountOf r.deviceId = some caller) :
    AddMembers.addMembers db r =
      if r.deviceIds.all fun id => db.mayContact caller id r.groupId then insertAll db r
      else .error .forbidden := by
  have entered : enter db r = .ok db := by
    rw [enter, if_pos there, if_pos hmem]
  have called : db.callerAccount r.deviceId = .ok caller := by
    rw [Database.callerAccount, own]
    rfl
  rw [AddMembers.addMembers, entered]
  change (db.callerAccount r.deviceId >>= _) = _
  rw [called]
  change (contactAll db caller r.groupId r.deviceIds >>= _) = _
  rw [contactAll_eq]
  split <;> rfl

/-- A device that is not on the list adds nothing to a group that is there. -/
theorem addMembers_of_notMem (there : (db.group? r.groupId).isSome)
    (out : ⟨r.groupId, r.deviceId⟩ ∉ db.members) :
    AddMembers.addMembers db r = .error .forbidden := by
  rw [AddMembers.addMembers, enter, if_pos there, if_neg out]
  rfl

theorem insertAll_ne_forbidden : insertAll db r ≠ .error .forbidden := by
  rw [insertAll]
  split
  · exact fun h => by cases h
  · exact fun h => by cases h

/-- What follows the entry into a group answers the same over two databases that differ in the list
of this group only. -/
theorem entered_congr (accounts : db'.accounts = db.accounts)
    (devices : ∀ id, db'.accountOf id = db.accountOf id)
    (registered : ∀ id, (db'.device? id).isSome = (db.device? id).isSome)
    (group : db'.group? r.groupId = db.group? r.groupId)
    (members : ∀ m, m.groupId ≠ r.groupId → (m ∈ db'.members ↔ m ∈ db.members))
    (f : Database → α) (same : ∀ db db', f db = f db') :
    Except.map f (do
      let caller ← db'.callerAccount r.deviceId
      contactAll db' caller r.groupId r.deviceIds
      insertAll db' r) =
    Except.map f (do
      let caller ← db.callerAccount r.deviceId
      contactAll db caller r.groupId r.deviceIds
      insertAll db r) := by
  rw [Database.callerAccount, Database.callerAccount, devices]
  cases db.accountOf r.deviceId with
  | none => rfl
  | some caller =>
    change Except.map f (contactAll db' caller r.groupId r.deviceIds >>= _) =
      Except.map f (contactAll db caller r.groupId r.deviceIds >>= _)
    rw [contactAll_eq, contactAll_eq]
    simp only [mayContact_congr accounts devices members]
    split
    · change Except.map f (insertAll db' r) = Except.map f (insertAll db r)
      rw [insertAll, insertAll]
      simp only [registered, group]
      by_cases possible : (db.group? r.groupId).isSome ∧
          r.deviceIds.all fun id => (db.device? id).isSome
      · rw [if_pos possible, if_pos possible]
        exact congrArg Except.ok (same _ _)
      · rw [if_neg possible, if_neg possible]
    · rfl

/-- Anybody may create a group; that the creator is revoked changes nothing. -/
theorem addMembers_creating (missing : ¬ (db.group? r.groupId).isSome) (f : Database → α)
    (same : ∀ db db', f db = f db') :
    (AddMembers.addMembers (stranger db r.groupId r.deviceId) r).map f =
      (AddMembers.addMembers db r).map f := by
  have registered : ∀ id, ((stranger db r.groupId r.deviceId).device? id).isSome =
      (db.device? id).isSome := fun id => by rw [device?_stranger, Option.isSome_map]
  have owners : ∀ id, (stranger db r.groupId r.deviceId).accountOf id = db.accountOf id :=
    accountOf_stranger
  have missing' : ¬ ((stranger db r.groupId r.deviceId).group? r.groupId).isSome := missing
  rw [AddMembers.addMembers, AddMembers.addMembers, enter, enter, if_neg missing, if_neg missing',
    registered]
  split
  · apply entered_congr
    · rfl
    · exact owners
    · exact registered
    · rfl
    · intro m elsewhere
      simp only [List.mem_append, mem_stranger]
      refine or_congr_left ⟨fun h => h.1, fun h => ⟨h, ?_⟩⟩
      rintro rfl
      exact elsewhere rfl
    · exact same
  · rfl

end

/-! ## A revoked device -/

variable {C : Crypto} {s : Store}

/-- The device is not a member of the group it names. -/
def Store.Bars (s : Store) (asked : Asked) : Prop :=
  ∀ groupId, decodeGroupId asked.groupId = .ok groupId →
    s.db.requireMembership groupId asked.deviceId = .error .forbidden

theorem bars_of_revoked (revoked : (s.db.device? asked.deviceId).any (·.revoked)) :
    s.Bars asked := by
  intro groupId _
  obtain ⟨d, hd, revoked⟩ := (Option.any_eq_true _ _).1 revoked
  refine if_neg fun h => ?_
  have active := h.2
  rw [hd, Option.any_some, revoked] at active
  cases active

theorem bars_toStranger : (s.toStranger asked).Bars asked := by
  intro groupId hg
  rw [Store.toStranger, hg]
  exact if_neg fun h => (mem_stranger.1 h.1).2 rfl

/-- What asks for the list of members and nothing else. -/
def Operation.byList : Operation → Bool
  | .addMembers _ | .postSignal .. | .postAnonymously .. => false
  | _ => true

@[simp] theorem ok_bind (a : α) (f : α → Except ApiError β) : (.ok a >>= f) = f a := rfl

@[simp] theorem error_bind (e : ApiError) (f : α → Except ApiError β) :
    (.error e >>= f) = .error e := rfl

theorem answer_of_bars (C : Crypto) (ceiling : Nat) (hop : asked.operation.byList) :
    ∃ refusal, Refused refusal ∧ ∀ s : Store, s.Bars asked → answer C ceiling s asked = refusal := by
  obtain ⟨groupId, deviceId, operation⟩ := asked
  cases hg : decodeGroupId groupId with
  | error e =>
    cases operation with
    | addMembers | postSignal | postAnonymously => cases hop
    | removeMembers | fetchEnvelopes | downloadAttachment =>
      exact ⟨.error e, trivial, fun s _ => by
        simp [answer, handle, removeMembers, fetchEnvelopes, downloadAttachment, hg, Except.map]⟩
    | postEnvelope => 
      exact ⟨.error e, trivial, fun s _ => by simp [answer, handle, postEnvelope, hg, Except.map]⟩
    | storeVault allowed | uploadAttachment allowed =>
      cases allowed with
      | false =>
        exact ⟨.error .tooManyRequests, trivial, fun s _ => by
          simp [answer, handle, storeVault, uploadAttachment, throttle, Except.map]⟩
      | true =>
        exact ⟨.error e, trivial, fun s _ => by
          simp [answer, handle, storeVault, uploadAttachment, throttle, hg, Except.map]⟩
    | subscribe =>
      exact ⟨.error (.badRequest "invalid frame"), trivial, fun s _ => by
        simp [answer, handle, subscribe, hg, Except.map]⟩
  | ok g =>
    cases operation with
    | addMembers | postSignal | postAnonymously => cases hop
    | fetchEnvelopes | downloadAttachment =>
      exact ⟨.error .forbidden, trivial, fun s hs => by
        simp [answer, handle, fetchEnvelopes, downloadAttachment, hg, hs g hg, Except.map]⟩
    | subscribe =>
      exact ⟨.ok .denied, trivial, fun s hs => by
        simp [answer, handle, subscribe, Database.isMember, hg, hs g hg, Except.map]⟩
    | uploadAttachment allowed =>
      cases allowed with
      | false =>
        exact ⟨.error .tooManyRequests, trivial, fun s _ => by
          simp [answer, handle, uploadAttachment, throttle, Except.map]⟩
      | true =>
        exact ⟨.error .forbidden, trivial, fun s hs => by
          simp [answer, handle, uploadAttachment, throttle, hg, hs g hg, Except.map]⟩
    | postEnvelope allowed payload =>
      cases allowed with
      | false =>
        exact ⟨.error .tooManyRequests, trivial, fun s _ => by
          simp [answer, handle, postEnvelope, throttle, hg, Except.map]⟩
      | true =>
        cases payload with
        | none =>
          exact ⟨.error (.badRequest "invalid JSON"), trivial, fun s _ => by
            simp [answer, handle, postEnvelope, throttle, json, hg, Except.map]⟩
        | some =>
          exact ⟨.error .forbidden, trivial, fun s hs => by
            simp [answer, handle, postEnvelope, throttle, json, hg, hs g hg, Except.map]⟩
    | removeMembers payload =>
      cases payload with
      | none =>
        exact ⟨.error (.badRequest "invalid JSON"), trivial, fun s _ => by
          simp [answer, handle, removeMembers, json, hg, Except.map]⟩
      | some deviceIds =>
        refine ⟨.error (if deviceIds.isEmpty then .badRequest "no device provided" else .forbidden),
          trivial, fun s hs => ?_⟩
        simp only [answer, handle, removeMembers, json, Option.elim_some, hg, hs g hg, ok_bind]
        split <;> rfl
    | storeVault allowed payload =>
      cases allowed with
      | false =>
        exact ⟨.error .tooManyRequests, trivial, fun s _ => by
          simp [answer, handle, storeVault, throttle, Except.map]⟩
      | true =>
        cases payload with
        | none =>
          exact ⟨.error (.badRequest "invalid JSON"), trivial, fun s _ => by
            simp [answer, handle, storeVault, throttle, json, hg, Except.map]⟩
        | some entries =>
          refine ⟨.error (if entries.isEmpty then .badRequest "no entry provided"
            else if entries.length > Storage.MAX_VAULT_ENTRIES then
              .badRequest "too many entries in one request" else .forbidden), trivial, fun s hs => ?_⟩
          simp only [answer, handle, storeVault, throttle, json, Option.elim_some, if_true, hg,
            hs g hg, ok_bind]
          split
          · rfl
          · split <;> rfl

theorem receive_eq_ok (h : receive groupId deviceId payload = .ok r) :
    decodeGroupId groupId = .ok r.groupId ∧ r.deviceId = deviceId := by
  obtain ⟨g, hg, h⟩ := Fallible.bind_eq_ok_iff.1 h
  obtain ⟨payload, _, h⟩ := Fallible.bind_eq_ok_iff.1 h
  split at h
  · cases h
  · split at h
    · cases h
      exact ⟨hg, rfl⟩
    · obtain ⟨key, _, h⟩ := Fallible.bind_eq_ok_iff.1 h
      split at h
      · cases h
      · cases h
        exact ⟨hg, rfl⟩

theorem map_bind (f : β → γ) (x : Except ApiError α) (g : α → Except ApiError β) :
    Except.map f (x >>= g) = x >>= fun a => Except.map f (g a) := by
  cases x <;> rfl

theorem insertEnvelope_answer (s : Store) (db : Database) (groups : db.groups = s.db.groups)
    (groupId blob : Bytes) (now : Nat) :
    (insertEnvelope { s with db } groupId blob now).map (·.2) =
      (insertEnvelope s groupId blob now).map (·.2) := by
  have there : (db.group? groupId).isNone = (s.db.group? groupId).isNone := by
    rw [Database.group?, groups, Database.group?]
  rw [insertEnvelope, insertEnvelope, there]
  split
  · rfl
  · split <;> rfl

theorem useNonce_answer (s : Store) (handled : Handled) : (useNonce s handled).map (·.2) =
    match handled.map (·.2) with
    | .ok answer => .ok answer
    | .error e => .ok (.refused e) := by
  cases handled <;> rfl

/-- A route that asks for the group's MAC does not look at the list of members. -/
theorem answer_toStranger_of_mac
    (operation : (∃ nonce mac body, asked.operation = .postSignal nonce mac body) ∨
      ∃ nonce mac body now, asked.operation = .postAnonymously nonce mac body now) :
    answer C ceiling (s.toStranger asked) asked = answer C ceiling s asked := by
  obtain ⟨groupId, deviceId, _⟩ := asked
  cases hg : decodeGroupId groupId with
  | error e => rw [Store.toStranger, hg]
  | ok g =>
    rw [Store.toStranger, hg]
    dsimp only at operation ⊢
    rcases operation with ⟨nonce, mac, body, rfl⟩ | ⟨nonce, mac, body, now, rfl⟩
    · simp only [answer, handle, postSignal, hg, ok_bind, map_bind]
      rfl
    · simp only [answer, handle, postAnonymously, hg, ok_bind, map_bind]
      refine bind_congr fun nonce => bind_congr fun mac => ?_
      split
      · rfl
      simp only [map_bind]
      refine bind_congr fun key => bind_congr fun (body, payload) => bind_congr fun payload =>
        bind_congr fun blob => bind_congr fun message => bind_congr fun _ => ?_
      split
      · rfl
      rw [useNonce_answer, useNonce_answer]
      have inserted := insertEnvelope_answer
        { s with postingNonces := s.postingNonces ++ [(g, nonce)] } (stranger s.db g deviceId) rfl
      rw [inserted g blob now]

theorem answer_addMembers (s : Store) (groupId deviceId : String) (payload : Option Payload) :
    answer C ceiling s ⟨groupId, deviceId, .addMembers payload⟩ =
      receive groupId deviceId payload >>= fun r =>
        (AddMembers.addMembers s.db r).map fun _ => .added r.deviceIds.length := by
  change Except.map (·.2) (addMembers s groupId deviceId payload) = _
  rw [addMembers, map_bind]
  refine bind_congr fun r => ?_
  rw [map_bind]
  cases AddMembers.addMembers s.db r <;> rfl

/-- What a revoked device is answered that asks to add members. -/
theorem addMembers_answered_iff (h : receive groupId deviceId payload = .ok r)
    (registered : (s.db.device? deviceId).isSome) :
    let asked : Asked := ⟨groupId, deviceId, .addMembers payload⟩
    (answer C ceiling s asked = answer C ceiling (s.toStranger asked) asked ∧
      (asked.reserved s → Refused (answer C ceiling s asked))) ↔ ¬ asked.addsToGroup s := by
  obtain ⟨hg, rfl⟩ := receive_eq_ok h
  intro asked
  have toStranger : s.toStranger asked = { s with db := stranger s.db r.groupId r.deviceId } := by
    rw [Store.toStranger, hg]
  have reserved : asked.reserved s = (s.db.group? r.groupId).isSome := by
    rw [Asked.reserved]
    dsimp only [asked]
    rw [hg]
    rfl
  have adds : asked.addsToGroup s = ((s.db.group? r.groupId).isSome &&
      decide (⟨r.groupId, r.deviceId⟩ ∈ s.db.members) &&
        (s.db.accountOf r.deviceId).any fun caller =>
          r.deviceIds.all fun id => s.db.mayContact caller id r.groupId) := by
    rw [Asked.addsToGroup]
    dsimp only [asked]
    rw [h]
    rfl
  rw [toStranger, answer_addMembers, answer_addMembers, h, ok_bind, ok_bind, reserved, adds]
  obtain ⟨d, hd⟩ := Option.isSome_iff_exists.1 registered
  have own : s.db.accountOf r.deviceId = some d.account := by rw [Database.accountOf, hd]; rfl
  by_cases there : (s.db.group? r.groupId).isSome
  · have barred : AddMembers.addMembers (stranger s.db r.groupId r.deviceId) r =
        .error .forbidden := addMembers_of_notMem there fun hm => (mem_stranger.1 hm).2 rfl
    rw [barred, there, own]
    by_cases hmem : ⟨r.groupId, r.deviceId⟩ ∈ s.db.members
    · rw [addMembers_member there hmem own, decide_eq_true hmem, Option.any_some, Bool.true_and,
        Bool.true_and]
      cases r.deviceIds.all fun id => s.db.mayContact d.account id r.groupId with
      | true =>
        refine iff_of_false (fun h => @insertAll_ne_forbidden s.db r ?_) (· rfl)
        have same := h.1
        rw [if_pos rfl] at same
        cases hinsert : insertAll s.db r with
        | ok => rw [hinsert] at same; cases same
        | error e => rw [hinsert] at same; cases same; rfl
      | false =>
        rw [if_neg Bool.false_ne_true]
        exact iff_of_true ⟨rfl, fun _ => trivial⟩ Bool.false_ne_true
    · rw [addMembers_of_notMem there hmem, decide_eq_false hmem]
      exact iff_of_true ⟨rfl, fun _ => trivial⟩ Bool.false_ne_true
  · rw [Bool.eq_false_iff.2 there]
    refine iff_of_true ⟨?_, fun h => by cases h⟩ Bool.false_ne_true
    exact (addMembers_creating there _ fun _ _ => rfl).symm

/-- A revoked device is answered as a stranger to the group is, and refused what is reserved to
members, except when it adds to a group that still lists it devices that the contact policy lets
through. -/
theorem revoked_answered_as_stranger_iff
    (revoked : (s.db.device? asked.deviceId).any (·.revoked)) :
    (answer C ceiling s asked = answer C ceiling (s.toStranger asked) asked ∧
      (asked.reserved s → Refused (answer C ceiling s asked))) ↔ ¬ asked.addsToGroup s := by
  have byList (hop : asked.operation.byList) (adds : asked.addsToGroup s = false) :
      (answer C ceiling s asked = answer C ceiling (s.toStranger asked) asked ∧
        (asked.reserved s → Refused (answer C ceiling s asked))) ↔ ¬ asked.addsToGroup s := by
    obtain ⟨refusal, refused, same⟩ := answer_of_bars C ceiling hop
    rw [same s (bars_of_revoked revoked), same _ bars_toStranger, adds]
    exact iff_of_true ⟨rfl, fun _ => refused⟩ Bool.false_ne_true
  obtain ⟨groupId, deviceId, operation⟩ := asked
  cases operation with
  | addMembers payload =>
    cases hr : receive groupId deviceId payload with
    | error e =>
      have adds : Asked.addsToGroup ⟨groupId, deviceId, .addMembers payload⟩ s = false := by
        rw [Asked.addsToGroup]
        dsimp only
        rw [hr]
        rfl
      rw [answer_addMembers, answer_addMembers, hr, adds]
      exact iff_of_true ⟨rfl, fun _ => trivial⟩ Bool.false_ne_true
    | ok r =>
      obtain ⟨d, hd, _⟩ := (Option.any_eq_true _ _).1 revoked
      exact addMembers_answered_iff hr (Option.isSome_iff_exists.2 ⟨d, hd⟩)
  | postSignal nonce mac body =>
    refine iff_of_true ⟨(answer_toStranger_of_mac ?_).symm, fun h => by cases h⟩ Bool.false_ne_true
    exact .inl ⟨nonce, mac, body, rfl⟩
  | postAnonymously nonce mac body now =>
    refine iff_of_true ⟨(answer_toStranger_of_mac ?_).symm, fun h => by cases h⟩ Bool.false_ne_true
    exact .inr ⟨nonce, mac, body, now, rfl⟩
  | removeMembers | postEnvelope | fetchEnvelopes | storeVault | uploadAttachment
  | downloadAttachment | subscribe => exact byList rfl rfl

/-! ## A revoked device that adds -/

inductive Action where
  | ask (asked : Asked)
  | createAccount (id : String) (identityKey : Bytes)
  | registerDevice (payload : RegisterDevice)
  | setContactPolicy (account : String) (policy : ContactPolicy)
  | revoke (deviceId : String)

/-- A request, and what else the tables of members and devices are written by. -/
def Store.step (P : Account.Primitives) (C : Crypto) (ceiling : Nat) (s : Store) :
    Action → Option Store
  | .ask asked =>
    match handle C ceiling s asked with
    | .ok (s, _) => some s
    | .error _ => some s
  | .createAccount id identityKey =>
    if (s.db.account? id).isSome then none
    else some { s with db := s.db.createAccount id identityKey }
  | .registerDevice payload =>
    (registerDevice P s.db payload).toOption.map fun db => { s with db }
  | .setContactPolicy account policy => some { s with db := s.db.setContactPolicy account policy }
  | .revoke deviceId => some { s with db := s.db.revoke deviceId }

def emptyStore : Store where
  db := ⟨[], [], [], []⟩
  mailbox _ := ⟨0, []⟩
  postingNonces := []
  vault := []
  attachments := []
  stored _ := none

def noCrypto : Crypto := ⟨fun _ => [], fun _ _ => []⟩

/-- Bob's phone makes a group, and is revoked. -/
def bobRevoked : List Action :=
  [.createAccount alice (List.replicate 32 4), .createAccount bob (List.replicate 32 5),
    .registerDevice (phone alice), .registerDevice (phone bob),
    .ask ⟨"0a", phoneOf bob, .addMembers (some ⟨[phoneOf bob], none⟩)⟩, .revoke (phoneOf bob)]

def bobFetches : Asked := ⟨"0a", phoneOf bob, .fetchEnvelopes 0⟩

def bobAddsAlice : Asked := ⟨"0a", phoneOf bob, .addMembers (some ⟨[phoneOf alice], none⟩)⟩

theorem revoked_answered_as_stranger_iff_bobFetches : ∃ s,
    Transition.run (Store.step trusting noCrypto 0) emptyStore bobRevoked = some s ∧
      (s.db.device? (phoneOf bob)).any (·.revoked) ∧
      ((answer noCrypto 0 s bobFetches = answer noCrypto 0 (s.toStranger bobFetches) bobFetches ∧
        (bobFetches.reserved s → Refused (answer noCrypto 0 s bobFetches))) ↔
          ¬ bobFetches.addsToGroup s) := by
  have executed : ∃ s,
      Transition.run (Store.step trusting noCrypto 0) emptyStore bobRevoked = some s ∧
        (s.db.device? (phoneOf bob)).any (·.revoked) := ⟨_, rfl, rfl⟩
  obtain ⟨s, h, revoked⟩ := executed
  exact ⟨s, h, revoked, @revoked_answered_as_stranger_iff noCrypto s 0 bobFetches revoked⟩

/-- Bob's phone is revoked, and adds Alice's to the group; a stranger is refused. -/
theorem revoked_device_adds : ∃ s,
    Transition.run (Store.step trusting noCrypto 0) emptyStore bobRevoked = some s ∧
      (s.db.device? (phoneOf bob)).any (·.revoked) ∧
      answer noCrypto 0 s bobAddsAlice = .ok (.added 1) ∧
      answer noCrypto 0 (s.toStranger bobAddsAlice) bobAddsAlice = .error .forbidden :=
  ⟨_, rfl, rfl, rfl, rfl⟩

end Whispee.Server.Membership
