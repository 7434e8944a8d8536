import Whispee.Account.Attest
import Whispee.Server.Auth

/-!
# Accounts, devices and groups

The tables the group routes of `crates/server/src/routes.rs` rest on, the queries they share, and
`register_device`. Nothing deletes an account or a device.
-/

namespace Whispee.Server.Groups

open Auth (decodeStandard)

inductive ContactPolicy where
  | «open»
  | known
  | closed
  deriving DecidableEq, Repr

structure AccountRow where
  id : String
  identityKey : Bytes
  contactPolicy : ContactPolicy
  deriving DecidableEq

structure DeviceRow where
  id : String
  account : String
  authKey : Bytes
  mlsKey : Bytes
  attestation : Bytes
  /-- `revoked_at` is set. -/
  revoked : Bool
  deriving DecidableEq

structure GroupRow where
  id : Bytes
  postingKey : Option Bytes
  deriving DecidableEq

/-- A row of `group_members`. -/
structure Member where
  groupId : Bytes
  deviceId : String
  deriving DecidableEq

structure Database where
  accounts : List AccountRow
  devices : List DeviceRow
  groups : List GroupRow
  members : List Member

/-! ## Decoding -/

def decodeB64 (value : String) : Except ApiError Bytes :=
  (decodeStandard value).elim (.error (.badRequest "invalid base64")) .ok

def decodeGroupId (value : String) : Except ApiError Bytes := do
  let bytes ← (fromHex value).elim (.error (.badRequest "invalid group_id")) .ok
  if bytes.isEmpty ∨ bytes.length > 64 then .error (.badRequest "invalid group_id length")
  else .ok bytes

/-- `signed.json()`: nothing, for a body that is not the JSON expected. -/
def json (payload : Option α) : Except ApiError α :=
  payload.elim (.error (.badRequest "invalid JSON")) .ok

/-! ## Queries -/

namespace Database

def account? (db : Database) (id : String) : Option AccountRow := db.accounts.find? (·.id = id)

def device? (db : Database) (id : String) : Option DeviceRow := db.devices.find? (·.id = id)

def group? (db : Database) (id : Bytes) : Option GroupRow := db.groups.find? (·.id = id)

def policyOf (db : Database) (account : String) : Option ContactPolicy :=
  (db.account? account).map (·.contactPolicy)

/-- `SELECT account FROM devices WHERE id = $1`. -/
def accountOf (db : Database) (deviceId : String) : Option String :=
  (db.device? deviceId).map (·.account)

/-- Checks that the caller is a member of the group. -/
def requireMembership (db : Database) (groupId : Bytes) (deviceId : String) :
    Except ApiError Unit :=
  if ⟨groupId, deviceId⟩ ∈ db.members ∧ (db.device? deviceId).any (!·.revoked) then .ok ()
  else .error .forbidden

/-- Same question, asked by a caller that does not fail on a refusal. -/
def isMember (db : Database) (groupId : Bytes) (deviceId : String) : Except ApiError Bool :=
  match db.requireMembership groupId deviceId with
  | .ok () => .ok true
  | .error .forbidden => .ok false
  | .error other => .error other

/-- Returns the account of the signing device. -/
def callerAccount (db : Database) (deviceId : String) : Except ApiError String :=
  (db.accountOf deviceId).elim (.error .forbidden) .ok

/-- The first query of `may_contact`: the account of a device and its policy. -/
def contact? (db : Database) (deviceId : String) : Option (String × ContactPolicy) := do
  let device ← db.device? deviceId
  let account ← db.account? device.account
  some (account.id, account.contactPolicy)

/-- The second query of `may_contact`: a group other than `groupId` both accounts are in. -/
def shared (db : Database) (caller account : String) (groupId : Bytes) : Bool :=
  db.members.any fun mine =>
    mine.groupId ≠ groupId ∧ db.accountOf mine.deviceId = some caller ∧
      db.members.any fun theirs =>
        theirs.groupId = mine.groupId ∧ db.accountOf theirs.deviceId = some account

end Database

/-- What `may_contact` makes of the answer to its first query. -/
inductive Contact where
  | allowed
  | denied
  /-- If the caller's account and this one share a group. -/
  | ifShared (account : String)
  deriving DecidableEq

def Contact.of (caller : String) : Option (String × ContactPolicy) → Contact
  -- A device this server has never heard of.
  | none => .allowed
  | some (account, policy) =>
    if account = caller then .allowed
    else match policy with
      | .open => .allowed
      | .closed => .denied
      | .known => .ifShared account

/-- May `caller` add this device to `groupId`? -/
def Database.mayContact (db : Database) (caller deviceId : String) (groupId : Bytes) : Bool :=
  match Contact.of caller (db.contact? deviceId) with
  | .allowed => true
  | .denied => false
  | .ifShared account => db.shared caller account groupId

theorem callerAccount_eq_ok {db : Database} (h : db.callerAccount deviceId = .ok account) :
    db.accountOf deviceId = some account := by
  rw [Database.callerAccount] at h
  cases hfound : db.accountOf deviceId with
  | none => rw [hfound] at h; cases h
  | some account' => rw [hfound] at h; cases h; rfl

theorem contact?_eq_some {db : Database} (h : db.contact? deviceId = some (account, policy)) :
    db.accountOf deviceId = some account ∧ db.policyOf account = some policy := by
  obtain ⟨d, hd, h⟩ := Option.bind_eq_some_iff.1 h
  obtain ⟨a, ha, h⟩ := Option.bind_eq_some_iff.1 h
  cases h
  have own : a.id = d.account := by simpa using List.find?_some ha
  rw [Database.accountOf, hd, Database.policyOf, own, ha]
  exact ⟨rfl, rfl⟩

theorem Contact.of_eq_allowed (h : Contact.of caller (some (account, policy)) = .allowed) :
    account = caller ∨ policy = .open := by
  dsimp only [Contact.of] at h
  split at h
  · exact .inl ‹_›
  · cases policy with
    | «open» => exact .inr rfl
    | known | closed => cases h

theorem Contact.of_eq_ifShared (h : Contact.of caller found = .ifShared account) :
    found = some (account, .known) := by
  rcases found with _ | ⟨account', policy⟩
  · cases h
  · dsimp only [Contact.of] at h
    split at h
    · cases h
    · cases policy with
      | known => cases h; rfl
      | «open» | closed => cases h

/-! ## Devices -/

def DOMAIN : Bytes := asBytes "wac-attest-v2"

structure RegisterDevice where
  id : String
  account : String
  authKey : String
  mlsKey : String
  attestation : String

/-- Whether a string is shaped like an account id. -/
def isAccountId (value : String) : Bool :=
  value.utf8ByteSize = Account.ID_HEX_LEN ∧
    value.toList.all fun c => c.isDigit || ('a' ≤ c && c ≤ 'f')

/-- What precedes the first `:`, if there is one. -/
def devicePrefix (id : String) : Option String :=
  if ':' ∈ id.toList then some (String.ofList (id.toList.takeWhile (· ≠ ':'))) else none

/-- The part of `register_device` before its queries: the row to write. -/
def RegisterDevice.row (payload : RegisterDevice) : Except ApiError DeviceRow := do
  if payload.id.isEmpty ∨ payload.id.utf8ByteSize > 128 then
    .error (.badRequest "invalid device id")
  if !isAccountId payload.account then .error (.badRequest "invalid account id")
  if devicePrefix payload.id ≠ some payload.account then
    .error (.badRequest "device id must be prefixed with the account id")
  let authKey ← decodeB64 payload.authKey
  if authKey.length ≠ 32 then .error (.badRequest "Ed25519 key expected (32 bytes)")
  let mlsKey ← decodeB64 payload.mlsKey
  if mlsKey.isEmpty ∨ mlsKey.length > 128 then .error (.badRequest "invalid MLS signature key")
  let attestation ← decodeB64 payload.attestation
  .ok ⟨payload.id, payload.account, authKey, mlsKey, attestation, false⟩

/-- `attest::verify` of a device to register. -/
def attested (P : Account.Primitives) (identityKey : Bytes) (row : DeviceRow) : Bool :=
  (do
    let message ← Account.encode DOMAIN
      [asBytes row.account, asBytes row.id, row.authKey, row.mlsKey]
    Account.verifySignature P identityKey message row.attestation).isOk

/-- The `INSERT` of `register_device`: a device changes neither its keys nor its account. -/
def Database.insertDevice (db : Database) (row : DeviceRow) : Except ApiError Database :=
  match db.device? row.id with
  | none => .ok { db with devices := db.devices ++ [row] }
  | some old =>
    if old.authKey = row.authKey ∧ old.mlsKey = row.mlsKey then
      .ok { db with devices := db.devices.map fun d =>
        if d.id = row.id then { d with attestation := row.attestation } else d }
    else .error (.conflict "id already taken by another device")

def registerDevice (P : Account.Primitives) (db : Database) (payload : RegisterDevice) :
    Except ApiError Database := do
  let row ← payload.row
  let account ← (db.account? row.account).elim (.error .notFound) .ok
  if attested P account.identityKey row then db.insertDevice row
  else .error (.badRequest "invalid attestation")

/-! ## What the other routes write -/

namespace Database

/-- `create_account`, of an account that is not there. -/
def createAccount (db : Database) (id : String) (identityKey : Bytes) : Database :=
  { db with accounts := db.accounts ++ [⟨id, identityKey, .open⟩] }

/-- The `UPDATE` of `rotate_account`. -/
def setIdentityKey (db : Database) (account : String) (identityKey : Bytes) : Database :=
  { db with accounts := db.accounts.map fun a => if a.id = account then { a with identityKey } else a }

/-- The `UPDATE` of `set_contact_policy`. -/
def setContactPolicy (db : Database) (account : String) (contactPolicy : ContactPolicy) : Database :=
  { db with accounts :=
    db.accounts.map fun a => if a.id = account then { a with contactPolicy } else a }

/-- The `UPDATE` of `revoke_device`. -/
def revoke (db : Database) (deviceId : String) : Database :=
  { db with devices := db.devices.map fun d => if d.id = deviceId then { d with revoked := true } else d }

/-- The `DELETE` of `remove_members`. -/
def removeMembers (db : Database) (groupId : Bytes) (deviceIds : List String) : Database :=
  { db with members := db.members.filter fun m => !(m.groupId = groupId ∧ m.deviceId ∈ deviceIds) }

/-- The deletion of a group by `purge_once`. -/
def deleteGroup (db : Database) (groupId : Bytes) : Database :=
  { db with groups := db.groups.filter (·.id ≠ groupId) }

end Database

/-! ## A device keeps its account -/

variable {db db' : Database}

/-- No device changes its account, and none goes. -/
def Database.KeepsDevices (db db' : Database) : Prop :=
  ∀ ⦃id account⦄, db.accountOf id = some account → db'.accountOf id = some account

theorem keepsDevices_append (rows : List DeviceRow) :
    db.KeepsDevices { db with devices := db.devices ++ rows } := by
  intro id account h
  rw [Database.accountOf, Database.device?] at h ⊢
  rw [List.find?_append]
  obtain ⟨d, hd, rfl⟩ := Option.map_eq_some_iff.1 h
  rw [hd]
  rfl

theorem keepsDevices_map {f : DeviceRow → DeviceRow} (id : ∀ d, (f d).id = d.id)
    (account : ∀ d, (f d).account = d.account) :
    db.KeepsDevices { db with devices := db.devices.map f } := by
  intro i a h
  rw [Database.accountOf, Database.device?] at h ⊢
  rw [List.find?_map]
  obtain ⟨d, hd, rfl⟩ := Option.map_eq_some_iff.1 h
  rw [show (fun d : DeviceRow => decide (d.id = i)) ∘ f = fun d => decide (d.id = i) by
    funext d; simp [id]]
  rw [hd, Option.map_some, Option.map_some, account]

theorem keepsDevices_revoke (deviceId : String) : db.KeepsDevices (db.revoke deviceId) :=
  keepsDevices_map (fun d => by split <;> rfl) fun d => by split <;> rfl

variable {P : Account.Primitives} {payload : RegisterDevice}

theorem insertDevice_spec (h : db.insertDevice row = .ok db') :
    ∃ devices, db' = { db with devices } ∧ db.KeepsDevices db' := by
  rw [Database.insertDevice] at h
  split at h
  · cases h
    exact ⟨_, rfl, keepsDevices_append [row]⟩
  · split at h
    · cases h
      exact ⟨_, rfl, keepsDevices_map (fun d => by split <;> rfl) fun d => by split <;> rfl⟩
    · cases h

/-- A registration writes `devices`, and none of them changes its account. -/
theorem registerDevice_spec (h : registerDevice P db payload = .ok db') :
    ∃ devices, db' = { db with devices } ∧ db.KeepsDevices db' := by
  obtain ⟨row, _, h⟩ := Fallible.bind_eq_ok_iff.1 h
  obtain ⟨account, _, h⟩ := Fallible.bind_eq_ok_iff.1 h
  split at h
  · exact insertDevice_spec h
  · cases h

end Whispee.Server.Groups
