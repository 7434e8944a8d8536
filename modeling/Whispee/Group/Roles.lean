import Whispee.Bytes
import Whispee.Lib.Fallible

/-!
# Roles

The roster of an administered group and the policy on the commits it receives, `roles.rs` of
`crates/crypto-core`, with the lifetime of `lifetime.rs` beside it. MLS lets any member commit
anything; what the policy refuses, each client refuses by itself.
-/

namespace Whispee.Group

open Fallible

inductive CryptoError where
  /-- Error surfaced by the MLS library. -/
  | mls (message : String)
  | malformed (message : String)
  | unexpectedMessage
  | storage (message : String)
  /-- The target member is not in the group tree. -/
  | unknownMember
  /-- The received commit is cryptographically valid but violates group policy. -/
  | policyViolation (message : String)
  deriving DecidableEq, Repr

/-! ## The roster -/

def ROSTER_EXTENSION : Nat := 0xF100

/-- One admin, and moderators under them. -/
structure Roster where
  admin : String
  moderators : List String
  admin_ne : admin ≠ ""
  /-- The admin is already above the moderators. -/
  admin_notMem : admin ∉ moderators
  deriving DecidableEq

namespace Roster

def new (admin : String) (moderators : List String) : Except CryptoError Roster :=
  if h : admin = "" then .error (.policyViolation "an administered group requires an admin")
  else .ok ⟨admin, moderators.filter (· ≠ admin), h, by simp⟩

theorem new_self (r : Roster) : new r.admin r.moderators = .ok r := by
  have filter : r.moderators.filter (· ≠ r.admin) = r.moderators :=
    List.filter_eq_self.2 fun m hm => decide_eq_true fun h => r.admin_notMem (h ▸ hm)
  simp only [new, dif_neg r.admin_ne, filter]

def isAdmin (r : Roster) (handle : String) : Bool := r.admin == handle

def isModerator (r : Roster) (handle : String) : Bool := r.moderators.any (· == handle)

/-- May add and remove ordinary members. -/
def canModerate (r : Roster) (handle : String) : Bool := r.isAdmin handle || r.isModerator handle

@[simp] theorem isAdmin_iff {r : Roster} : r.isAdmin handle ↔ r.admin = handle := by
  simp [isAdmin]

end Roster

def pushString (value : String) : Except CryptoError Bytes :=
  let bytes := asBytes value
  if bytes.length > 65535 then .error (.malformed "handle too long")
  else .ok (u16ToBeBytes bytes.length ++ bytes)

/-- The first `n` of the bytes after the cursor, and the bytes after them. -/
def take (bytes : Bytes) (n : Nat) : Except CryptoError (Bytes × Bytes) :=
  if n ≤ bytes.length then .ok (bytes.take n, bytes.drop n)
  else .error (.malformed "truncated roster")

/-- The two bytes of a big-endian `u16` after the cursor. -/
def takeU16 : Bytes → Except CryptoError (Nat × Bytes)
  | high :: low :: bytes => .ok (u16FromBeBytes high low, bytes)
  | _ => .error (.malformed "truncated roster")

def takeString (bytes : Bytes) : Except CryptoError (String × Bytes) := do
  let (len, bytes) ← takeU16 bytes
  let (raw, bytes) ← take bytes len
  match fromUtf8 raw with
  | some value => .ok (value, bytes)
  | none => .error (.malformed "non-UTF-8 handle in the roster")

def takeStrings : Nat → Bytes → Except CryptoError (List String × Bytes)
  | 0, bytes => .ok ([], bytes)
  | count + 1, bytes => do
    let (value, bytes) ← takeString bytes
    let (values, bytes) ← takeStrings count bytes
    .ok (value :: values, bytes)

namespace Roster

/-- `u16 len ‖ admin ‖ u16 count ‖ count × (u16 len ‖ moderator)`. -/
def encode (r : Roster) : Except CryptoError Bytes := do
  let admin ← pushString r.admin
  if r.moderators.length > 65535 then .error (.malformed "too many moderators")
  else
    let moderators ← r.moderators.mapM pushString
    .ok (admin ++ u16ToBeBytes r.moderators.length ++ moderators.flatten)

/-- Strict reading: any leftover byte is an error. -/
def decode (bytes : Bytes) : Except CryptoError Roster := do
  let (admin, bytes) ← takeString bytes
  let (count, bytes) ← takeU16 bytes
  let (moderators, bytes) ← takeStrings count bytes
  if bytes.isEmpty then new admin moderators
  else .error (.malformed "trailing bytes after the roster")

end Roster

/-! ### Round trip -/

section
variable {value : String} {bytes rest : Bytes}

theorem takeU16_append (h : n < 65536) (rest : Bytes) : takeU16 (u16ToBeBytes n ++ rest) = .ok (n, rest) := by
  simp only [u16ToBeBytes, List.cons_append, List.nil_append, takeU16]
  rw [u16FromBeBytes_u16ToBeBytes h]

theorem takeString_append (h : pushString value = .ok bytes) :
    takeString (bytes ++ rest) = .ok (value, rest) := by
  simp only [pushString] at h
  split at h
  · cases h
  · rename_i short
    cases h
    rw [List.append_assoc, takeString, takeU16_append (Nat.lt_succ_of_le (Nat.le_of_not_gt short)) _]
    have prefix_take : take (asBytes value ++ rest) (asBytes value).length =
        .ok (asBytes value, rest) := by
      simp [take]
    simp only [bind, Except.bind, prefix_take, fromUtf8_asBytes]

theorem takeStrings_append (rest : Bytes) {values : List String} {parts : List Bytes}
    (h : values.mapM pushString = .ok parts) :
    takeStrings values.length (parts.flatten ++ rest) = .ok (values, rest) := by
  induction mapM_eq_ok_iff.1 h with
  | nil => rfl
  | cons hvalue hvalues ih =>
    have tail := ih (mapM_eq_ok_iff.2 hvalues)
    simp only [List.length_cons, takeStrings, List.flatten_cons, List.append_assoc,
      takeString_append hvalue, bind, Except.bind, tail]

end

namespace Roster

theorem decode_encode {r : Roster} (h : r.encode = .ok bytes) : decode bytes = .ok r := by
  obtain ⟨admin, hadmin, h⟩ := bind_eq_ok_iff.1 h
  split at h
  · cases h
  · rename_i short
    obtain ⟨moderators, hmoderators, h⟩ := bind_eq_ok_iff.1 h
    cases h
    have count := takeU16_append (Nat.lt_succ_of_le (Nat.le_of_not_gt short)) moderators.flatten
    have strings := takeStrings_append [] hmoderators
    rw [List.append_nil] at strings
    rw [List.append_assoc, decode, takeString_append hadmin]
    simp only [bind, Except.bind, count, strings, List.isEmpty_nil, if_true, new_self]

end Roster

/-! ## The lifetime -/

def LIFETIME_EXTENSION : Nat := 0xF101

/-- Seven days. -/
def DEFAULT_SECONDS : UInt32 := 7 * 24 * 60 * 60

/-- How long a message lives in a conversation. `0` is off. -/
structure Lifetime where
  seconds : UInt32
  deriving DecidableEq, Repr

namespace Lifetime

def encode (lifetime : Lifetime) : Bytes := toBeBytes 4 lifetime.seconds.toNat

def decode : Bytes → Except CryptoError Lifetime
  | [a, b, c, d] =>
    .ok ⟨UInt32.ofNat (256 * (256 * (256 * a.toNat + b.toNat) + c.toNat) + d.toNat)⟩
  | _ => .error (.policyViolation "lifetime extension of invalid length")

theorem decode_encode (lifetime : Lifetime) : decode lifetime.encode = .ok lifetime := by
  obtain ⟨seconds⟩ := lifetime
  have := seconds.toNat_lt
  simp only [encode, toBeBytes, List.nil_append, List.cons_append, decode, UInt8.toNat_ofNat']
  congr 2
  rw [← UInt32.toNat_inj, UInt32.toNat_ofNat']
  omega

end Lifetime

/-! ## The policy -/

/-- A proposed removal, as the policy sees it. -/
structure Removal where
  /-- Handle of the account owning the removed device. -/
  target : String
  targetKey : Bytes
  /-- The removal was proposed by the device itself. -/
  selfRequested : Bool
  deriving DecidableEq, Repr

/-- What a commit contains, reduced to what the policy needs. -/
structure CommitSummary where
  committer : String
  removals : List Removal
  adds : Nat
  changesRoster : Bool
  changesLifetime : Bool
  /-- Handles of the members the commit does not remove. -/
  remaining : List String

/-- Signature keys whose revocation certificate the caller has verified. -/
structure Context where
  revoked : List Bytes

def Context.isRevoked (context : Context) (key : Bytes) : Bool := context.revoked.any (· == key)

@[simp] theorem Context.isRevoked_iff {context : Context} :
    context.isRevoked key ↔ key ∈ context.revoked := by
  simp [isRevoked]

/-- One turn of the loop over the removals. -/
def authorizeRemoval (roster : Roster) (committer : String) (context : Context)
    (removal : Removal) : Except CryptoError Unit :=
  if removal.selfRequested || context.isRevoked removal.targetKey then .ok ()
  else if !roster.canModerate committer then
    .error (.policyViolation "removing a member requires a role")
  else if roster.isModerator removal.target && !roster.isAdmin committer then
    .error (.policyViolation "only the admin removes a moderator")
  else .ok ()

/-- Decides whether a commit must be applied. -/
def authorize (roster : Option Roster) (commit : CommitSummary) (context : Context) :
    Except CryptoError Unit :=
  match roster with
  | none => .ok ()
  | some roster =>
    let committerIsAdmin := roster.isAdmin commit.committer
    let committerCanModerate := roster.canModerate commit.committer
    if commit.changesRoster && !committerIsAdmin then
      .error (.policyViolation "only the admin changes roles")
    else if commit.changesLifetime && !committerCanModerate then
      .error (.policyViolation "changing the lifetime requires a role")
    else if commit.adds > 0 && !committerCanModerate then
      .error (.policyViolation "adding a member requires a role")
    else do
      commit.removals.forM (authorizeRemoval roster commit.committer context)
      if commit.remaining.contains roster.admin then .ok ()
      else .error (.policyViolation "the group would lose its admin: hand it over first")

/-- A removal is for the role holders, and a moderator's for the admin; a departure and a revoked
device are the two exceptions. -/
def Roster.PermitsRemoval (roster : Roster) (committer : String) (context : Context)
    (removal : Removal) : Prop :=
  removal.selfRequested ∨ context.isRevoked removal.targetKey ∨
    roster.canModerate committer ∧ (roster.isModerator removal.target → roster.isAdmin committer)

/-- Everything the policy asks of a commit in a group with a roster. -/
structure Roster.Permits (roster : Roster) (commit : CommitSummary) (context : Context) : Prop where
  roles : commit.changesRoster → roster.isAdmin commit.committer
  lifetime : commit.changesLifetime → roster.canModerate commit.committer
  adds : 0 < commit.adds → roster.canModerate commit.committer
  removals : ∀ removal ∈ commit.removals, roster.PermitsRemoval commit.committer context removal
  admin : roster.admin ∈ commit.remaining

theorem authorizeRemoval_eq_ok_iff {roster : Roster} {context : Context} {removal : Removal} :
    authorizeRemoval roster committer context removal = .ok () ↔
      roster.PermitsRemoval committer context removal := by
  unfold authorizeRemoval Roster.PermitsRemoval
  cases removal.selfRequested <;> cases context.isRevoked removal.targetKey <;>
    cases roster.canModerate committer <;> cases roster.isModerator removal.target <;>
    cases roster.isAdmin committer <;> simp

theorem authorize_eq_ok_iff {roster : Roster} {commit : CommitSummary} {context : Context} :
    authorize (some roster) commit context = .ok () ↔ roster.Permits commit context := by
  have last : ((do
      commit.removals.forM (authorizeRemoval roster commit.committer context)
      if commit.remaining.contains roster.admin then Except.ok ()
      else .error (.policyViolation "the group would lose its admin: hand it over first")) :
      Except CryptoError Unit) = .ok () ↔
      commit.removals.forM (authorizeRemoval roster commit.committer context) = .ok () ∧
        roster.admin ∈ commit.remaining := by
    cases commit.removals.forM (authorizeRemoval roster commit.committer context) <;>
      simp [bind, Except.bind]
  simp only [authorize]
  rw [refuse_eq_ok_iff, refuse_eq_ok_iff, refuse_eq_ok_iff, last, forM_eq_ok_iff]
  simp only [authorizeRemoval_eq_ok_iff, decide_eq_true_eq]
  exact ⟨fun ⟨roles, lifetime, adds, removals, admin⟩ => ⟨roles, lifetime, adds, removals, admin⟩,
    fun ⟨roles, lifetime, adds, removals, admin⟩ => ⟨roles, lifetime, adds, removals, admin⟩⟩

end Whispee.Group
