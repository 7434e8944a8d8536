import Whispee.Account.Canonical
import Whispee.Account.RotateChains

/-!
# Resolving an account into devices

`resolveAccount` of `account.ts`: what a client makes of the devices a server lists for an account,
and of the revocations it announces. The answer of the server is any answer of its type.
-/

namespace Whispee.Account

section
variable (P : Primitives)

/-- Verifies a device against the key of the account. -/
def verify (identityKey : Bytes) (claim : DeviceClaim) (attestation : Bytes) :
    Except AttestError Unit := do
  verifySignature P identityKey (← message claim) attestation

/-- Verifies a revocation certificate. -/
def verifyRevocation (identityKey : Bytes) (claim : RevocationClaim) (revocation : Bytes) :
    Except AttestError Unit := do
  verifySignature P identityKey (← revocationMessage claim) revocation

/-- Account fingerprint, to be compared out of band. -/
def fingerprint (identityKey : Bytes) : String :=
  let digest := P.sha256 identityKey
  " ".intercalate ((List.range 8).map fun i => toHex ((digest.drop (2 * i)).take 2))

end

/-! ## What the server answers -/

/-- A number of a JSON answer. -/
inductive Number where
  | finite (value : Rat)
  /-- The numerals past the largest double read as one. -/
  | infinite (negative : Bool)
  deriving DecidableEq

/-- `BigInt(number)`. `none` is the `RangeError` of a number that is not an integer. -/
def Number.toBigInt : Number → Option Int
  | finite value => if value.den = 1 then some value.num else none
  | infinite _ => none

/-- A `BigInt` where WebAssembly takes a `u64`. -/
def toU64 (n : Int) : UInt64 := UInt64.ofNat (n % 2 ^ 64).toNat

structure AttestedDevice where
  id : String
  authKey : Bytes
  mlsKey : Bytes
  attestation : Bytes
  revokedAt : Option Number
  revocation : Option Bytes
  lastSeen : Option Number
  deriving DecidableEq

inductive ContactPolicy where
  | open_
  | known
  | closed
  deriving DecidableEq

structure AccountDevices where
  identityKey : Bytes
  devices : List AttestedDevice
  presenceOptout : Option Bool
  contactPolicy : Option ContactPolicy

structure ResolvedAccount where
  handle : String
  identityKey : Bytes
  fingerprint : String
  /-- Active devices whose attestation was verified right here. -/
  devices : List AttestedDevice
  presenceOptout : Option Bool
  contactPolicy : Option ContactPolicy
  /-- Devices whose revocation was verified right here. -/
  revoked : List AttestedDevice
  revokedKeys : List Bytes
  /-- Devices served by the server but rejected. -/
  rejected : List AttestedDevice

/-- What the loop of `resolveAccount` fills. -/
structure Lists where
  verified : List AttestedDevice
  revoked : List AttestedDevice
  rejected : List AttestedDevice

section
variable (P : Primitives) (identityKey : Bytes) (account : String)

def verifyAttestation (device : AttestedDevice) : Bool :=
  (verify P identityKey ⟨account, device.id, device.authKey, device.mlsKey⟩
    device.attestation).toBool

def isCertified (device : AttestedDevice) (revokedAt : Int) (revocation : Bytes) : Bool :=
  (verifyRevocation P identityKey ⟨account, device.id, toU64 revokedAt⟩ revocation).toBool

/-- One turn of the loop over the devices. -/
def sortDevice (lists : Lists) (device : AttestedDevice) : Option Lists :=
  if !verifyAttestation P identityKey account device then
    some { lists with rejected := lists.rejected ++ [device] }
  else
    match device.revokedAt, device.revocation with
    | some revokedAt, some revocation => do
      let revokedAt ← revokedAt.toBigInt
      if isCertified P identityKey account device revokedAt revocation then
        some { lists with revoked := lists.revoked ++ [device] }
      else some { lists with rejected := lists.rejected ++ [device] }
    | _, _ => some { lists with verified := lists.verified ++ [device] }

end

/-- `none` where the promise is rejected. -/
def resolveAccount (P : Primitives) (account : String) (answer : AccountDevices) :
    Option ResolvedAccount := do
  let lists ← answer.devices.foldlM (sortDevice P answer.identityKey account) ⟨[], [], []⟩
  some {
    handle := account
    identityKey := answer.identityKey
    fingerprint := fingerprint P answer.identityKey
    devices := lists.verified
    presenceOptout := answer.presenceOptout
    contactPolicy := answer.contactPolicy
    revoked := lists.revoked
    revokedKeys := lists.revoked.map (·.mlsKey)
    rejected := lists.rejected }

/-! ## Where a device lands -/

section
variable (P : Primitives) (identityKey : Bytes) (account : String)

/-- The attestation verifies against the served key. -/
def Attested (device : AttestedDevice) : Prop := verifyAttestation P identityKey account device

/-- The server says when the device was revoked, and shows a certificate. -/
def Announced (device : AttestedDevice) : Prop :=
  device.revokedAt.isSome ∧ device.revocation.isSome

/-- The certificate shown verifies against the served key, for the instant announced. -/
def Certified (device : AttestedDevice) : Prop :=
  ∃ announced revokedAt revocation, device.revokedAt = some announced ∧
    device.revocation = some revocation ∧ announced.toBigInt = some revokedAt ∧
    isCertified P identityKey account device revokedAt revocation

/-- Each of the devices is in one list, by what verifies of it. -/
structure Sorted (devices : List AttestedDevice) (lists : Lists) : Prop where
  perm : (lists.verified ++ lists.revoked ++ lists.rejected).Perm devices
  verified : ∀ device ∈ lists.verified, Attested P identityKey account device ∧ ¬Announced device
  revoked : ∀ device ∈ lists.revoked, Attested P identityKey account device ∧
    Certified P identityKey account device
  rejected : ∀ device ∈ lists.rejected, Attested P identityKey account device →
    Announced device ∧ ¬Certified P identityKey account device

/-- One turn: the device lands in the list its proofs put it in. -/
inductive Lands (lists : Lists) (device : AttestedDevice) : Lists → Prop where
  | verified (ha : Attested P identityKey account device) (hn : ¬Announced device) :
    Lands lists device { lists with verified := lists.verified ++ [device] }
  | revoked (ha : Attested P identityKey account device)
    (hc : Certified P identityKey account device) :
    Lands lists device { lists with revoked := lists.revoked ++ [device] }
  | rejected (h : Attested P identityKey account device →
      Announced device ∧ ¬Certified P identityKey account device) :
    Lands lists device { lists with rejected := lists.rejected ++ [device] }

end

section
variable {P : Primitives} {identityKey : Bytes} {account : String}

theorem certified_iff {device : AttestedDevice} (hat : device.revokedAt = some announced)
    (hrevocation : device.revocation = some revocation) :
    Certified P identityKey account device ↔ ∃ revokedAt, announced.toBigInt = some revokedAt ∧
      isCertified P identityKey account device revokedAt revocation := by
  constructor
  · rintro ⟨announced', revokedAt, revocation', hat', hrevocation', h⟩
    cases hat.symm.trans hat'
    cases hrevocation.symm.trans hrevocation'
    exact ⟨revokedAt, h⟩
  · rintro ⟨revokedAt, h⟩
    exact ⟨announced, revokedAt, revocation, hat, hrevocation, h⟩

theorem Certified.announced {device : AttestedDevice} (h : Certified P identityKey account device) :
    Announced device := by
  obtain ⟨_, _, _, hat, hrevocation, _⟩ := h
  exact ⟨by rw [hat]; rfl, by rw [hrevocation]; rfl⟩

theorem announced_iff {device : AttestedDevice} : Announced device ↔
    ∃ announced revocation, device.revokedAt = some announced ∧
      device.revocation = some revocation := by
  rw [Announced, Option.isSome_iff_exists, Option.isSome_iff_exists]
  exact ⟨fun ⟨⟨a, ha⟩, r, hr⟩ => ⟨a, r, ha, hr⟩, fun ⟨a, r, ha, hr⟩ => ⟨⟨a, ha⟩, r, hr⟩⟩

theorem sortDevice_of_not_announced {device : AttestedDevice}
    (ha : Attested P identityKey account device) (hn : ¬Announced device) (lists : Lists) :
    sortDevice P identityKey account lists device =
      some { lists with verified := lists.verified ++ [device] } := by
  rw [sortDevice, if_neg (by rw [Attested] at ha; rw [ha]; decide)]
  split
  · rename_i hat hrevocation
    exact absurd (announced_iff.2 ⟨_, _, hat, hrevocation⟩) hn
  · rfl

theorem sortDevice_of_announced {device : AttestedDevice}
    (ha : Attested P identityKey account device) (hat : device.revokedAt = some announced)
    (hrevocation : device.revocation = some revocation) (lists : Lists) :
    sortDevice P identityKey account lists device = announced.toBigInt.bind fun revokedAt =>
      if isCertified P identityKey account device revokedAt revocation then
        some { lists with revoked := lists.revoked ++ [device] }
      else some { lists with rejected := lists.rejected ++ [device] } := by
  rw [sortDevice, if_neg (by rw [Attested] at ha; rw [ha]; decide), hat, hrevocation]
  rfl

theorem lands_of_sortDevice {lists lists' : Lists}
    (h : sortDevice P identityKey account lists device = some lists') :
    Lands P identityKey account lists device lists' := by
  by_cases ha : Attested P identityKey account device
  · by_cases hn : Announced device
    · obtain ⟨announced, revocation, hat, hrevocation⟩ := announced_iff.1 hn
      rw [sortDevice_of_announced ha hat hrevocation] at h
      obtain ⟨revokedAt, hnumber, h⟩ := Option.bind_eq_some_iff.1 h
      split at h
      · rename_i hcertified
        cases h
        exact .revoked ha ((certified_iff hat hrevocation).2 ⟨revokedAt, hnumber, hcertified⟩)
      · rename_i hnot
        cases h
        refine .rejected fun _ => ⟨hn, fun hc => ?_⟩
        obtain ⟨_, hnumber', hcertified⟩ := (certified_iff hat hrevocation).1 hc
        cases hnumber.symm.trans hnumber'
        exact hnot hcertified
    · rw [sortDevice_of_not_announced ha hn] at h
      cases h
      exact .verified ha hn
  · rw [sortDevice, if_pos (by simpa [Attested] using ha)] at h
    cases h
    exact .rejected fun h => absurd h ha

/-- Nothing is thrown where what is announced is certified. -/
theorem exists_sortDevice {device : AttestedDevice}
    (h : Attested P identityKey account device → Announced device →
      Certified P identityKey account device) (lists : Lists) :
    ∃ lists', sortDevice P identityKey account lists device = some lists' := by
  by_cases ha : Attested P identityKey account device
  · by_cases hn : Announced device
    · obtain ⟨announced, revocation, hat, hrevocation⟩ := announced_iff.1 hn
      obtain ⟨revokedAt, hnumber, hcertified⟩ := (certified_iff hat hrevocation).1 (h ha hn)
      rw [sortDevice_of_announced ha hat hrevocation, hnumber]
      exact ⟨_, if_pos hcertified⟩
    · exact ⟨_, sortDevice_of_not_announced ha hn lists⟩
  · exact ⟨_, by rw [sortDevice, if_pos (by simpa [Attested] using ha)]⟩

theorem Sorted.sortDevice {lists lists' : Lists} (h : Sorted P identityKey account done lists)
    (hl : Lands P identityKey account lists device lists') :
    Sorted P identityKey account (done ++ [device]) lists' := by
  have hcount := fun d => h.perm.count_eq d
  simp only [List.count_append] at hcount
  cases hl with
  | verified ha hn =>
    refine { h with perm := ?_, verified := fun d hd => ?_ }
    · refine List.perm_iff_count.2 fun d => ?_
      simp only [List.count_append, ← hcount d]
      omega
    · rcases List.mem_append.1 hd with hd | hd
      · exact h.verified d hd
      · exact List.mem_singleton.1 hd ▸ ⟨ha, hn⟩
  | revoked ha hc =>
    refine { h with perm := ?_, revoked := fun d hd => ?_ }
    · refine List.perm_iff_count.2 fun d => ?_
      simp only [List.count_append, ← hcount d]
      omega
    · rcases List.mem_append.1 hd with hd | hd
      · exact h.revoked d hd
      · exact List.mem_singleton.1 hd ▸ ⟨ha, hc⟩
  | rejected hr =>
    refine { h with perm := ?_, rejected := fun d hd => ?_ }
    · refine List.perm_iff_count.2 fun d => ?_
      simp only [List.count_append, ← hcount d]
      omega
    · rcases List.mem_append.1 hd with hd | hd
      · exact h.rejected d hd
      · exact List.mem_singleton.1 hd ▸ hr

theorem sorted_of_foldlM {devices : List AttestedDevice} {lists lists' : Lists}
    (h : Sorted P identityKey account done lists)
    (hrun : devices.foldlM (sortDevice P identityKey account) lists = some lists') :
    Sorted P identityKey account (done ++ devices) lists' := by
  induction devices generalizing done lists with
  | nil =>
    cases hrun
    rwa [List.append_nil]
  | cons device devices ih =>
    rw [List.foldlM_cons] at hrun
    obtain ⟨next, hnext, hrun⟩ := Option.bind_eq_some_iff.1 hrun
    rw [List.append_cons]
    exact ih (h.sortDevice (lands_of_sortDevice hnext)) hrun

theorem exists_foldlM {devices : List AttestedDevice}
    (h : ∀ device ∈ devices, Attested P identityKey account device → Announced device →
      Certified P identityKey account device) (lists : Lists) :
    ∃ lists', devices.foldlM (sortDevice P identityKey account) lists = some lists' := by
  induction devices generalizing lists with
  | nil => exact ⟨lists, rfl⟩
  | cons device devices ih =>
    rw [List.forall_mem_cons] at h
    obtain ⟨next, hnext⟩ := exists_sortDevice h.1 lists
    rw [List.foldlM_cons, hnext]
    exact ih h.2 next

theorem sorted_resolveAccount {answer : AccountDevices}
    (h : resolveAccount P account answer = some resolved) :
    Sorted P answer.identityKey account answer.devices
      ⟨resolved.devices, resolved.revoked, resolved.rejected⟩ := by
  obtain ⟨lists, hrun, hresolved⟩ := Option.bind_eq_some_iff.1 h
  cases hresolved
  have hstart : Sorted P answer.identityKey account [] ⟨[], [], []⟩ :=
    ⟨.refl _, fun _ hd => (List.not_mem_nil hd).elim, fun _ hd => (List.not_mem_nil hd).elim,
      fun _ hd => (List.not_mem_nil hd).elim⟩
  exact sorted_of_foldlM hstart hrun

end

/-! ## Neither censored nor injected -/

section
variable (P : Primitives) (account : String) (answer : AccountDevices)

/-- Each device listed is in one of the three lists, and those revoked were attested and their
revocation certified. -/
structure Placed (resolved : ResolvedAccount) : Prop where
  perm : (resolved.devices ++ resolved.revoked ++ resolved.rejected).Perm answer.devices
  disjoint : resolved.devices.Disjoint resolved.revoked ∧
    resolved.devices.Disjoint resolved.rejected ∧ resolved.revoked.Disjoint resolved.rejected
  revoked : ∀ device ∈ resolved.revoked, Attested P answer.identityKey account device ∧
    Certified P answer.identityKey account device

/-- What is attested and not certified as revoked is active besides. -/
structure Faithful (resolved : ResolvedAccount) : Prop extends
    Placed P account answer resolved where
  active : ∀ device ∈ answer.devices, Attested P answer.identityKey account device →
    ¬Certified P answer.identityKey account device → device ∈ resolved.devices

end

theorem placed_resolveAccount {P : Primitives} {answer : AccountDevices}
    (h : resolveAccount P account answer = some resolved) :
    Placed P account answer resolved := by
  have sorted := sorted_resolveAccount h
  refine ⟨sorted.perm, ⟨fun d hd hd' => ?_, fun d hd hd' => ?_, fun d hd hd' => ?_⟩, sorted.revoked⟩
  · exact (sorted.verified d hd).2 (Certified.announced (sorted.revoked d hd').2)
  · have attested := (sorted.verified d hd).1
    exact (sorted.verified d hd).2 (sorted.rejected d hd' attested).1
  · have ⟨attested, certified⟩ := sorted.revoked d hd
    exact (sorted.rejected d hd' attested).2 certified

/-- Devices are always placed. None is censored exactly where every revocation announced of an
attested device is certified: the others hide the device as well as a certified one does. -/
theorem faithful_iff (P : Primitives) (account : String) (answer : AccountDevices) :
    (∀ resolved, resolveAccount P account answer = some resolved →
      Placed P account answer resolved) ∧
    ((∃ resolved, resolveAccount P account answer = some resolved ∧
        Faithful P account answer resolved) ↔
      ∀ device ∈ answer.devices, Attested P answer.identityKey account device →
        Announced device → Certified P answer.identityKey account device) := by
  refine ⟨fun resolved h => placed_resolveAccount h, ?_, fun h => ?_⟩
  · rintro ⟨resolved, hresolved, hfaithful⟩ device hd attested announced
    by_contra hnot
    have hactive := hfaithful.active device hd attested hnot
    exact ((sorted_resolveAccount hresolved).verified device hactive).2 announced
  · obtain ⟨lists, hlists⟩ := exists_foldlM h ⟨[], [], []⟩
    obtain ⟨resolved, hresolved⟩ : ∃ resolved, resolveAccount P account answer = some resolved :=
      ⟨_, by rw [resolveAccount, hlists]; rfl⟩
    have sorted := sorted_resolveAccount hresolved
    refine ⟨resolved, hresolved, placed_resolveAccount hresolved, fun d hd attested hnot => ?_⟩
    rcases List.mem_append.1 (sorted.perm.mem_iff.2 hd) with hd' | hd'
    · rcases List.mem_append.1 hd' with hd' | hd'
      · exact hd'
      · exact absurd (sorted.revoked d hd').2 hnot
    · exact absurd (h d hd attested (sorted.rejected d hd' attested).1) hnot

/-- A phone its account attests. -/
def phone (revocation : Bytes) : AttestedDevice where
  id := "phone"
  authKey := [1]
  mlsKey := [2]
  attestation := match message ⟨soleAccount, "phone", [1], [2]⟩ with
    | .ok message => keyOf 0 ++ message.reverse.take 32
    | .error _ => []
  revokedAt := some (.finite 5)
  revocation := some revocation
  lastSeen := none

/-- The server lists the phone as revoked, and shows zeros for a certificate. -/
def censored : AccountDevices where
  identityKey := keyOf 0
  devices := [phone (.replicate 64 0)]
  presenceOptout := none
  contactPolicy := none

theorem attested_phone :
    Attested plainPrimitives (keyOf 0) soleAccount (phone (.replicate 64 0)) := by
  rw [Attested]
  decide +kernel

theorem not_certified_phone :
    ¬Certified plainPrimitives (keyOf 0) soleAccount (phone (.replicate 64 0)) := by
  rintro ⟨announced, revokedAt, revocation, hat, hrevocation, hnumber, hcertified⟩
  cases hat
  cases hrevocation
  cases hnumber
  revert hcertified
  decide +kernel

/-- The phone is not among the active devices, and nothing revoked it. -/
theorem announcement_hides_phone :
    (∃ resolved, resolveAccount plainPrimitives soleAccount censored = some resolved ∧
      resolved.devices = [] ∧ resolved.revoked = []) ∧
    ¬∀ P account answer, ∃ resolved, resolveAccount P account answer = some resolved ∧
      Faithful P account answer resolved := by
  have hrun : (resolveAccount plainPrimitives soleAccount censored).map
      (fun resolved => (resolved.devices, resolved.revoked)) = some ([], []) := by
    decide +kernel
  obtain ⟨resolved, hresolved, hlists⟩ := Option.map_eq_some_iff.1 hrun
  obtain ⟨hdevices, hrevoked⟩ := Prod.mk.inj hlists
  refine ⟨⟨resolved, hresolved, hdevices, hrevoked⟩, fun h => ?_⟩
  obtain ⟨resolved', hresolved', hfaithful⟩ := h plainPrimitives soleAccount censored
  cases hresolved.symm.trans hresolved'
  have hactive := hfaithful.active _ List.mem_cons_self attested_phone not_certified_phone
  rw [hdevices] at hactive
  cases hactive

end Whispee.Account
