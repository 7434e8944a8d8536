import Whispee.Lib.Delimited
import Whispee.Server.Membership
import Whispee.Server.Auth
import Whispee.Transparency.Head

/-!
# What is signed, and under which key

The messages of `crates/attest`, the log entry and the tree head of `crates/transparency` and the
payload of a signed request, side by side: which bytes stand for which fields, and whose key
authenticates them. A digest of a body is taken for the body.
-/

namespace Whispee.Account

open Delimited Transparency

def DOMAIN_REVOKE : Bytes := asBytes "wac-revoke-v2"

def DOMAIN_GATEWAY : Bytes := asBytes "wac-gateway-v1"

structure DeviceClaim where
  account : String
  deviceId : String
  authKey : Bytes
  mlsKey : Bytes

def message (claim : DeviceClaim) : Except AttestError Bytes :=
  encode Server.Groups.DOMAIN
    [asBytes claim.account, asBytes claim.deviceId, claim.authKey, claim.mlsKey]

structure RevocationClaim where
  account : String
  deviceId : String
  revokedAt : UInt64

def revocationMessage (claim : RevocationClaim) : Except AttestError Bytes :=
  encode DOMAIN_REVOKE
    [asBytes claim.account, asBytes claim.deviceId, toBeBytes 8 claim.revokedAt.toNat]

def postMessage (groupId nonce bodyDigest : Bytes) : Except AttestError Bytes :=
  encode Server.Membership.DOMAIN_POST [groupId, nonce, bodyDigest]

def signalMessage (groupId nonce bodyDigest : Bytes) : Except AttestError Bytes :=
  encode Server.Membership.DOMAIN_SIGNAL [groupId, nonce, bodyDigest]

def gatewayMessage (deviceId : String) (nonce : Bytes) : Except AttestError Bytes :=
  encode DOMAIN_GATEWAY [asBytes deviceId, nonce]

/-- The methods of the routes that take a signed request; a `get` route takes `HEAD` as well. -/
def METHODS : List String := ["GET", "HEAD", "POST", "DELETE"]

/-- A request as it gets to the check of its signature: its path is part of a request line, and its
nonce has been measured. -/
structure SignedRequest where
  method : String
  path : String
  timestamp : UInt64
  nonce : Bytes
  body : Bytes
  routed : method ∈ METHODS
  one_line : 10 ∉ asBytes path
  nonce_length : nonce.length = Server.Auth.NONCE_LEN

/-- Its part that is signed; the device and the signature are not. -/
def SignedRequest.claimed (r : SignedRequest) : Server.Auth.Claimed where
  deviceId := ""
  timestamp := r.timestamp.toNat
  signature := ""
  nonce := r.nonce
  method := r.method
  path := r.path

/-- The keys that messages are authenticated with; a log entry is hashed into a leaf. -/
inductive Authority where
  | account
  | posting
  | device
  | logKey
  | leaf
  deriving DecidableEq

inductive Message (Hash : Type) where
  | attestation (claim : DeviceClaim)
  | revocation (claim : RevocationClaim)
  | rotation (account : String) (newIdentityKey : Bytes) (rotatedAt : UInt64)
  | post (groupId nonce bodyDigest : Bytes)
  | signal (groupId nonce bodyDigest : Bytes)
  | gateway (deviceId : String) (nonce : Bytes)
  | request (r : SignedRequest)
  | treeHead (size : UInt64) (root : Hash) (timestamp : UInt64)
  | logEntry (handle : String) (identityKey : Bytes)

section
variable {Hash : Type} (C : Server.Auth.Crypto) (S : Sha256 Hash)

namespace Message

def authority : Message Hash → Authority
  | attestation _ | revocation _ | rotation _ _ _ => .account
  | post _ _ _ | signal _ _ _ => .posting
  | gateway _ _ | request _ => .device
  | treeHead _ _ _ => .logKey
  | logEntry _ _ => .leaf

def bytes : Message Hash → Except AttestError Bytes
  | attestation claim => message claim
  | revocation claim => revocationMessage claim
  | rotation account newIdentityKey rotatedAt =>
    rotationMessage ⟨account, newIdentityKey, rotatedAt.toNat⟩
  | post groupId nonce bodyDigest => postMessage groupId nonce bodyDigest
  | signal groupId nonce bodyDigest => signalMessage groupId nonce bodyDigest
  | gateway deviceId nonce => gatewayMessage deviceId nonce
  | request r => .ok (Server.Auth.signingPayload C r.claimed r.body)
  | treeHead size root timestamp =>
    .ok ((⟨size.toNat, root, timestamp.toNat⟩ : TreeHead Hash).message S)
  | logEntry handle identityKey => .ok (entry handle identityKey)

/-- Under one key, the same bytes are the same message. -/
def Distinct (m m' : Message Hash) : Prop :=
  m.authority = m'.authority → ∀ bytes, m.bytes C S = .ok bytes → m'.bytes C S = .ok bytes → m = m'

/-- A log entry's handle is another's with a length and more bytes behind it, a multiple of 65,536
in all, and the other's key begins with those bytes and the length again, before the entry's own
key. -/
def Wraps : Message Hash → Message Hash → Prop
  | logEntry handle identityKey, logEntry handle' identityKey' => ∃ middle : Bytes,
    asBytes handle' = asBytes handle ++ u16ToBeBytes identityKey'.length ++ middle ∧
      identityKey = middle ++ u16ToBeBytes identityKey'.length ++ identityKey' ∧
      65536 ∣ middle.length + 2
  | _, _ => False

/-- The bodies of two requests have different digests, if they differ. -/
def DigestsTell (C : Server.Auth.Crypto) : Message Hash → Message Hash → Prop
  | request r, request r' => C.sha256 r.body = C.sha256 r'.body → r.body = r'.body
  | _, _ => True

end Message

/-- `[u8; 32]`. -/
structure Arrays (S : Sha256 Hash) : Prop where
  injective : Function.Injective S.bytes
  length : ∀ root, (S.bytes root).length = 32

end

/-! ## Fields -/

theorem not_mem_toString (n : Nat) : 10 ∉ asBytes (toString n) := by
  intro h
  rw [Nat.toString_eq_ofList_toDigits, asBytes_ofList, List.mem_flatMap] at h
  obtain ⟨c, hc, hmem⟩ := h
  have hdigit := Nat.isDigit_of_mem_toDigits (by decide) (by decide) hc
  have hrange : 48 ≤ c.toNat ∧ c.toNat ≤ 57 := by
    simpa [Char.isDigit, UInt32.le_iff_toNat_le] using hdigit
  rw [utf8EncodeChar_of_ascii (by omega), List.mem_singleton] at hmem
  have hnat := congrArg UInt8.toNat hmem
  rw [UInt8.toNat_ofNat'] at hnat
  simp at hnat
  omega

theorem toString_inj {n n' : Nat} (h : toString n = toString n') : n = n' := by
  have hvalue := congrArg (fun s : String => Nat.ofDigitChars 10 s.toList 0) h
  simpa [Nat.toString_eq_ofList_toDigits] using hvalue

theorem u16ToBeBytes_eq_iff : u16ToBeBytes n = u16ToBeBytes n' ↔ n % 65536 = n' % 65536 := by
  unfold u16ToBeBytes
  rw [List.cons.injEq, List.cons.injEq, ← UInt8.toNat_inj, ← UInt8.toNat_inj,
    UInt8.toNat_ofNat', UInt8.toNat_ofNat', UInt8.toNat_ofNat', UInt8.toNat_ofNat']
  constructor
  · rintro ⟨hhigh, hlow, _⟩
    omega
  · intro h
    exact ⟨by omega, by omega, rfl⟩

theorem toBeBytes_inj {n n' : UInt64} (h : toBeBytes 8 n.toNat = toBeBytes 8 n'.toNat) :
    n = n' := by
  have hvalue := congrArg fromBeBytes h
  rw [fromBeBytes_toBeBytes n.toNat_lt, fromBeBytes_toBeBytes n'.toNat_lt] at hvalue
  exact UInt64.toNat_inj.1 hvalue

theorem delimited_u16 : On {n | n ≤ MAX_FIELD_LEN} u16ToBeBytes := by
  refine .of_length (n := 2) (fun n hn n' hn' h => ?_) fun _ _ => rfl
  have hmod := u16ToBeBytes_eq_iff.1 h
  have hlt : n < 65536 := Nat.lt_succ_of_le hn
  have hlt' : n' < 65536 := Nat.lt_succ_of_le hn'
  rwa [Nat.mod_eq_of_lt hlt, Nat.mod_eq_of_lt hlt'] at hmod

/-! ## The messages of `attest` -/

theorem encode_eq_ok {parts : List Bytes} (h : encode domain parts = .ok bytes) :
    (∀ part ∈ parts, part.length ≤ MAX_FIELD_LEN) ∧
      bytes = domain ++ parts.flatMap fun part => u16ToBeBytes part.length ++ part := by
  unfold encode at h
  split at h
  · cases h
  next hshort =>
    refine ⟨fun part hpart => ?_, (Except.ok.inj h).symm⟩
    have hnot := List.any_eq_false.1 (Bool.not_eq_true _ ▸ hshort) part hpart
    exact Nat.not_lt.1 fun hlt => hnot (decide_eq_true hlt)

theorem encode_inj {parts parts' : List Bytes} (h : encode domain parts = .ok bytes)
    (h' : encode domain parts' = .ok bytes) (hlength : parts.length = parts'.length) :
    parts = parts' := by
  obtain ⟨hshort, rfl⟩ := encode_eq_ok h
  obtain ⟨hshort', heq⟩ := encode_eq_ok h'
  have htail := List.append_cancel_left heq
  exact (delimited_u16.prefixed.flatMap hlength hshort hshort'
    (congrArg (· ++ ([] : Bytes)) htail)).1

/-- Under two domains neither of which is the beginning of the other, nothing is the same. -/
theorem encode_ne {parts parts' : List Bytes} (hdomain : ¬ (domain <+: domain' ∨ domain' <+: domain))
    (h : encode domain parts = .ok bytes) : encode domain' parts' ≠ .ok bytes := by
  intro h'
  obtain ⟨_, rfl⟩ := encode_eq_ok h
  obtain ⟨_, heq⟩ := encode_eq_ok h'
  exact hdomain (comparable_of_append_eq heq)

variable {Hash : Type} {C : Server.Auth.Crypto} {S : Sha256 Hash}

/-! ## The request -/

theorem newline_eq : Server.Auth.newline = [10] := by decide +kernel

theorem method_bytes : ∀ method ∈ METHODS, 10 ∉ asBytes method ∧
    ¬ ((asBytes method).take 1 <+: DOMAIN_GATEWAY) ∧ asBytes method ≠ [] := by
  decide +kernel

theorem signingPayload_inj {r r' : SignedRequest}
    (htell : C.sha256 r.body = C.sha256 r'.body → r.body = r'.body)
    (h : Server.Auth.signingPayload C r.claimed r.body =
      Server.Auth.signingPayload C r'.claimed r'.body) : r = r' := by
  unfold Server.Auth.signingPayload SignedRequest.claimed at h
  dsimp only at h
  simp only [newline_eq, List.append_assoc, List.singleton_append] at h
  obtain ⟨hmethod, h⟩ := On.of_terminated (method_bytes _ r.routed).1 (method_bytes _ r'.routed).1 h
  obtain ⟨hpath, h⟩ := On.of_terminated r.one_line r'.one_line h
  obtain ⟨htime, h⟩ := On.of_terminated (not_mem_toString _) (not_mem_toString _) h
  obtain ⟨hnonce, h⟩ := List.append_inj h (r.nonce_length.trans r'.nonce_length.symm)
  have hbody := htell (List.cons.inj h).2
  have htimestamp := UInt64.toNat_inj.1 (toString_inj (asBytes_injective htime))
  obtain ⟨method, path, timestamp, nonce, body, _, _, _⟩ := r
  obtain ⟨method', path', timestamp', nonce', body', _, _, _⟩ := r'
  obtain rfl : method = method' := asBytes_injective hmethod
  obtain rfl : path = path' := asBytes_injective hpath
  obtain rfl : timestamp = timestamp' := htimestamp
  obtain rfl : nonce = nonce' := hnonce
  obtain rfl : body = body' := hbody
  rfl

/-! ## The log entry -/

theorem length_u16ToBeBytes : (u16ToBeBytes n).length = 2 := rfl

/-- A handle that is longer, and still the same bytes: its length has wrapped around. -/
theorem wraps_of_longer {handle more key key' : Bytes} (hmore : more ≠ [])
    (h : u16ToBeBytes handle.length ++ handle ++ u16ToBeBytes key.length ++ key =
      u16ToBeBytes (handle ++ more).length ++ (handle ++ more) ++ u16ToBeBytes key'.length ++ key') :
    ∃ middle, more = u16ToBeBytes key'.length ++ middle ∧
      key = middle ++ u16ToBeBytes key'.length ++ key' ∧ 65536 ∣ middle.length + 2 := by
  simp only [List.append_assoc] at h
  obtain ⟨hfixed, htail⟩ := List.append_inj h rfl
  have htail := List.append_cancel_left htail
  have hmod := u16ToBeBytes_eq_iff.1 hfixed
  have htotal := congrArg List.length htail
  simp only [List.length_append, length_u16ToBeBytes] at hmod htotal
  have hpositive : 0 < more.length := List.length_pos_iff.2 hmore
  have hkey : u16ToBeBytes key.length = u16ToBeBytes key'.length :=
    u16ToBeBytes_eq_iff.2 (by omega)
  have hsplit : (more.take 2).length = 2 := by
    rw [List.length_take]
    omega
  rw [← List.take_append_drop 2 more, List.append_assoc] at htail
  obtain ⟨htake, hdrop⟩ := List.append_inj htail hsplit.symm
  refine ⟨more.drop 2, ?_, ?_, ?_⟩
  · rw [← hkey, htake, List.take_append_drop]
  · rw [hdrop, List.append_assoc]
  · rw [List.length_drop]
    omega

theorem Message.Wraps.entry_eq {handle handle' : String} {key key' : Bytes}
    (h : Wraps (.logEntry handle key : Message Hash) (.logEntry handle' key')) :
    entry handle key = entry handle' key' := by
  obtain ⟨middle, hhandle, rfl, hdvd⟩ := h
  have hlong : u16ToBeBytes (asBytes handle').length = u16ToBeBytes (asBytes handle).length := by
    rw [u16ToBeBytes_eq_iff, hhandle]
    simp only [List.length_append, length_u16ToBeBytes]
    omega
  have hkey : u16ToBeBytes (middle ++ u16ToBeBytes key'.length ++ key').length =
      u16ToBeBytes key'.length := by
    rw [u16ToBeBytes_eq_iff]
    simp only [List.length_append, length_u16ToBeBytes]
    omega
  unfold entry
  rw [hlong, hkey, hhandle]
  simp only [List.append_assoc]

/-- Two entries are the same bytes if they are the same, or if one's handle wraps around. -/
theorem entry_eq_iff {handle handle' : String} {key key' : Bytes} :
    entry handle key = entry handle' key' ↔ (handle = handle' ∧ key = key') ∨
      Message.Wraps (.logEntry handle key : Message Hash) (.logEntry handle' key') ∨
      Message.Wraps (.logEntry handle' key' : Message Hash) (.logEntry handle key) := by
  constructor
  · intro h
    have hflat := h
    simp only [entry, List.append_assoc] at hflat
    have hcut := (List.append_inj hflat rfl).2
    rcases List.append_eq_append_iff.1 hcut with ⟨more, hmore, _⟩ | ⟨more, hmore, _⟩
    · by_cases hnil : more = []
      · rw [hnil, List.append_nil] at hmore
        obtain rfl := asBytes_injective hmore
        have hkey := (List.append_inj (List.append_cancel_left hcut) rfl).2
        exact .inl ⟨rfl, hkey⟩
      · unfold entry at h
        rw [hmore] at h
        obtain ⟨middle, rfl, hkey, hdvd⟩ := wraps_of_longer hnil h
        exact .inr (.inl ⟨middle, by rw [hmore, List.append_assoc], hkey, hdvd⟩)
    · by_cases hnil : more = []
      · rw [hnil, List.append_nil] at hmore
        obtain rfl := asBytes_injective hmore
        have hkey := (List.append_inj (List.append_cancel_left hcut) rfl).2
        exact .inl ⟨rfl, hkey⟩
      · unfold entry at h
        rw [hmore] at h
        obtain ⟨middle, rfl, hkey, hdvd⟩ := wraps_of_longer hnil h.symm
        exact .inr (.inr ⟨middle, by rw [hmore, List.append_assoc], hkey, hdvd⟩)
  · rintro (⟨rfl, rfl⟩ | h | h)
    · rfl
    · exact h.entry_eq
    · exact h.entry_eq.symm

/-! ## All of them -/

theorem treeHead_inj (arrays : Arrays S) {size size' timestamp timestamp' : UInt64} {root root' : Hash}
    (h : (⟨size.toNat, root, timestamp.toNat⟩ : TreeHead Hash).message S =
      (⟨size'.toNat, root', timestamp'.toNat⟩ : TreeHead Hash).message S) :
    size = size' ∧ root = root' ∧ timestamp = timestamp' := by
  unfold TreeHead.message at h
  simp only [List.append_assoc] at h
  have h := List.append_cancel_left h
  obtain ⟨hsize, h⟩ := List.append_inj h (by rw [length_toBeBytes, length_toBeBytes])
  obtain ⟨hroot, htime⟩ := List.append_inj h ((arrays.length _).trans (arrays.length _).symm)
  exact ⟨toBeBytes_inj hsize, arrays.injective hroot, toBeBytes_inj htime⟩

/-- None of the domains under one key is the beginning of another. -/
theorem domains_apart :
    (¬ (Server.Groups.DOMAIN <+: DOMAIN_REVOKE ∨ DOMAIN_REVOKE <+: Server.Groups.DOMAIN)) ∧
    (¬ (Server.Groups.DOMAIN <+: DOMAIN_ROTATE ∨ DOMAIN_ROTATE <+: Server.Groups.DOMAIN)) ∧
    (¬ (DOMAIN_REVOKE <+: DOMAIN_ROTATE ∨ DOMAIN_ROTATE <+: DOMAIN_REVOKE)) ∧
    ¬ (Server.Membership.DOMAIN_POST <+: Server.Membership.DOMAIN_SIGNAL ∨
      Server.Membership.DOMAIN_SIGNAL <+: Server.Membership.DOMAIN_POST) := by
  decide +kernel

/-- A request is not the opening of a gateway session: no method begins like its domain. -/
theorem gatewayMessage_ne (r : SignedRequest) :
    gatewayMessage deviceId nonce ≠ .ok (Server.Auth.signingPayload C r.claimed r.body) := by
  intro h
  obtain ⟨_, heq⟩ := encode_eq_ok h
  obtain ⟨_, hfirst, hne⟩ := method_bytes _ r.routed
  unfold Server.Auth.signingPayload SignedRequest.claimed at heq
  dsimp only at heq
  cases hmethod : asBytes r.method with
  | nil => exact hne hmethod
  | cons first rest =>
    rw [hmethod] at heq hfirst
    have hdomain : DOMAIN_GATEWAY = 119 :: DOMAIN_GATEWAY.tail := by decide +kernel
    rw [hdomain] at heq hfirst
    obtain rfl : first = 119 := (List.cons.inj heq).1
    exact hfirst ⟨_, rfl⟩

section
variable {m m' : Message Hash}

theorem distinct_of_not_wraps (arrays : Arrays S) (htell : Message.DigestsTell C m m')
    (hclear : ¬ (m.Wraps m' ∨ m'.Wraps m)) : m.Distinct C S m' := by
  intro hkey bytes h h'
  cases m with
  | attestation claim =>
    cases m' with
    | attestation claim' =>
      obtain ⟨account, deviceId, authKey, mlsKey⟩ := claim
      obtain ⟨account', deviceId', authKey', mlsKey'⟩ := claim'
      have hparts := encode_inj h h' rfl
      simp only [List.cons.injEq, and_true] at hparts
      obtain ⟨haccount, hdevice, rfl, rfl⟩ := hparts
      rw [asBytes_injective haccount, asBytes_injective hdevice]
    | revocation claim' => exact absurd h' (encode_ne domains_apart.1 h)
    | rotation account key time => exact absurd h' (encode_ne domains_apart.2.1 h)
    | _ => cases hkey
  | revocation claim =>
    cases m' with
    | attestation claim' => exact absurd h (encode_ne domains_apart.1 h')
    | revocation claim' =>
      obtain ⟨account, deviceId, revokedAt⟩ := claim
      obtain ⟨account', deviceId', revokedAt'⟩ := claim'
      have hparts := encode_inj h h' rfl
      simp only [List.cons.injEq, and_true] at hparts
      obtain ⟨haccount, hdevice, htime⟩ := hparts
      rw [asBytes_injective haccount, asBytes_injective hdevice, toBeBytes_inj htime]
    | rotation account key time => exact absurd h' (encode_ne domains_apart.2.2.1 h)
    | _ => cases hkey
  | rotation account newKey time =>
    cases m' with
    | attestation claim' => exact absurd h (encode_ne domains_apart.2.1 h')
    | revocation claim' => exact absurd h (encode_ne domains_apart.2.2.1 h')
    | rotation account' newKey' time' =>
      have hparts := encode_inj h h' rfl
      simp only [List.cons.injEq, and_true] at hparts
      obtain ⟨haccount, rfl, htime⟩ := hparts
      rw [asBytes_injective haccount, toBeBytes_inj htime]
    | _ => cases hkey
  | post groupId nonce digest =>
    cases m' with
    | post groupId' nonce' digest' =>
      have hparts := encode_inj h h' rfl
      simp only [List.cons.injEq, and_true] at hparts
      obtain ⟨rfl, rfl, rfl⟩ := hparts
      rfl
    | signal groupId' nonce' digest' => exact absurd h' (encode_ne domains_apart.2.2.2 h)
    | _ => cases hkey
  | signal groupId nonce digest =>
    cases m' with
    | post groupId' nonce' digest' => exact absurd h (encode_ne domains_apart.2.2.2 h')
    | signal groupId' nonce' digest' =>
      have hparts := encode_inj h h' rfl
      simp only [List.cons.injEq, and_true] at hparts
      obtain ⟨rfl, rfl, rfl⟩ := hparts
      rfl
    | _ => cases hkey
  | gateway deviceId nonce =>
    cases m' with
    | gateway deviceId' nonce' =>
      have hparts := encode_inj h h' rfl
      simp only [List.cons.injEq, and_true] at hparts
      obtain ⟨hdevice, rfl⟩ := hparts
      rw [asBytes_injective hdevice]
    | request r => exact absurd (h.trans h'.symm) (gatewayMessage_ne r)
    | _ => cases hkey
  | request r =>
    cases m' with
    | gateway deviceId nonce => exact absurd (h'.trans h.symm) (gatewayMessage_ne r)
    | request r' =>
      rw [signingPayload_inj htell (Except.ok.inj (h.trans h'.symm))]
    | _ => cases hkey
  | treeHead size root time =>
    cases m' with
    | treeHead size' root' time' =>
      obtain ⟨rfl, rfl, rfl⟩ := treeHead_inj arrays (Except.ok.inj (h.trans h'.symm))
      rfl
    | _ => cases hkey
  | logEntry handle key =>
    cases m' with
    | logEntry handle' key' =>
      rcases entry_eq_iff.1 (Except.ok.inj (h.trans h'.symm)) with ⟨rfl, rfl⟩ | hwraps
      · rfl
      · exact absurd hwraps hclear
    | _ => cases hkey

/-- Entries one of which wraps around are two, and the same bytes. -/
theorem Message.Wraps.not_distinct (h : m.Wraps m') : ¬ m.Distinct C S m' := by
  intro hdistinct
  cases m with
  | logEntry handle key =>
    cases m' with
    | logEntry handle' key' =>
      have hsame := hdistinct rfl _ rfl (congrArg Except.ok h.entry_eq.symm)
      obtain ⟨rfl, rfl⟩ := Message.logEntry.inj hsame
      obtain ⟨middle, hhandle, _, _⟩ := h
      have hlength := congrArg List.length hhandle
      simp only [List.length_append, length_u16ToBeBytes] at hlength
      omega
    | _ => cases h
  | _ => cases h

theorem Message.Distinct.symm (h : m.Distinct C S m') : m'.Distinct C S m :=
  fun hkey bytes hm' hm => (h hkey.symm bytes hm hm').symm

/-- Under one key the same bytes are the same message, log entries whose lengths wrap apart. -/
theorem distinct_iff (arrays : Arrays S) (htell : Message.DigestsTell C m m') :
    m.Distinct C S m' ↔ ¬ (m.Wraps m' ∨ m'.Wraps m) := by
  constructor
  · rintro h (hwraps | hwraps)
    · exact hwraps.not_distinct h
    · exact hwraps.not_distinct h.symm
  · exact distinct_of_not_wraps arrays htell

end

/-! ## Two pairs -/

abbrev Root := { bytes : Bytes // bytes.length = 32 }

/-- Roots as the arrays they are. -/
def arrays : Sha256 Root := ⟨fun _ => ⟨.replicate 32 0, List.length_replicate⟩, Subtype.val⟩

theorem arrays_arrays : Arrays arrays := ⟨Subtype.val_injective, Subtype.property⟩

/-- SHA-256 of the empty body. -/
def emptyDigest : Server.Auth.Crypto where
  sha256 _ := (fromHex "e3b0c44298fc1c149afbf4c8996fb92427ae41e4649b934ca495991b7852b855").getD []
  isVerifyingKey _ := true
  verifyStrict _ _ _ := true

/-- A request without a body. -/
def bare (method path : String) (routed : method ∈ METHODS) (one_line : 10 ∉ asBytes path) :
    SignedRequest where
  method := method
  path := path
  timestamp := 1700000000
  nonce := .replicate 16 7
  body := []
  routed := routed
  one_line := one_line
  nonce_length := rfl

theorem distinct_stockAndVault :
    let stock := bare "GET" "/v1/key-packages/stock" (by decide) (by decide +kernel)
    let vault := bare "DELETE" "/v1/vault/0a" (by decide) (by decide +kernel)
    Message.Distinct emptyDigest arrays (.request stock) (.request vault) := by
  dsimp only
  refine (distinct_iff arrays_arrays ?_).2 fun h => h.elim id id
  exact fun _ => rfl

theorem asBytes_replicate (n : Nat) (rest : List Char) :
    asBytes (String.ofList (rest ++ List.replicate n 'a')) =
      rest.flatMap String.utf8EncodeChar ++ List.replicate n 97 := by
  rw [asBytes_ofList, List.flatMap_append]
  refine congrArg _ ?_
  induction n with
  | zero => rfl
  | succ n ih => rw [List.replicate_succ, List.flatMap_cons, ih]; rfl

/-- A key of 65,536 bytes without a handle, and a handle of 65,536 bytes without a key. -/
theorem wraps_of_padding {n : Nat} (h : 65536 ∣ n + 2) :
    Message.Wraps (.logEntry "" (List.replicate n 97 ++ [0, 0]) : Message Root)
      (.logEntry (String.ofList (['\x00', '\x00'] ++ List.replicate n 'a')) []) := by
  refine ⟨List.replicate n 97, ?_, ?_, ?_⟩
  · rw [asBytes_replicate]
    rfl
  · exact (List.append_nil _).symm
  · rwa [List.length_replicate]

theorem entries_collide :
    let keyOnly : Message Root := .logEntry "" (List.replicate 65534 97 ++ [0, 0])
    let handleOnly : Message Root :=
      .logEntry (String.ofList (['\x00', '\x00'] ++ List.replicate 65534 'a')) []
    keyOnly.bytes emptyDigest arrays = handleOnly.bytes emptyDigest arrays ∧
      ¬ keyOnly.Distinct emptyDigest arrays handleOnly := by
  dsimp only
  have hwraps := wraps_of_padding (n := 65534) (by decide)
  exact ⟨congrArg Except.ok hwraps.entry_eq, hwraps.not_distinct⟩

end Whispee.Account
