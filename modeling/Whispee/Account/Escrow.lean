import Whispee.Account.Pairing
import Whispee.Group.ProviderState
import Whispee.Server.Recovery

/-!
# The recovery escrow

`Params`, `Factor`, `derive_password_factor`, `derive_prf_factor`, `seal` and `open` of
`crates/crypto-core/src/escrow.rs` as `crates/crypto-wasm` exposes them, and `deposit` and `claim` of
`apps/web/src/lib/escrow.ts`. What comes from the generator is an argument. The server keeps what is
deposited (`Server.Recovery`).
-/

namespace Whispee.Account.Escrow

open Pairing (CryptoError NONCE_LEN)
open Server.Recovery (Kind ClaimedRecovery)

/-- Format version. -/
def VERSION : UInt8 := 1

/-- Memory cost, in kibibytes. -/
def MEMORY_KIB : UInt32 := 256 * 1024

/-- Passes over the memory block. -/
def ITERATIONS : UInt32 := 4

def LANES : UInt32 := 1

def INFO_LOOKUP : Bytes := asBytes "wac-escrow-lookup-v1"

def INFO_SEAL : Bytes := asBytes "wac-escrow-seal-v1"

def SALT_DOMAIN : Bytes := asBytes "wac-escrow-salt-v1"

/-- Length of the sealed seed. -/
def SEED_LEN : Nat := 64

/-- Those of the ratchet, the hash and the password hash. -/
structure Primitives extends Ratchet.Primitives where
  sha256 : Bytes → Bytes
  /-- `hash_password_into`, 64 bytes of Argon2id. -/
  argon2id : (memoryKib iterations lanes : UInt32) → (password salt : Bytes) → Option Bytes

def tag : Kind → UInt8
  | .password => 1
  | .passkey => 2

def parseKind : String → Except CryptoError Kind
  | "password" => .ok .password
  | "passkey" => .ok .passkey
  | _ => .error (.malformed "unknown escrow kind")

/-! ## Parameters -/

/-- What the escrow was sealed under. -/
structure Params where
  version : UInt8
  memoryKib : UInt32
  iterations : UInt32
  lanes : UInt32
  deriving DecidableEq

namespace Params

/-- The parameters this build seals with. -/
def current : Kind → Params
  | .password => ⟨VERSION, MEMORY_KIB, ITERATIONS, LANES⟩
  | .passkey => ⟨VERSION, 0, 0, 0⟩

def encode (params : Params) : Bytes :=
  params.version :: toBeBytes 4 params.memoryKib.toNat ++ toBeBytes 4 params.iterations.toNat ++
    toBeBytes 4 params.lanes.toNat

def decode (bytes : Bytes) : Except CryptoError Params :=
  match bytes with
  | version :: rest =>
    if rest.length ≠ 12 then .error (.malformed "escrow parameters of unexpected length")
    else .ok ⟨version, .ofNat (fromBeBytes (rest.take 4)),
      .ofNat (fromBeBytes ((rest.drop 4).take 4)), .ofNat (fromBeBytes (rest.drop 8))⟩
  | [] => .error (.malformed "escrow parameters of unexpected length")

end Params

/-! ## Factors -/

/-- The two keys one secret produces. -/
structure Factor where
  lookup : Bytes
  sealKey : Bytes
  deriving DecidableEq

section
variable (P : Primitives)

def Factor.fromSecret (secret : Bytes) : Factor where
  lookup := P.hkdf [] secret INFO_LOOKUP 32
  sealKey := P.hkdf [] secret INFO_SEAL 32

/-- What the server stores and what the client presents. -/
def Factor.lookupId (factor : Factor) : Bytes := P.sha256 factor.lookup

def passwordSalt (handle : String) : Bytes := P.sha256 (SALT_DOMAIN ++ asBytes handle)

/-- Stretches a password into a factor. -/
def derivePasswordFactor (handle password : String) (params : Params) : Except CryptoError Factor :=
  if params.version ≠ VERSION then .error (.malformed "unsupported escrow version")
  else if params.memoryKib < MEMORY_KIB ∨ params.iterations < ITERATIONS ∨ params.lanes ≠ LANES then
    .error (.malformed "escrow parameters below the accepted floor")
  else
    match P.argon2id params.memoryKib params.iterations params.lanes (asBytes password)
      (passwordSalt P handle) with
    | some stretched => .ok (.fromSecret P stretched)
    | none => .error (.malformed "escrow derivation failed")

def derivePrfFactor (prfOutput : Bytes) : Except CryptoError Factor :=
  if prfOutput.length ≠ 32 then .error (.malformed "PRF output of unexpected length")
  else .ok (.fromSecret P prfOutput)

/-! ## The seal -/

/-- What the seal is bound to. -/
def aad (account : String) (kind : Kind) (params : Params) : Bytes :=
  asBytes account ++ 0 :: tag kind :: params.encode

/-- `seal_escrow`, with a nonce of its own. -/
def sealEscrow (nonce seed : Bytes) (factor : Factor) (account kind : String) (params : Bytes) :
    Except CryptoError Bytes := do
  if seed.length ≠ SEED_LEN then .error (.malformed "seed of unexpected length")
  let params ← Params.decode params
  let kind ← parseKind kind
  match P.aesEncrypt factor.sealKey nonce seed (aad account kind params) with
  | some ciphertext => .ok (nonce ++ ciphertext)
  | none => .error (.malformed "escrow encryption failed")

/-- `open_escrow`. -/
def openEscrow (sealed : Bytes) (factor : Factor) (account kind : String) (params : Bytes) :
    Except CryptoError Bytes := do
  let params ← Params.decode params
  let kind ← parseKind kind
  if sealed.length ≤ NONCE_LEN then .error (.malformed "truncated escrow")
  match P.aesDecrypt factor.sealKey (sealed.take NONCE_LEN) (sealed.drop NONCE_LEN)
    (aad account kind params) with
  | some plaintext =>
    if plaintext.length ≠ SEED_LEN then .error (.malformed "escrow does not hold a seed")
    else .ok plaintext
  | none => .error (.malformed "unreadable or tampered escrow")

/-! ## The client -/

/-- A factor and the parameters it was derived under. -/
structure Derived where
  factor : Factor
  params : Bytes
  deriving DecidableEq

def derivePassword (handle password : String) : Except CryptoError Derived := do
  let params := (Params.current .password).encode
  let factor ← derivePasswordFactor P handle password (← Params.decode params)
  .ok ⟨factor, params⟩

def derivePrf (secret : Bytes) : Except CryptoError Derived := do
  let factor ← derivePrfFactor P secret
  .ok ⟨factor, (Params.current .passkey).encode⟩

/-- The body of `setRecovery`. -/
def deposit (nonce : Bytes) (kind : Kind) (derived : Derived) (accountId : String) (seed : Bytes) :
    Except CryptoError (String × String × String × String) := do
  let sealed ← sealEscrow P nonce seed derived.factor accountId kind.name derived.params
  .ok (kind.name, Base64.encode (derived.factor.lookupId P), Base64.encode derived.params,
    Base64.encode sealed)

inductive RecoveryFailure where
  | unknown
  | tampered
  | cancelled
  | throttled
  deriving DecidableEq

inductive RecoveryResult where
  | recovered (accountId : String) (handle : Option String) (seed : Bytes)
  | failed (reason : RecoveryFailure)
  /-- The error goes to the caller. -/
  | thrown
  deriving DecidableEq

/-- What the server answers. -/
inductive Response where
  | found (answer : ClaimedRecovery)
  | status (code : Nat)
  deriving DecidableEq

def claim (derived : Derived) (expected : Kind) : Response → RecoveryResult
  | .status code =>
    if code = 404 then .failed .unknown else if code = 429 then .failed .throttled else .thrown
  | .found claimed =>
    match Base64.decode claimed.params, Base64.decode claimed.sealed with
    | some params, some sealed =>
      if claimed.kind ≠ expected.name then .failed .tampered
      else
        match openEscrow P sealed derived.factor claimed.account claimed.kind params with
        | .ok seed => .recovered claimed.account claimed.handle seed
        | .error _ => .failed .tampered
    | _, _ => .thrown

end

/-- A factor is derived in one of the two ways. -/
inductive Derives (P : Primitives) : Kind → Derived → Prop where
  | password (h : derivePassword P handle password = .ok derived) : Derives P .password derived
  | passkey (h : derivePrf P secret = .ok derived) : Derives P .passkey derived

/-! ## Parameters and back -/

theorem parseKind_name (kind : Kind) : parseKind kind.name = .ok kind := by cases kind <;> rfl

theorem parseKind_eq_ok (h : parseKind name = .ok kind) : name = kind.name := by
  unfold parseKind at h
  split at h <;> cases h <;> rfl

theorem recoveryKind_name (kind : Kind) : Server.Recovery.recoveryKind kind.name = .ok kind := by
  cases kind <;> rfl

theorem tag_injective : Function.Injective tag := by
  intro kind kind' h
  cases kind <;> cases kind' <;> first | rfl | cases h

namespace Params

@[simp] theorem length_encode (params : Params) : params.encode.length = 13 := by simp [encode]

theorem u32_of_bytes (n : UInt32) : UInt32.ofNat (fromBeBytes (toBeBytes 4 n.toNat)) = n := by
  rw [fromBeBytes_toBeBytes n.toNat_lt]
  exact UInt32.ofNat_toNat

theorem decode_encode (params : Params) : decode params.encode = .ok params := by
  have htake : ∀ (a b : Bytes), a.length = 4 → (a ++ b).take 4 = a := fun a b h => by
    rw [← h, List.take_left]
  have hdrop : ∀ (a b : Bytes), a.length = 4 → (a ++ b).drop 4 = b := fun a b h => by
    rw [← h, List.drop_left]
  obtain ⟨version, memoryKib, iterations, lanes⟩ := params
  simp only [encode, decode, List.cons_append, List.append_assoc]
  rw [if_neg (by simp), show (8 : Nat) = 4 + 4 from rfl, ← List.drop_drop, hdrop _ _ (by simp),
    hdrop _ _ (by simp), htake _ _ (by simp), htake _ _ (by simp)]
  simp only [u32_of_bytes]

/-- Thirteen bytes are the encoding of what they decode to. -/
theorem decode_eq_ok_iff : decode bytes = .ok params ↔ bytes = params.encode := by
  refine ⟨fun h => ?_, fun h => h ▸ decode_encode params⟩
  cases bytes with
  | nil => cases h
  | cons version rest =>
    simp only [decode] at h
    split at h
    next => cases h
    next hlength =>
      cases h
      have word : ∀ part : Bytes, part.length = 4 →
          toBeBytes 4 (UInt32.ofNat (fromBeBytes part)).toNat = part := by
        intro part hpart
        have hlt := Group.fromBeBytes_lt part
        rw [hpart] at hlt
        rw [UInt32.toNat_ofNat_of_lt' hlt, ← hpart]
        exact Group.toBeBytes_fromBeBytes part
      have hlength : rest.length = 12 := not_not.1 hlength
      rw [encode, word _ (by simp [hlength]), word _ (by simp [hlength]), word _ (by simp [hlength])]
      simp only [List.cons_append, List.append_assoc]
      rw [show (8 : Nat) = 4 + 4 from rfl, ← List.drop_drop, List.take_append_drop,
        List.take_append_drop]

end Params

/-- Two seals bound to the same are of one account, one kind and under the same parameters. -/
theorem aad_inj (h : aad account kind params = aad account' kind' params') :
    account = account' ∧ kind = kind' ∧ params = params' := by
  have hlength : (0 :: tag kind :: params.encode).length = (0 :: tag kind' :: params'.encode).length := by
    simp
  obtain ⟨haccount, htail⟩ := List.append_inj' h hlength
  simp only [List.cons.injEq, true_and] at htail
  refine ⟨asBytes_injective haccount, tag_injective htail.1, ?_⟩
  have hdecode := congrArg Params.decode htail.2
  rw [Params.decode_encode, Params.decode_encode] at hdecode
  exact Except.ok.inj hdecode

/-! ## The seal and back -/

/-- What an escrow relies on besides the laws of the ratchet: hashes of 32 bytes, and a cipher that
adds a tag of 16 and opens nothing but what it seals. -/
structure Sound (P : Primitives) : Prop extends P.toPrimitives.Lawful where
  length_sha256 : ∀ bytes, (P.sha256 bytes).length = 32
  aesEncrypt_of_aesDecrypt : ∀ {key nonce msg aad ciphertext : Bytes},
    P.aesDecrypt key nonce ciphertext aad = some msg →
      P.aesEncrypt key nonce msg aad = some ciphertext
  length_aesEncrypt : ∀ {key nonce msg aad ciphertext : Bytes},
    P.aesEncrypt key nonce msg aad = some ciphertext → ciphertext.length = msg.length + 16

/-- The escrow is this seed, sealed under the factor for this account, as this kind. -/
def Seals (P : Primitives) (sealed : Bytes) (factor : Factor) (account : String) (kind : Kind)
    (params : Params) (seed : Bytes) : Prop :=
  ∃ nonce ciphertext, sealed = nonce ++ ciphertext ∧ nonce.length = NONCE_LEN ∧
    seed.length = SEED_LEN ∧
    P.aesEncrypt factor.sealKey nonce seed (aad account kind params) = some ciphertext

variable {P : Primitives}

theorem openEscrow_name (sealed : Bytes) (factor : Factor) (account : String) (kind : Kind)
    (params : Params) : openEscrow P sealed factor account kind.name params.encode =
      if sealed.length ≤ NONCE_LEN then .error (.malformed "truncated escrow")
      else
        match P.aesDecrypt factor.sealKey (sealed.take NONCE_LEN) (sealed.drop NONCE_LEN)
          (aad account kind params) with
        | some plaintext =>
          if plaintext.length ≠ SEED_LEN then .error (.malformed "escrow does not hold a seed")
          else .ok plaintext
        | none => .error (.malformed "unreadable or tampered escrow") := by
  rw [openEscrow, Params.decode_encode, parseKind_name]
  by_cases h : sealed.length ≤ NONCE_LEN
  · rw [if_pos h]
    simp only [if_pos h]
    rfl
  · rw [if_neg h]
    simp only [if_neg h]
    rfl

theorem openEscrow_eq_ok_iff (sound : Sound P) :
    openEscrow P sealed factor account name bytes = .ok seed ↔ ∃ kind params,
      name = kind.name ∧ bytes = params.encode ∧ Seals P sealed factor account kind params seed := by
  constructor
  · intro h
    obtain ⟨params, hparams, h'⟩ := Fallible.bind_eq_ok_iff.1 h
    obtain ⟨kind, hkind, _⟩ := Fallible.bind_eq_ok_iff.1 h'
    obtain rfl := Params.decode_eq_ok_iff.1 hparams
    obtain rfl := parseKind_eq_ok hkind
    refine ⟨kind, params, rfl, rfl, sealed.take NONCE_LEN, sealed.drop NONCE_LEN,
      (List.take_append_drop _ _).symm, ?_⟩
    rw [openEscrow_name] at h
    split at h
    next => cases h
    next hlong =>
      split at h
      next plaintext hdecrypt =>
        split at h
        next => cases h
        next hlength =>
          cases h
          exact ⟨by rw [List.length_take]; omega, not_not.1 hlength,
            sound.aesEncrypt_of_aesDecrypt hdecrypt⟩
      next => cases h
  · rintro ⟨kind, params, rfl, rfl, nonce, ciphertext, rfl, hnonce, hseed, hencrypt⟩
    have hlength := sound.length_aesEncrypt hencrypt
    have hlong : ¬ (nonce ++ ciphertext).length ≤ NONCE_LEN := by
      rw [List.length_append, hnonce, hlength]
      omega
    rw [openEscrow_name, if_neg hlong, ← hnonce, List.take_left, List.drop_left,
      sound.aesDecrypt_aesEncrypt hencrypt]
    exact if_neg (not_not.2 hseed)

/-! ## What a client takes from the server -/

/-- Whatever the server answers, what a client takes for its seed was sealed under its own factor,
for the account it is told, as the kind it asks for and under the parameters it is given. -/
theorem claim_eq_recovered_iff (sound : Sound P) :
    claim P derived kind response = .recovered account handle seed ↔
      ∃ answer sealed params, response = .found answer ∧ answer.account = account ∧
        answer.handle = handle ∧ answer.kind = kind.name ∧
        Base64.decode answer.params = some (Params.encode params) ∧
        Base64.decode answer.sealed = some sealed ∧
        Seals P sealed derived.factor account kind params seed := by
  constructor
  · intro h
    cases response with
    | status code =>
      simp only [claim] at h
      split at h
      · cases h
      · split at h <;> cases h
    | found answer =>
      simp only [claim] at h
      split at h
      next params sealed hparams hsealed =>
        split at h
        next => cases h
        next hkind =>
          split at h
          next seed' hopen =>
            cases h
            obtain ⟨kind', params, hname, rfl, hseals⟩ := (openEscrow_eq_ok_iff sound).1 hopen
            have hkind : answer.kind = kind.name := not_not.1 hkind
            obtain rfl : kind = kind' := by
              have hparse := congrArg parseKind (hkind.symm.trans hname)
              rw [parseKind_name, parseKind_name] at hparse
              exact Except.ok.inj hparse
            exact ⟨answer, sealed, params, rfl, rfl, rfl, hkind, hparams, hsealed, hseals⟩
          next => cases h
      next => cases h
  · rintro ⟨answer, sealed, params, rfl, rfl, rfl, hkind, hparams, hsealed, hseals⟩
    have hopen := (openEscrow_eq_ok_iff sound).2 ⟨kind, params, hkind, rfl, hseals⟩
    simp only [claim, hparams, hsealed, hopen, if_neg (not_not.2 hkind)]

theorem Derives.params (h : Derives P kind derived) :
    derived.params = (Params.current kind).encode := by
  cases h with
  | password h =>
    obtain ⟨_, _, h⟩ := Fallible.bind_eq_ok_iff.1 h
    obtain ⟨_, _, h⟩ := Fallible.bind_eq_ok_iff.1 h
    cases h
    rfl
  | passkey h =>
    obtain ⟨_, _, h⟩ := Fallible.bind_eq_ok_iff.1 h
    cases h
    rfl

theorem deposit_eq_ok (derives : Derives P kind derived) (hnonce : nonce.length = NONCE_LEN)
    (h : deposit P nonce kind derived account seed = .ok body) :
    ∃ sealed, Seals P sealed derived.factor account kind (.current kind) seed ∧
      body = (kind.name, Base64.encode (derived.factor.lookupId P), Base64.encode derived.params,
        Base64.encode sealed) := by
  obtain ⟨sealed, hsealed, h⟩ := Fallible.bind_eq_ok_iff.1 h
  cases h
  refine ⟨sealed, ?_, rfl⟩
  rw [derives.params, sealEscrow, Params.decode_encode, parseKind_name] at hsealed
  by_cases hseed : seed.length = SEED_LEN
  · simp only [if_neg (not_not.2 hseed)] at hsealed
    cases hencrypt : P.aesEncrypt derived.factor.sealKey nonce seed (aad account kind (.current kind)) with
    | some ciphertext =>
      change (match P.aesEncrypt _ _ _ _ with | some c => _ | none => _) = _ at hsealed
      rw [hencrypt] at hsealed
      exact ⟨nonce, ciphertext, (Except.ok.inj hsealed).symm, hnonce, hseed, hencrypt⟩
    | none =>
      change (match P.aesEncrypt _ _ _ _ with | some c => _ | none => _) = _ at hsealed
      rw [hencrypt] at hsealed
      cases hsealed
  · simp only [if_pos hseed] at hsealed
    cases hsealed

theorem decodeExact_encode (bytes : Bytes) (what : String) :
    Server.Recovery.decodeExact (Base64.encode bytes) bytes.length what = .ok bytes := by
  have hdecode : Server.Groups.decodeB64 (Base64.encode bytes) = .ok bytes := by
    rw [Server.Groups.decodeB64, Server.Auth.decodeStandard, Base64.decode_encode,
      Option.filter_some, if_pos (decide_eq_true rfl)]
    rfl
  rw [Server.Recovery.decodeExact, hdecode]
  exact if_neg (not_not.2 rfl)

/-- The server takes what a client deposits. -/
theorem setRecovery_deposit (sound : Sound P) (derives : Derives P kind derived)
    (hseals : Seals P sealed derived.factor account kind (.current kind) seed) (deviceId : String) :
    Server.Recovery.setRecovery deviceId (some (kind.name, Base64.encode (derived.factor.lookupId P),
      Base64.encode derived.params, Base64.encode sealed)) =
        .ok (.set deviceId kind (derived.factor.lookupId P) derived.params sealed) := by
  obtain ⟨nonce, ciphertext, rfl, hnonce, hseed, hencrypt⟩ := hseals
  have hlookup := decodeExact_encode (derived.factor.lookupId P) "lookup of invalid length"
  have hparams := decodeExact_encode derived.params "escrow parameters of invalid length"
  have hsealed := decodeExact_encode (nonce ++ ciphertext) "escrow of invalid length"
  rw [Factor.lookupId, sound.length_sha256] at hlookup
  rw [derives.params, Params.length_encode] at hparams
  rw [List.length_append, hnonce, sound.length_aesEncrypt hencrypt, hseed] at hsealed
  refine Fallible.bind_eq_ok_iff.2 ⟨_, rfl, ?_⟩
  refine Fallible.bind_eq_ok_iff.2 ⟨kind, recoveryKind_name kind, ?_⟩
  refine Fallible.bind_eq_ok_iff.2 ⟨_, hlookup, ?_⟩
  refine Fallible.bind_eq_ok_iff.2 ⟨_, derives.params ▸ hparams, ?_⟩
  exact Fallible.bind_eq_ok_iff.2 ⟨_, hsealed, derives.params ▸ rfl⟩

/-- A seed that is deposited, and told to be so, comes back to whoever derives the factor again, in
every run of the server, until a request of the account has removed it: when the factor is set anew
or forgotten, or the account is rotated. -/
theorem seed_comes_back (sound : Sound P) (derives : Derives P kind derived)
    (hnonce : nonce.length = NONCE_LEN)
    (deposited : deposit P nonce kind derived account seed = .ok body)
    (reach : Transition.Reach Server.Recovery.State.step (fun _ _ => True) Server.Recovery.empty s)
    {i : Nat} (at_ : s.tasks[i]? = some ⟨request, .done seen removed⟩)
    (set : Server.Recovery.setRecovery deviceId (some body) = .ok request)
    (owner : s.db.devices deviceId = some account) :
    ∃ e ∈ s.entries, e.task = i ∧ (Server.Recovery.RemovedBy s e ∨ ∀ now x, ∃ t answer,
      Server.Recovery.claimRecovery (Base64.encode (derived.factor.lookupId P)) = .ok t ∧
      Server.Recovery.next now s.db x ⟨t, t.start⟩ = some (s.db, .answered answer) ∧
      claim P derived kind (.found answer) = .recovered account (s.db.handles account) seed) := by
  have escrowed := Server.Recovery.escrowed reach
  obtain ⟨sealed, hseals, rfl⟩ := deposit_eq_ok derives hnonce deposited
  rw [setRecovery_deposit sound derives hseals deviceId] at set
  cases set
  obtain ⟨e, he, htask, t, deviceId', at_', owner', hrequest⟩ :=
    escrowed.posted i _ seen removed at_ rfl _ _ _ _ _ rfl
  rw [htask, at_] at at_'
  cases at_'
  obtain ⟨rfl, hkind, hlookup, hparams, hsealed⟩ := Server.Recovery.Request.set.inj hrequest
  have haccount : account = e.row.account := Option.some.inj (owner.symm.trans owner')
  refine ⟨e, he, htask, (escrowed.fate e he).symm.imp_right fun hrow now x => ?_⟩
  have hfound := escrowed.escrow?_of_mem hrow
  rw [← hlookup] at hfound
  have hclaim := decodeExact_encode (derived.factor.lookupId P) "lookup of invalid length"
  rw [Factor.lookupId, sound.length_sha256] at hclaim
  refine ⟨.claim (derived.factor.lookupId P), s.db.answer e.row,
    Fallible.bind_eq_ok_iff.2 ⟨_, hclaim, rfl⟩, ?_, ?_⟩
  · simp only [Server.Recovery.next, Server.Recovery.Request.start, hfound]
  · refine (claim_eq_recovered_iff sound).2 ⟨_, sealed, .current kind, rfl, haccount.symm,
      congrArg s.db.handles haccount.symm, congrArg Kind.name hkind.symm, ?_, ?_, hseals⟩
    · rw [← derives.params, hparams]
      exact Base64.decode_encode _
    · rw [hsealed]
      exact Base64.decode_encode _

/-! ## An account and its password -/

def smallPrimitives : Primitives where
  toPrimitives := Ratchet.smallPrimitives
  sha256 bytes := Ratchet.digest bytes 32
  argon2id _ _ _ password salt := some (Ratchet.digest (password ++ salt) 64)

theorem smallPrimitives_sound : Sound smallPrimitives where
  toLawful := Ratchet.smallPrimitives_lawful
  length_sha256 bytes := by simp [smallPrimitives, Ratchet.digest]
  aesEncrypt_of_aesDecrypt {key nonce msg aad ciphertext} h := by
    simp only [smallPrimitives, Ratchet.smallPrimitives, Option.ite_none_right_eq_some] at h ⊢
    obtain ⟨hciphertext, hmsg⟩ := h
    obtain rfl := Option.some.inj hmsg
    exact congrArg some hciphertext.symm
  length_aesEncrypt {key nonce msg aad ciphertext} h := by
    obtain rfl := Option.some.inj h
    simp [Ratchet.digest]

/-- What the password of an account derives, and its seed. -/
def adas : Derived :=
  ((derivePassword smallPrimitives "ada" "orchard")).toOption.getD ⟨⟨[], []⟩, []⟩

def adasSeed : Bytes := List.replicate 64 7

def adasBody : String × String × String × String :=
  ((deposit smallPrimitives (List.replicate 12 3) .password adas "ada" adasSeed).toOption).getD
    ("", "", "", "")

/-- What the server makes of it. -/
def adasRequest : Server.Recovery.Request :=
  ((Server.Recovery.setRecovery "phone" (some adasBody)).toOption).getD (.rotate "")

/-- It is set. -/
def setting : List Server.Recovery.Action :=
  [.register "phone" "ada", .rename "ada" (some "ada"), .set "phone" (some adasBody)] ++
    List.replicate 5 (.statement 0) ++ [.commit 0]

theorem seed_comes_back_setting : ∃ s t answer,
    Transition.run Server.Recovery.State.step Server.Recovery.empty setting = some s ∧
    Server.Recovery.claimRecovery (Base64.encode (adas.factor.lookupId smallPrimitives)) = .ok t ∧
    Server.Recovery.next 0 s.db 1 ⟨t, t.start⟩ = some (s.db, .answered answer) ∧
    claim smallPrimitives adas .password (.found answer) = .recovered "ada" (some "ada") adasSeed := by
  have derived : (derivePassword smallPrimitives "ada" "orchard").toOption = some adas := by
    decide +kernel
  have deposited : (deposit smallPrimitives (List.replicate 12 3) .password adas "ada"
      adasSeed).toOption = some adasBody := by decide +kernel
  have request : (Server.Recovery.setRecovery "phone" (some adasBody)).toOption =
      some adasRequest := by decide +kernel
  have executed : (Transition.run Server.Recovery.State.step Server.Recovery.empty setting).map
      (fun s => (s.tasks[0]?, s.removed, s.db.devices "phone", s.db.handles "ada")) =
        some (some ⟨adasRequest, .done [] 0⟩, [], some "ada", some "ada") := by decide +kernel
  obtain ⟨s, hrun, hs⟩ := Option.map_eq_some_iff.1 executed
  simp only [Prod.mk.injEq] at hs
  obtain ⟨at_, hremoved, hdevice, hhandle⟩ := hs
  obtain ⟨e, _, _, hkept⟩ := seed_comes_back smallPrimitives_sound
    (.password (Fallible.toOption_eq_some derived)) rfl (Fallible.toOption_eq_some deposited)
    (Transition.reach_of_run hrun) at_ (Fallible.toOption_eq_some request) hdevice
  rcases hkept with ⟨i, t, hmem, _⟩ | hclaims
  · rw [hremoved] at hmem
    cases hmem
  · obtain ⟨t, answer, ht, hnext, hclaim⟩ := hclaims 0 1
    rw [hhandle] at hclaim
    exact ⟨s, t, answer, hrun, ht, hnext, hclaim⟩

/-- An answer that serves the escrow of a factor, as of an account. -/
def served (body : String × String × String × String) (account : String) : Response :=
  .found ⟨account, none, body.1, body.2.2.1, body.2.2.2⟩

/-- A client takes a seed from an answer just where the seed was sealed under its own factor, for the
account it is told, as the kind it asks for and under the parameters it is given, and what is sealed
for one of these is for no other. -/
theorem claimed_as_sealed (sound : Sound P) :
    (claim P derived kind response = .recovered account handle seed ↔
      ∃ answer sealed params, response = .found answer ∧ answer.account = account ∧
        answer.handle = handle ∧ answer.kind = kind.name ∧
        Base64.decode answer.params = some (Params.encode params) ∧
        Base64.decode answer.sealed = some sealed ∧
        Seals P sealed derived.factor account kind params seed) ∧
    ∀ params account' kind' params', aad account kind params = aad account' kind' params' →
      account = account' ∧ kind = kind' ∧ params = params' :=
  ⟨claim_eq_recovered_iff sound, fun _ _ _ _ => aad_inj⟩

theorem claimed_as_sealed_ada :
    claim smallPrimitives adas .password (served adasBody "ada") = .recovered "ada" none adasSeed ∧
    claim smallPrimitives adas .password (served adasBody "eve") = .failed .tampered := by
  refine ⟨(claimed_as_sealed smallPrimitives_sound).1.2 ?_, by decide +kernel⟩
  have deposited : (deposit smallPrimitives (List.replicate 12 3) .password adas "ada"
      adasSeed).toOption = some adasBody := by decide +kernel
  have derived : (derivePassword smallPrimitives "ada" "orchard").toOption = some adas := by
    decide +kernel
  have derives := Derives.password (Fallible.toOption_eq_some derived)
  obtain ⟨sealed, hseals, hbody⟩ :=
    deposit_eq_ok derives rfl (Fallible.toOption_eq_some deposited)
  refine ⟨_, sealed, .current .password, rfl, rfl, rfl, ?_, ?_, ?_, hseals⟩ <;> rw [hbody]
  · rw [derives.params]
    exact Base64.decode_encode _
  · exact Base64.decode_encode _

end Whispee.Account.Escrow
