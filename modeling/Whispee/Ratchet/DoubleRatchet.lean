import Whispee.Bytes
import Mathlib.Data.Finmap

/-!
# The double ratchet

`ratchet.rs` and the derivations of `kdf.rs` in `crates/ratchet-lab`, with HKDF, HMAC, X25519 and
AES-GCM as the functions of `Primitives`. A counter is a number below `2 ^ 32`, taken modulo
`2 ^ 32` where the source adds to it. A call returns its result next to the state it leaves, also
when it fails: `decrypt` works on the state itself, and what it has changed before an error stays.
-/

namespace Whispee.Ratchet

/-- What the crates underneath compute. -/
structure Primitives where
  /-- `Hkdf::<Sha256>::new(Some(salt), ikm).expand(info, ..)` into so many bytes. -/
  hkdf : (salt ikm info : Bytes) → Nat → Bytes
  hmac : (key data : Bytes) → Bytes
  /-- `PublicKey::from(&secret)`. -/
  publicKey : Bytes → Bytes
  diffieHellman : (secret peer : Bytes) → Bytes
  aesEncrypt : (key nonce msg aad : Bytes) → Option Bytes
  aesDecrypt : (key nonce ciphertext aad : Bytes) → Option Bytes

/-- What a caller relies on: both ends of an exchange compute one secret, and the cipher opens
what it sealed. -/
structure Primitives.Lawful (P : Primitives) : Prop where
  diffieHellman_comm : ∀ a b,
    P.diffieHellman a (P.publicKey b) = P.diffieHellman b (P.publicKey a)
  aesDecrypt_aesEncrypt : ∀ {key nonce msg aad ciphertext : Bytes},
    P.aesEncrypt key nonce msg aad = some ciphertext →
      P.aesDecrypt key nonce ciphertext aad = some msg

/-! ## Derivations -/

abbrev RootKey := Bytes
abbrev ChainKey := Bytes
abbrev MessageKey := Bytes

def INFO_ROOT : Bytes := asBytes "ratchet-lab/root/v1"

def INFO_MESSAGE : Bytes := asBytes "ratchet-lab/message/v1"

inductive RatchetError where
  | DecryptionFailed
  | MessageKeyGone
  | TooManySkipped (skipped limit : Nat)
  | NoSession
  deriving DecidableEq

section
variable (P : Primitives)

def kdfRk (rk : RootKey) (dhOut : Bytes) : RootKey × ChainKey :=
  let okm := P.hkdf rk dhOut INFO_ROOT 64
  (okm.take 32, okm.drop 32)

def kdfCk (ck : ChainKey) : ChainKey × MessageKey :=
  (P.hmac ck [0x02], P.hmac ck [0x01])

def deriveMessageKeys (mk : MessageKey) : Bytes × Bytes :=
  let okm := P.hkdf (List.replicate 32 0) mk INFO_MESSAGE 44
  (okm.take 32, okm.drop 32)

def aeadSeal (mk : MessageKey) (plaintext aad : Bytes) : Except RatchetError Bytes :=
  let (key, nonce) := deriveMessageKeys P mk
  match P.aesEncrypt key nonce plaintext aad with
  | some ciphertext => .ok ciphertext
  | none => .error .DecryptionFailed

def aeadOpen (mk : MessageKey) (ciphertext aad : Bytes) : Except RatchetError Bytes :=
  let (key, nonce) := deriveMessageKeys P mk
  match P.aesDecrypt key nonce ciphertext aad with
  | some plaintext => .ok plaintext
  | none => .error .DecryptionFailed

end

theorem aeadOpen_aeadSeal {P : Primitives} (lawful : P.Lawful)
    (h : aeadSeal P mk plaintext aad = .ok ciphertext) :
    aeadOpen P mk ciphertext aad = .ok plaintext := by
  simp only [aeadSeal] at h
  split at h
  next hseal =>
    cases h
    simp only [aeadOpen, lawful.aesDecrypt_aesEncrypt hseal]
  · cases h

/-! ## Primitives to run

Functions with the shape and the laws of the real ones, small enough to compute with. -/

/-- So many bytes that depend on all bytes of the input. -/
def digest (input : Bytes) (length : Nat) : Bytes :=
  let h := input.foldl (fun h b => (h * 31 + b.toNat + 7) % 65521) input.length
  (List.range length).map fun i => .ofNat ((h + i) * (h + i) / 16)

/-- The ciphertext is the message followed by the tag. -/
def smallPrimitives : Primitives where
  hkdf salt ikm info length := digest (salt ++ ikm ++ info) length
  hmac key data := digest (key ++ data) 32
  publicKey secret := secret
  diffieHellman := List.zipWith (· + ·)
  aesEncrypt key nonce msg aad := some (msg ++ digest (key ++ nonce ++ msg ++ aad) 16)
  aesDecrypt key nonce ciphertext aad :=
    let msg := ciphertext.take (ciphertext.length - 16)
    if ciphertext = msg ++ digest (key ++ nonce ++ msg ++ aad) 16 then some msg else none

theorem smallPrimitives_lawful : smallPrimitives.Lawful where
  diffieHellman_comm a b := by
    show List.zipWith _ a b = List.zipWith _ b a
    rw [List.zipWith_comm]
    simp only [UInt8.add_comm]
  aesDecrypt_aesEncrypt {key nonce msg aad ciphertext} h := by
    obtain rfl := Option.some.inj h
    have htag : (digest (key ++ nonce ++ msg ++ aad) 16).length = 16 := by simp [digest]
    have hmsg : (msg ++ digest (key ++ nonce ++ msg ++ aad) 16).take
        ((msg ++ digest (key ++ nonce ++ msg ++ aad) 16).length - 16) = msg := by
      rw [List.length_append, htag, Nat.add_sub_cancel, List.take_left]
    show (if _ then _ else _) = _
    rw [hmsg, if_pos rfl]

/-! ## The state -/

structure EphemeralKeyPair where
  secret : Bytes
  publicKey : Bytes
  deriving DecidableEq

/-- The pair of a secret drawn from the generator. -/
def EphemeralKeyPair.ofSecret (P : Primitives) (secret : Bytes) : EphemeralKeyPair :=
  ⟨secret, P.publicKey secret⟩

structure Header where
  dh : Bytes
  /-- Length of the previous sending chain. -/
  pn : Nat
  /-- Position in the current chain. -/
  n : Nat
  deriving DecidableEq

/-- `u32::to_be_bytes`. -/
def toBeBytes (n : Nat) : Bytes :=
  [.ofNat (n / 2 ^ 24), .ofNat (n / 2 ^ 16), .ofNat (n / 2 ^ 8), .ofNat n]

def Header.encode (header : Header) : Bytes :=
  header.dh ++ toBeBytes header.pn ++ toBeBytes header.n

structure Message where
  header : Header
  ciphertext : Bytes
  deriving DecidableEq

structure DoubleRatchet where
  /-- Our current ratchet pair. -/
  dhs : EphemeralKeyPair
  /-- The peer's. `none` until something has been received. -/
  dhr : Option Bytes
  rk : RootKey
  cks : Option ChainKey
  ckr : Option ChainKey
  ns : Nat
  nr : Nat
  pn : Nat
  /-- Keys for messages that arrived out of order or have not arrived yet, by the sender's ratchet
  key and the position. -/
  skipped : Finmap fun _ : Bytes × Nat => MessageKey
  ad : Bytes
  deriving DecidableEq

/-- Cap on how many messages are skipped. -/
def MAX_SKIP : Nat := 1000

/-- `n += 1` of a `u32`. -/
def next (n : Nat) : Nat := (n + 1) % 2 ^ 32

namespace DoubleRatchet

section
variable (P : Primitives)

/-- With the ratchet secret the generator hands out. -/
def initInitiator (secret : Bytes) (sharedSecret : RootKey) (associatedData : Bytes)
    (responderRatchetKey : Bytes) : DoubleRatchet :=
  let dhs := EphemeralKeyPair.ofSecret P secret
  let (rk, cks) := kdfRk P sharedSecret (P.diffieHellman dhs.secret responderRatchetKey)
  { dhs
    dhr := some responderRatchetKey
    rk
    cks := some cks
    ckr := none
    ns := 0
    nr := 0
    pn := 0
    skipped := ∅
    ad := associatedData }

def initResponder (sharedSecret : RootKey) (associatedData : Bytes)
    (signedPrekey : EphemeralKeyPair) : DoubleRatchet where
  dhs := signedPrekey
  dhr := none
  rk := sharedSecret
  cks := none
  ckr := none
  ns := 0
  nr := 0
  pn := 0
  skipped := ∅
  ad := associatedData

variable (s : DoubleRatchet)

def aadFor (header : Header) : Bytes := s.ad ++ header.encode

def encrypt (plaintext : Bytes) : Except RatchetError Message × DoubleRatchet :=
  match s.cks with
  | none => (.error .NoSession, s)
  | some cks =>
    let (nextCks, messageKey) := kdfCk P cks
    let header : Header := ⟨s.dhs.publicKey, s.pn, s.ns⟩
    let s := { s with cks := some nextCks, ns := next s.ns }
    match aeadSeal P messageKey plaintext (s.aadFor header) with
    | .ok ciphertext => (.ok ⟨header, ciphertext⟩, s)
    | .error e => (.error e, s)

/-- The loop of `skip_message_keys` from position `n`, `count` positions long: the chain key it
ends with, and the keys it has set aside. -/
def skipLoop (dhr : Bytes) : ChainKey → Nat → Nat → (Finmap fun _ : Bytes × Nat => MessageKey) →
    ChainKey × Finmap fun _ : Bytes × Nat => MessageKey
  | chain, _, 0, skipped => (chain, skipped)
  | chain, n, count + 1, skipped =>
    let (nextChain, messageKey) := kdfCk P chain
    skipLoop dhr nextChain (n + 1) count (skipped.insert (dhr, n) messageKey)

/-- Advances the receiving chain up to `upTo`. Its refusals all come before its first change. -/
def skipMessageKeys (upTo : Nat) : Except RatchetError DoubleRatchet :=
  match s.ckr with
  | none => if upTo = 0 then .ok s else .error .NoSession
  | some ckr =>
    if upTo < s.nr then .error .MessageKeyGone
    else if upTo - s.nr > MAX_SKIP then .error (.TooManySkipped (upTo - s.nr) MAX_SKIP)
    else
      match s.dhr with
      | none => .error .NoSession
      | some dhr =>
        let (chain, skipped) := skipLoop P dhr ckr s.nr (upTo - s.nr) s.skipped
        .ok { s with skipped, ckr := some chain, nr := upTo }

/-- The DH ratchet proper, with the secret the generator hands out. -/
def dhRatchet (secret : Bytes) (header : Header) : DoubleRatchet :=
  let (rk, ckr) := kdfRk P s.rk (P.diffieHellman s.dhs.secret header.dh)
  let dhs := EphemeralKeyPair.ofSecret P secret
  let (rk, cks) := kdfRk P rk (P.diffieHellman dhs.secret header.dh)
  { s with
    dhs
    dhr := some header.dh
    rk
    cks := some cks
    ckr := some ckr
    ns := 0
    nr := 0
    pn := s.ns }

/-- Case 3 of `decrypt`: the current chain, possibly ahead of us. -/
def decryptCurrent (message : Message) : Except RatchetError Bytes × DoubleRatchet :=
  match s.skipMessageKeys P message.header.n with
  | .error e => (.error e, s)
  | .ok s =>
    match s.ckr with
    | none => (.error .NoSession, s)
    | some ckr =>
      let (nextCkr, messageKey) := kdfCk P ckr
      let s := { s with ckr := some nextCkr, nr := next s.nr }
      (aeadOpen P messageKey message.ciphertext (s.aadFor message.header), s)

def decrypt (secret : Bytes) (message : Message) : Except RatchetError Bytes × DoubleRatchet :=
  match s.skipped.lookup (message.header.dh, message.header.n) with
  | some messageKey =>
    let s := { s with skipped := s.skipped.erase (message.header.dh, message.header.n) }
    (aeadOpen P messageKey message.ciphertext (s.aadFor message.header), s)
  | none =>
    if s.dhr ≠ some message.header.dh then
      match s.skipMessageKeys P message.header.pn with
      | .error e => (.error e, s)
      | .ok s => (s.dhRatchet P secret message.header).decryptCurrent P message
    else s.decryptCurrent P message

end

end DoubleRatchet

end Whispee.Ratchet
