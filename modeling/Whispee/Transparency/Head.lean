import Whispee.Bytes
import Whispee.Transparency.Log

/-!
# Tree heads

The entries of the log and its signed heads, from `crates/transparency`. Ed25519 comes from the
`ed25519-dalek` crate and is a parameter.
-/

namespace Whispee.Transparency

/-- What the log uses of the `ed25519-dalek` crate. -/
structure Ed25519 (Key : Type v) where
  /-- `verifying_key().to_bytes()`. -/
  verifyingKey : Key → Bytes
  sign : Key → Bytes → Bytes
  /-- `VerifyingKey::from_bytes` accepts the bytes. -/
  isVerifyingKey : Bytes → Bool
  /-- `verify(key, message, signature)`. -/
  verify : Bytes → Bytes → Bytes → Bool

/-- What a key signs verifies under the bytes of its public half. -/
structure Ed25519.Correct (E : Ed25519 Key) : Prop where
  keyLength : (E.verifyingKey key).length = 32
  isVerifyingKey : E.isVerifyingKey (E.verifyingKey key)
  signatureLength : (E.sign key message).length = 64
  verifies : E.verify (E.verifyingKey key) message (E.sign key message)

def STH_DOMAIN : Bytes := asBytes "wac-sth-v1"

/-- Canonical contents of a log entry. -/
def entry (handle : String) (identityKey : Bytes) : Bytes :=
  u16ToBeBytes (asBytes handle).length ++ asBytes handle ++
    u16ToBeBytes identityKey.length ++ identityKey

structure TreeHead (Hash : Type u) where
  size : Nat
  root : Hash
  timestamp : Nat
  deriving DecidableEq

section
variable (S : Sha256 Hash) (E : Ed25519 Key)

/-- Canonical signed message. -/
def TreeHead.message (head : TreeHead Hash) : Bytes :=
  STH_DOMAIN ++ toBeBytes 8 head.size ++ S.bytes head.root ++ toBeBytes 8 head.timestamp

def TreeHead.sign (head : TreeHead Hash) (key : Key) : Bytes := E.sign key (head.message S)

/-- Verifies the log's signature. -/
def TreeHead.verify (head : TreeHead Hash) (logKey signature : Bytes) : Except LogError Unit :=
  if logKey.length ≠ 32 ∨ !E.isVerifyingKey logKey then .error .badSignature
  else if signature.length ≠ 64 then .error .badSignature
  else if E.verify logKey (head.message S) signature then .ok ()
  else .error .badSignature

variable {S E}

theorem TreeHead.verify_sign (correct : E.Correct) (head : TreeHead Hash) (key : Key) :
    head.verify S E (E.verifyingKey key) (head.sign S E key) = .ok () := by
  have accepted : ¬ ((E.verifyingKey key).length ≠ 32 ∨ !E.isVerifyingKey (E.verifyingKey key)) := by
    rw [correct.keyLength, correct.isVerifyingKey]
    simp
  rw [verify, if_neg accepted, sign, if_neg (not_not.2 correct.signatureLength),
    if_pos correct.verifies]

end

end Whispee.Transparency
