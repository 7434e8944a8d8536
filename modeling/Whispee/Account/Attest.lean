import Whispee.Bytes

/-!
# What an account signs

The part of `crates/attest` a key rotation goes through: the canonical serialisation shared by
every signed message, the rotation message, its verification, and the account id. SHA-256 and
Ed25519 come from other crates and are parameters.
-/

namespace Whispee.Account

/-- What `attest` uses of the crates it depends on. -/
structure Primitives where
  sha256 : Bytes → Bytes
  /-- `VerifyingKey::from_bytes` accepts the bytes. -/
  isVerifyingKey : Bytes → Bool
  /-- `verify(key, message, signature)`. -/
  verify : Bytes → Bytes → Bytes → Bool

inductive AttestError where
  /-- A field exceeds what a `u16` prefix can describe. -/
  | fieldTooLong
  /-- The account public key is not a valid Ed25519 key. -/
  | badIdentityKey
  /-- The signature has the wrong size, or does not verify. -/
  | badSignature
  deriving DecidableEq, Repr

def MAX_FIELD_LEN : Nat := 65535

def DOMAIN_ROTATE : Bytes := asBytes "wac-rotate-v2"

/-- Canonical serialisation shared by every signed message. -/
def encode (domain : Bytes) (parts : List Bytes) : Except AttestError Bytes :=
  if parts.any (·.length > MAX_FIELD_LEN) then .error .fieldTooLong
  else .ok (domain ++ parts.flatMap fun part => u16ToBeBytes part.length ++ part)

structure RotationClaim where
  account : String
  newIdentityKey : Bytes
  /-- Rotation instant, in Unix seconds. -/
  rotatedAt : Nat

def rotationMessage (claim : RotationClaim) : Except AttestError Bytes :=
  encode DOMAIN_ROTATE [asBytes claim.account, claim.newIdentityKey, toBeBytes 8 claim.rotatedAt]

section
variable (P : Primitives)

def verifySignature (identityKey message sig : Bytes) : Except AttestError Unit :=
  if identityKey.length ≠ 32 ∨ !P.isVerifyingKey identityKey then .error .badIdentityKey
  else if sig.length ≠ 64 ∨ !P.verify identityKey message sig then .error .badSignature
  else .ok ()

/-- Verifies a rotation against the **old** account key. -/
def verifyRotation (previousIdentityKey : Bytes) (claim : RotationClaim) (rotation : Bytes) :
    Except AttestError Unit := do
  verifySignature P previousIdentityKey (← rotationMessage claim) rotation

def ID_HEX_LEN : Nat := 32

/-- The account id: the first half of the digest of the genesis key, in hexadecimal. -/
def accountId (genesisIdentityKey : Bytes) : String :=
  toHex ((P.sha256 genesisIdentityKey).take (ID_HEX_LEN / 2))

end

end Whispee.Account
