import Whispee.Bytes

/-!
# Rotating the account from a device

`Session.rotateAccount` of `apps/web/src/lib/session.ts` against the account key the server serves.
Each await of the call may fail, and a request may fail after the server has applied it. The call
swaps the key in memory once the answer is there and writes it down at the very end;
`rotateAccount_notStranded_iff` says which failures leave the device without the key that counts.
-/

namespace Whispee.Session

/-- What the session uses of the account keys of `crates/crypto-core`. -/
structure AccountCrypto where
  Entropy : Type
  /-- The recovery phrase of fresh entropy. -/
  phrase : Entropy → String
  /-- The account seed behind the phrase. -/
  seed : Entropy → Bytes
  restore : String → Option Bytes
  identityKey : Bytes → Bytes
  vaultKey : Bytes → Bytes
  /-- This device's attestation by the account with this seed. -/
  attest : Bytes → Bytes
  restore_phrase : ∀ e, restore (phrase e) = some (seed e)

structure CreatedAccount where
  identityKey : Bytes
  phrase : String

/-- What the stored session keeps of the account, once unsealed. -/
structure StoredAccount where
  accountSeed : Bytes
  vaultEnabled : Bool
  deriving DecidableEq

/-- The session, its store, and the rows of the server it is about. -/
structure World where
  /-- The seed of `this.account`. -/
  account : Bytes
  /-- The key of `this.archive`, present when the vault is enabled. -/
  archiveKey : Option Bytes
  forgotten : Bool
  store : Option StoredAccount
  /-- `accounts.identity_key`, as the server serves it. -/
  served : Bytes
  /-- The attestation the server holds for this device. -/
  attestation : Option Bytes

/-- What becomes of a request. -/
inductive Fate where
  /-- It never reached the server. -/
  | lost
  | refused
  /-- The server applied it, and the answer did not arrive. -/
  | answerLost
  | answered
  deriving DecidableEq, Repr

def Fate.applied : Fate → Bool
  | .lost | .refused => false
  | .answerLost | .answered => true

inductive Failure where
  | network
  /-- The server answered with an error. -/
  | api
  | cipher
  | vault
  | store
  /-- The phrase is not one. -/
  | malformed
  deriving DecidableEq, Repr

/-- A call of the session: an error keeps what was done before it. -/
abbrev Call := ExceptT Failure (StateM World)

/-- How a call ends, and the world it leaves. -/
def Call.exec (call : Call α) (w : World) : Except Failure α × World := call.run.run w

namespace Call

@[simp] theorem exec_pure (a : α) (w : World) : exec (pure a) w = (.ok a, w) := rfl

@[simp] theorem exec_throw (e : Failure) (w : World) :
    exec (throw e : Call α) w = (.error e, w) := rfl

@[simp] theorem exec_get (w : World) : exec get w = (.ok w, w) := rfl

@[simp] theorem exec_modify (f : World → World) (w : World) : exec (modify f) w = (.ok (), f w) :=
  rfl

@[simp] theorem exec_bind (x : Call α) (f : α → Call β) (w : World) :
    exec (x >>= f) w = match exec x w with
      | (.ok a, w') => exec (f a) w'
      | (.error e, w') => (.error e, w') := by
  simp only [exec, ExceptT.run_bind, StateT.run_bind]
  rcases x.run.run w with ⟨_ | _, _⟩ <;> rfl

@[simp] theorem exec_map (f : α → β) (x : Call α) (w : World) :
    exec (f <$> x) w = ((exec x w).1.map f, (exec x w).2) := by
  rw [map_eq_pure_bind, exec_bind]
  rcases exec x w with ⟨_ | _, _⟩ <;> rfl

end Call

/-- How each await of `rotateAccount` ends, in their order. -/
structure Script where
  rotate : Fate
  authPublicKey : Bool
  register : Fate
  enable : Bool
  persist : Bool
  deriving DecidableEq

/-- A request that makes `apply` of the server when it gets there. -/
def request (fate : Fate) (apply : World → World) : Call Unit := do
  if fate.applied then modify apply
  match fate with
  | .answered => return
  | .refused => throw .api
  | .lost | .answerLost => throw .network

/-- An await on this side. -/
def step (succeeds : Bool) (failure : Failure) : Call Unit :=
  if succeeds then return else throw failure

/-- `persist`: nothing is written for a session that was forgotten. -/
def persist (saved : Bool) : Call Unit := do
  let w ← get
  if w.forgotten then return
  step saved .store
  modify fun w' => { w' with store := some ⟨w.account, w.archiveKey.isSome⟩ }

section
variable (K : AccountCrypto)

def generate (entropy : K.Entropy) : CreatedAccount where
  identityKey := K.identityKey (K.seed entropy)
  phrase := K.phrase entropy

def restoreAccount (phrase : String) : Call Bytes :=
  match K.restore phrase with
  | some seed => return seed
  | none => throw .malformed

def rotateAccount (entropy : K.Entropy) (script : Script) : Call String := do
  let created := generate K entropy
  request script.rotate fun w => { w with served := created.identityKey }
  let account ← restoreAccount K created.phrase
  modify fun w => { w with account := account }
  step script.authPublicKey .cipher
  request script.register fun w => { w with attestation := some (K.attest w.account) }
  if (← get).archiveKey.isSome then
    step script.enable .vault
    modify fun w => { w with archiveKey := some (K.vaultKey w.account) }
  persist script.persist
  return created.phrase

end

/-- The session goes on after the call, and saves itself now and then. -/
def carryOn (saves : List Bool) (w : World) : World :=
  saves.foldl (fun w saved => ((persist saved).exec w).2) w

variable {K : AccountCrypto}

/-- Somebody holds the key the server serves: the stored session, or the user to whom the call
returned a phrase. -/
def NotStranded (K : AccountCrypto) (result : Except Failure String) (w : World) : Prop :=
  (∃ stored, w.store = some stored ∧ K.identityKey stored.accountSeed = w.served) ∨
  ∃ phrase seed, result = .ok phrase ∧ K.restore phrase = some seed ∧
    K.identityKey seed = w.served

/-- A device in order: what it stores and what it works with is the account's key. -/
structure InOrder (K : AccountCrypto) (w : World) : Prop where
  kept : w.forgotten = false
  stored : ∃ stored, w.store = some stored ∧ stored.accountSeed = w.account
  served : K.identityKey w.account = w.served

/-- Every await after the answer to the rotation succeeds. -/
def Script.completes (script : Script) (vaultEnabled : Bool) : Bool :=
  script.authPublicKey && script.register = .answered && (!vaultEnabled || script.enable) &&
    script.persist

theorem exec_persist (saved : Bool) (w : World) (h : w.forgotten = false) :
    (persist saved).exec w =
      if saved then (.ok (), { w with store := some ⟨w.account, w.archiveKey.isSome⟩ })
      else (.error .store, w) := by
  cases saved <;> simp [persist, step, h]

/-! ## What the call leaves -/

/-- A session that goes on keeps its account, and has written it down if it saved itself once. -/
theorem carryOn_spec (saves : List Bool) (w : World) (h : w.forgotten = false) :
    (carryOn saves w).account = w.account ∧ (carryOn saves w).served = w.served ∧
      (carryOn saves w).store.map (·.accountSeed) =
        if true ∈ saves then some w.account else w.store.map (·.accountSeed) := by
  induction saves generalizing w with
  | nil => simp [carryOn]
  | cons saved saves ih =>
    rw [show carryOn (saved :: saves) w = carryOn saves ((persist saved).exec w).2 from rfl,
      exec_persist saved w h]
    cases saved with
    | false => simpa using ih w h
    | true => simpa using ih { w with store := some ⟨w.account, w.archiveKey.isSome⟩ } h

@[simp] theorem exec_restoreAccount (entropy : K.Entropy) (w : World) :
    (restoreAccount K (K.phrase entropy)).exec w = (.ok (K.seed entropy), w) := by
  simp [restoreAccount, K.restore_phrase]

/-- A rotation the server did not apply changes nothing. -/
theorem rotateAccount_of_not_applied (h : script.rotate.applied = false) (w : World) :
    ∃ failure, (rotateAccount K entropy script).exec w = (.error failure, w) := by
  cases hr : script.rotate <;> simp_all [rotateAccount, request, Fate.applied]

/-- Without the answer the session goes on with a key that is not the account's any more. -/
theorem rotateAccount_of_answerLost (h : script.rotate = .answerLost) (w : World) :
    (rotateAccount K entropy script).exec w =
      (.error .network, { w with served := K.identityKey (K.seed entropy) }) := by
  simp [rotateAccount, request, Fate.applied, generate, h]

/-- Once the answer is there the session works with the new key, and a call that completes has
stored it and returns its phrase. -/
theorem rotateAccount_of_answered (entropy : K.Entropy) (h : script.rotate = .answered) {w : World}
    (kept : w.forgotten = false) :
    let out := (rotateAccount K entropy script).exec w
    out.2.forgotten = false ∧ out.2.account = K.seed entropy ∧
      out.2.served = K.identityKey (K.seed entropy) ∧
      if script.completes w.archiveKey.isSome then
        out.2.store.map (·.accountSeed) = some (K.seed entropy) ∧ out.1 = .ok (K.phrase entropy)
      else out.2.store = w.store ∧ ∃ failure, out.1 = .error failure := by
  obtain ⟨rotate, authPublicKey, register, enable, saved⟩ := script
  subst h
  cases authPublicKey with
  | false => simp [rotateAccount, request, Fate.applied, generate, step, Script.completes, kept]
  | true =>
    cases register with
    | lost | refused | answerLost =>
      simp [rotateAccount, request, Fate.applied, generate, step, Script.completes, kept]
    | answered =>
      cases hv : w.archiveKey <;> cases enable <;> cases saved <;>
        simp [rotateAccount, request, Fate.applied, generate, step, exec_persist,
          Except.map, Script.completes, kept, hv]

theorem notStranded_carryOn_iff {result : Except Failure String} {w : World}
    (kept : w.forgotten = false) (saves : List Bool) :
    NotStranded K result (carryOn saves w) ↔
      (∃ seed, (if true ∈ saves then some w.account else w.store.map (·.accountSeed)) = some seed ∧
        K.identityKey seed = w.served) ∨
      ∃ phrase seed, result = .ok phrase ∧ K.restore phrase = some seed ∧
        K.identityKey seed = w.served := by
  obtain ⟨-, served, stored⟩ := carryOn_spec saves w kept
  simp only [NotStranded, served, ← stored, Option.map_eq_some_iff]
  refine or_congr ⟨?_, ?_⟩ Iff.rfl
  · rintro ⟨stored, hs, hk⟩
    exact ⟨_, ⟨stored, hs, rfl⟩, hk⟩
  · rintro ⟨_, ⟨stored, hs, rfl⟩, hk⟩
    exact ⟨stored, hs, hk⟩

/-- Account keys a test would use: the phrase spells the seed, which is also the public key. -/
def plainAccountCrypto : AccountCrypto where
  Entropy := Bytes
  phrase seed := String.ofList (seed.map fun b => Char.ofNat b.toNat)
  seed := id
  restore phrase := some (phrase.toList.map fun c => UInt8.ofNat c.toNat)
  identityKey := id
  vaultKey := id
  attest := id
  restore_phrase seed := by
    have byte (b : UInt8) : UInt8.ofNat (Char.ofNat b.toNat).toNat = b := by
      have valid : b.toNat.isValidChar := .inl (Nat.lt_trans b.toNat_lt (by decide))
      have spelled : (Char.ofNat b.toNat).toNat = b.toNat := by
        rw [Char.ofNat, dif_pos valid]
        rfl
      rw [spelled, UInt8.ofNat_toNat]
    simp [Function.comp_def, byte]

/-- A device of an account whose key is `[1]`, with the vault enabled. -/
def oneDevice : World where
  account := [1]
  archiveKey := some [1]
  forgotten := false
  store := some ⟨[1], true⟩
  served := [1]
  attestation := some [1]

theorem oneDevice_inOrder : InOrder plainAccountCrypto oneDevice :=
  ⟨rfl, ⟨_, rfl, rfl⟩, rfl⟩

end Whispee.Session
