import Whispee.Bytes
import Whispee.Lib.Base64
import Whispee.Lib.Tasks
import Whispee.Lib.Transition

/-!
# The local lock

`Lockbox` of `apps/web/src/lib/session-lock.ts` over `apps/web/src/lib/lock.ts`, and `persist` of
`apps/web/src/lib/session.ts` as far as it reads the lock: the envelope when it is called, the cipher
once for every field it seals. Argon2id and AES-GCM are parameters, and so is the device's cipher.
-/

namespace Whispee.Session.Lock

open Transition

def IV_LEN : Nat := 12

/-- `crypto.getRandomValues` of an initialisation vector. -/
abbrev Iv := { bytes : Bytes // bytes.length = IV_LEN }

/-- The raw bytes of a fresh master key. -/
abbrev Master := { bytes : Bytes // bytes.length = 32 }

/-- What is taken from the platform: `deriveUnlockKey` and AES-GCM, which appends a tag of sixteen
bytes and gives back what was encrypted under the same key. -/
structure Primitives where
  derive : String → Bytes → Bytes
  encrypt (key iv plain : Bytes) : Bytes
  decrypt (key iv ciphertext : Bytes) : Option Bytes
  length_encrypt : (encrypt key iv plain).length = plain.length + 16
  decrypt_encrypt : decrypt key iv (encrypt key iv plain) = some plain

/-- The half of a `DeviceCipher` that protects the state at rest. -/
structure DeviceCipher where
  seal_ : Iv → Bytes → Bytes
  open_ : Bytes → Option Bytes
  open_seal : open_ (seal_ iv plain) = some plain

section
variable (P : Primitives)

def wrapState (key : Bytes) (iv : Iv) (plain : Bytes) : Bytes := iv ++ P.encrypt key iv plain

def unwrapState (key blob : Bytes) : Option Bytes :=
  if blob.length ≤ 12 then none else P.decrypt key (blob.take 12) (blob.drop 12)

theorem unwrapState_wrapState : unwrapState P key (wrapState P key iv plain) = some plain := by
  have hiv : iv.1.length = 12 := iv.2
  have hlong : ¬ (wrapState P key iv plain).length ≤ 12 := by
    rw [wrapState, List.length_append, hiv, P.length_encrypt]
    omega
  rw [unwrapState, if_neg hlong, wrapState, List.take_left' hiv, List.drop_left' hiv,
    P.decrypt_encrypt]

/-- The cipher of a key: `WebCryptoCipher` of the key in IndexedDB, `LockedCipher` of a master
key. -/
def DeviceCipher.ofKey (key : Bytes) : DeviceCipher where
  seal_ := wrapState P key
  open_ := unwrapState P key
  open_seal := unwrapState_wrapState P

/-! ## `lock.ts` -/

structure LockEnvelope where
  salt : String
  wrapped : String
  deriving DecidableEq

/-- What a derivation draws. -/
structure Draw where
  salt : Bytes
  master : Master
  iv : Iv

def sealMaster (password : String) (salt master : Bytes) (iv : Iv) : String :=
  Base64.encode (iv ++ P.encrypt (P.derive password salt) iv master)

/-- An AES key has 16, 24 or 32 bytes. -/
def importRawMaster (raw : Bytes) : Option Bytes :=
  if raw.length ∈ [16, 24, 32] then some raw else none

def createLock (password : String) (draw : Draw) : LockEnvelope × Bytes :=
  (⟨Base64.encode draw.salt, sealMaster P password draw.salt draw.master draw.iv⟩, draw.master)

def openLock (envelope : LockEnvelope) (password : String) : Option Bytes := do
  let salt ← Base64.decode envelope.salt
  let blob ← Base64.decode envelope.wrapped
  let raw ← P.decrypt (P.derive password salt) (blob.take IV_LEN) (blob.drop IV_LEN)
  importRawMaster raw

def changePassword (envelope : LockEnvelope) (before after : String) (draw : Draw) :
    Option LockEnvelope := do
  let raw ← openLock P envelope before
  return ⟨Base64.encode draw.salt, sealMaster P after draw.salt raw draw.iv⟩

theorem openLock_sealMaster : openLock P ⟨Base64.encode salt, sealMaster P password salt raw iv⟩
    password = importRawMaster raw := by
  simp only [openLock, sealMaster, Base64.decode_encode, Option.bind_eq_bind, Option.bind_some,
    List.take_left' iv.2, List.drop_left' iv.2, P.decrypt_encrypt]

/-- A fresh lock opens with its password. -/
theorem openLock_createLock (draw : Draw) :
    openLock P (createLock P password draw).1 password = some draw.master.1 := by
  have hlength : draw.master.1.length ∈ [16, 24, 32] := by
    rw [draw.master.2]
    decide
  rw [createLock, openLock_sealMaster, importRawMaster, if_pos hlength]

theorem importRawMaster_of_openLock (h : openLock P envelope password = some master) :
    importRawMaster master = some master := by
  simp only [openLock, Option.bind_eq_bind, Option.bind_eq_some_iff] at h
  obtain ⟨_, _, _, _, raw, _, hraw⟩ := h
  have himport := hraw
  unfold importRawMaster at hraw
  split at hraw
  · exact (Option.some.inj hraw) ▸ himport
  · cases hraw

/-- With the new password it opens to the same key. -/
theorem openLock_changePassword (h : changePassword P envelope before after draw = some envelope') :
    ∃ master, openLock P envelope before = some master ∧
      openLock P envelope' after = some master := by
  obtain ⟨master, hopen, henvelope⟩ := Option.bind_eq_some_iff.1 h
  obtain rfl := Option.some.inj henvelope
  refine ⟨master, hopen, ?_⟩
  rw [openLock_sealMaster]
  exact importRawMaster_of_openLock P hopen

end

/-! ## `Lockbox` -/

structure Lockbox where
  sealing : DeviceCipher
  envelope : Option LockEnvelope
  master : Option Bytes

namespace Lockbox

variable (P : Primitives) (signing : DeviceCipher) (b : Lockbox)

/-- A lockbox for a device that has never had one. -/
def none : Lockbox := ⟨signing, .none, .none⟩

/-- The lockbox of a stored envelope and the master key it opened to. -/
def opened (envelope : LockEnvelope) (master : Bytes) : Lockbox where
  sealing := .ofKey P master
  envelope := some envelope
  master := some master

end Lockbox

/-- A call that waits for its derivation, and what it read before. -/
inductive Call where
  | enabling (password : String)
  | disabling (envelope : LockEnvelope) (password : String)
  | changing (envelope : LockEnvelope) (current next : String)
  deriving DecidableEq

/-- A sealed field, and what went into it. -/
structure Sealed where
  plain : Bytes
  blob : Bytes

/-- What is written of a session, as far as it is sealed or opens what is. -/
structure Stored where
  lock : Option LockEnvelope
  accountSeed : Sealed
  state : Sealed
  history : Sealed

/-- A `persist` under way, by the await it stands at. -/
inductive Persist where
  | sealingSeed (lock : Option LockEnvelope) (accountSeed : Sealed) (mlsState : Bytes)
  | sealingState (lock : Option LockEnvelope) (accountSeed state : Sealed)
  | saving (stored : Stored)

namespace Persist

def lock : Persist → Option LockEnvelope
  | sealingSeed lock _ _ => lock
  | sealingState lock _ _ => lock
  | saving stored => stored.lock

/-- All that is sealed has been. -/
def settled : Persist → Bool
  | saving _ => true
  | _ => false

/-- What it has sealed so far. -/
def blobs : Persist → List Sealed
  | sealingSeed _ accountSeed _ => [accountSeed]
  | sealingState _ accountSeed state => [accountSeed, state]
  | saving stored => [stored.accountSeed, stored.state, stored.history]

end Persist

structure World where
  lockbox : Lockbox
  calls : List Call
  persists : List Persist
  /-- The last password that was successfully set. -/
  password : Option String
  /-- What was written, each with the password at that moment. -/
  written : List (Stored × Option String)

inductive Action where
  | enable (password : String)
  | disable (password : String)
  | changePassword (current next : String)
  /-- The derivation of a call is there; it draws what it needs. -/
  | derived (i : Nat) (draw : Draw)
  | persist (accountSeed mlsState : Bytes) (iv : Iv)
  /-- A field is sealed; the history is that of now. -/
  | resume (i : Nat) (history : Bytes) (iv : Iv)
  | saved (i : Nat)
  | lost (i : Nat)

namespace World

variable (P : Primitives) (signing : DeviceCipher) (w : World)

def sealed (plain : Bytes) (iv : Iv) : Sealed := ⟨plain, w.lockbox.sealing.seal_ iv plain⟩

/-- The rest of `enable`, `disable` and `changePassword`. -/
def settle (draw : Draw) : Call → World
  | .enabling password =>
    { w with
      lockbox := .opened P (createLock P password draw).1 (createLock P password draw).2
      password := some password }
  | .disabling envelope password =>
    if (openLock P envelope password).isSome then { w with lockbox := .none signing } else w
  | .changing envelope current next =>
    match changePassword P envelope current next draw with
    | some envelope =>
      { w with
        lockbox := { w.lockbox with envelope := some envelope }
        password := some next }
    | none => w

/-- The rest of `composeStored`, up to its next await, and of `persist`. -/
def proceed (history : Bytes) (iv : Iv) : Persist → Persist
  | .sealingSeed lock accountSeed mlsState =>
    .sealingState lock accountSeed (w.sealed mlsState iv)
  | .sealingState lock accountSeed state =>
    .saving ⟨lock, accountSeed, state, w.sealed history iv⟩
  | .saving stored => .saving stored

def step : Action → Option World
  | .enable password =>
    -- "A lock is already set."
    if w.lockbox.envelope.isSome then some w
    else some { w with calls := w.calls ++ [.enabling password] }
  | .disable password =>
    match w.lockbox.envelope with
    | some envelope => some { w with calls := w.calls ++ [.disabling envelope password] }
    | none => some w
  | .changePassword current next =>
    match w.lockbox.envelope with
    | some envelope => some { w with calls := w.calls ++ [.changing envelope current next] }
    -- "No lock to change."
    | none => some w
  | .derived i draw =>
    w.calls[i]?.map fun call => { w.settle P signing draw call with calls := w.calls.eraseIdx i }
  | .persist accountSeed mlsState iv =>
    some { w with
      persists := w.persists ++
        [.sealingSeed w.lockbox.envelope (w.sealed accountSeed iv) mlsState] }
  | .resume i history iv =>
    w.persists[i]?.map fun p => { w with persists := w.persists.set i (w.proceed history iv p) }
  | .saved i =>
    match w.persists[i]? with
    | some (.saving stored) =>
      some { w with
        persists := w.persists.eraseIdx i
        written := w.written ++ [(stored, w.password)] }
    | _ => none
  | .lost i => w.persists[i]?.map fun _ => { w with persists := w.persists.eraseIdx i }

/-- A session that was just created, or opened with its password or with the key that a system
prompt kept. -/
inductive Initial : World → Prop where
  | created : Initial ⟨.none signing, [], [], none, []⟩
  | opened {secret : String} (h : openLock P envelope secret = some master) :
    Initial ⟨.opened P envelope master, [], [], some secret, []⟩

end World

/-! ## What is to open the state -/

section
variable (P : Primitives) (signing : DeviceCipher)

/-- The cipher that a stored lock and a password give: without a lock, that of the device alone. -/
def Unlocks (lock : Option LockEnvelope) (password : Option String) (cipher : DeviceCipher) : Prop :=
  match lock with
  | none => cipher = signing
  | some envelope => ∃ secret master, password = some secret ∧
      openLock P envelope secret = some master ∧ cipher = .ofKey P master

def Sealed.OpensUnder (cipher : DeviceCipher) (s : Sealed) : Prop :=
  cipher.open_ s.blob = some s.plain

/-- All that is sealed opens under the cipher of the lock next to it. -/
def Stored.Opens (password : Option String) (stored : Stored) : Prop :=
  ∃ cipher, Unlocks P signing stored.lock password cipher ∧
    ∀ s ∈ [stored.accountSeed, stored.state, stored.history], s.OpensUnder cipher

/-- A lock is set while all that is being persisted has been sealed and goes without a lock; the
lock that is set is taken away while all that is being persisted has been sealed; and a password is
changed while the lock still is that of the key the change has opened, and no lock is being
persisted. -/
def World.guard (w : World) : Action → Bool
  | .derived i _ =>
    (w.calls[i]?).all fun
      | .enabling _ => w.persists.all fun p => p.settled && p.lock.isNone
      | .disabling envelope password =>
        (openLock P envelope password).isSome → w.lockbox.envelope.isSome →
          w.persists.all (·.settled)
      | .changing envelope current _ =>
        (openLock P envelope current).isSome →
          openLock P envelope current = w.lockbox.master ∧ w.persists.all (·.lock.isNone)
  | _ => true

/-- The envelope opens, with the password that was set, to the key the cipher is of. -/
inductive Agrees : Lockbox → Option String → Prop where
  | none : Agrees (.none signing) password
  | opened {secret : String} (h : openLock P envelope secret = some master) :
    Agrees (.opened P envelope master) (some secret)

/-- What a `persist` has sealed opens under its lock, and so will what it has still to seal. -/
def Persist.Ok (w : World) (p : Persist) : Prop :=
  ∃ cipher, Unlocks P signing p.lock w.password cipher ∧ (∀ s ∈ p.blobs, s.OpensUnder cipher) ∧
    (p.settled ∨ cipher = w.lockbox.sealing)

structure World.Inv (w : World) : Prop where
  lockbox : Agrees P signing w.lockbox w.password
  persists : ∀ p ∈ w.persists, p.Ok P signing w
  written : ∀ entry ∈ w.written, entry.1.Opens P signing entry.2

end

section
variable {P : Primitives} {signing : DeviceCipher} {b : Lockbox} {w w' : World} {a : Action}

theorem Agrees.unlocks (h : Agrees P signing b password) :
    Unlocks P signing b.envelope password b.sealing := by
  cases h with
  | none => exact rfl
  | opened h => exact ⟨_, _, rfl, h, rfl⟩

/-- Without an envelope there is nothing to take away. -/
theorem Agrees.eq_none (h : Agrees P signing b password)
    (henvelope : b.envelope = Option.none) : b = .none signing := by
  cases h with
  | none => rfl
  | opened h => cases henvelope

theorem Agrees.rekey {secret : String} (h : Agrees P signing b password)
    (hmaster : b.master = some master) (hopen : openLock P envelope secret = some master) :
    Agrees P signing { b with envelope := some envelope } (some secret) := by
  cases h with
  | none => cases hmaster
  | opened h =>
    obtain rfl := Option.some.inj hmaster
    exact .opened hopen

/-- Without a lock it is the device's cipher, whatever the password. -/
theorem Persist.Ok.mono {p : Persist} (h : p.Ok P signing w)
    (hlock : p.lock = none ∨ w'.password = w.password)
    (hsealing : p.settled ∨ w'.lockbox.sealing = w.lockbox.sealing) : p.Ok P signing w' := by
  obtain ⟨cipher, hunlocks, hblobs, hcipher⟩ := h
  refine ⟨cipher, ?_, hblobs, ?_⟩
  · rcases hlock with hlock | hpassword
    · rw [hlock] at hunlocks ⊢
      exact hunlocks
    · rw [hpassword]
      exact hunlocks
  · rcases hsealing with hsettled | hsame
    · exact .inl hsettled
    · rw [hsame]
      exact hcipher

namespace World

theorem sealed_opens (plain : Bytes) (iv : Iv) :
    (w.sealed plain iv).OpensUnder w.lockbox.sealing := w.lockbox.sealing.open_seal

/-- A call takes effect. -/
theorem Inv.settle (h : w.Inv P signing) (at_ : w.calls[i]? = some call)
    (hguard : w.guard P (.derived i draw)) : (w.settle P signing draw call).Inv P signing := by
  unfold guard at hguard
  dsimp only at hguard
  rw [at_, Option.all_some] at hguard
  cases call with
  | enabling password =>
    refine ⟨.opened (openLock_createLock P draw), fun p hp => ?_, h.written⟩
    have hp' := List.all_eq_true.1 hguard p hp
    rw [Bool.and_eq_true, Option.isNone_iff_eq_none] at hp'
    exact (h.persists p hp).mono (.inl hp'.2) (.inl hp'.1)
  | disabling envelope password =>
    dsimp only at hguard
    unfold World.settle
    dsimp only
    split
    next hopen =>
      refine ⟨.none, fun p hp => ?_, h.written⟩
      refine (h.persists p hp).mono (.inr rfl) ?_
      cases henvelope : w.lockbox.envelope with
      | none => exact .inr (congrArg Lockbox.sealing (h.lockbox.eq_none henvelope).symm)
      | some current =>
        rw [henvelope] at hguard
        exact .inl (List.all_eq_true.1 (of_decide_eq_true hguard hopen rfl) p hp)
    next => exact h
  | changing envelope current after =>
    dsimp only at hguard
    unfold World.settle
    dsimp only
    split
    next envelope' hchange =>
      obtain ⟨master, hopen, hnext⟩ := openLock_changePassword P hchange
      rw [hopen] at hguard
      obtain ⟨hmaster, hpersists⟩ := of_decide_eq_true hguard rfl
      refine ⟨h.lockbox.rekey hmaster.symm hnext, fun p hp => ?_, h.written⟩
      have hlock := Option.isNone_iff_eq_none.1 (List.all_eq_true.1 hpersists p hp)
      exact (h.persists p hp).mono (.inl hlock) (.inr rfl)
    next => exact h

/-- A `persist` goes on while the cipher is that of the lock it has read. -/
theorem Inv.proceed {i : Nat} {p : Persist} (h : w.Inv P signing)
    (at_ : w.persists[i]? = some p) (history : Bytes) (iv : Iv) : (w.proceed history iv p).Ok P signing w := by
  obtain ⟨cipher, hunlocks, hblobs, hcipher⟩ := h.persists p (List.mem_of_getElem? at_)
  cases p with
  | sealingSeed lock accountSeed mlsState =>
    obtain rfl := hcipher.resolve_left nofun
    refine ⟨_, hunlocks, ?_, .inr rfl⟩
    exact Tasks.forall_mem_concat hblobs (sealed_opens _ _)
  | sealingState lock accountSeed state =>
    obtain rfl := hcipher.resolve_left nofun
    refine ⟨_, hunlocks, ?_, .inl rfl⟩
    exact Tasks.forall_mem_concat hblobs (sealed_opens _ _)
  | saving stored => exact ⟨cipher, hunlocks, hblobs, hcipher⟩

theorem Inv.step (h : w.Inv P signing) (hguard : w.guard P a)
    (hs : w.step P signing a = some w') : w'.Inv P signing := by
  cases a with
  | enable password =>
    unfold World.step at hs
    dsimp only at hs
    split at hs <;> cases hs <;> exact ⟨h.lockbox, h.persists, h.written⟩
  | disable | changePassword =>
    unfold World.step at hs
    dsimp only at hs
    split at hs <;> cases hs <;> exact ⟨h.lockbox, h.persists, h.written⟩
  | derived i draw =>
    obtain ⟨call, at_, rfl⟩ := Option.map_eq_some_iff.1 hs
    have hsettle := h.settle at_ hguard
    exact ⟨hsettle.lockbox, hsettle.persists, hsettle.written⟩
  | persist accountSeed mlsState iv =>
    cases hs
    refine ⟨h.lockbox, Tasks.forall_mem_concat h.persists ?_, h.written⟩
    refine ⟨_, h.lockbox.unlocks, ?_, .inr rfl⟩
    exact List.forall_mem_singleton.2 (sealed_opens _ _)
  | resume i history iv =>
    obtain ⟨p, at_, rfl⟩ := Option.map_eq_some_iff.1 hs
    exact ⟨h.lockbox, Tasks.forall_mem_set h.persists (h.proceed at_ history iv), h.written⟩
  | saved i =>
    unfold World.step at hs
    dsimp only at hs
    split at hs
    next stored at_ =>
      cases hs
      obtain ⟨cipher, hunlocks, hblobs, _⟩ := h.persists _ (List.mem_of_getElem? at_)
      refine ⟨h.lockbox, fun p hp => h.persists p (List.mem_of_mem_eraseIdx hp), ?_⟩
      exact Tasks.forall_mem_concat h.written ⟨cipher, hunlocks, hblobs⟩
    next => cases hs
  | lost i =>
    obtain ⟨p, at_, rfl⟩ := Option.map_eq_some_iff.1 hs
    exact ⟨h.lockbox, fun p hp => h.persists p (List.mem_of_mem_eraseIdx hp), h.written⟩

theorem Initial.inv (h : w.Initial P signing) : w.Inv P signing := by
  cases h with
  | created => exact ⟨.none, nofun, nofun⟩
  | opened h => exact ⟨.opened h, nofun, nofun⟩

/-- In every run whose locks change only between persists, all that was ever written opens. -/
theorem opens_of_guarded {s t : World} (start : s.Initial P signing)
    (h : Reach (World.step P signing) (fun w a => w.guard P a) s t) :
    ∀ entry ∈ t.written, entry.1.Opens P signing entry.2 :=
  (h.invariant start.inv fun inv hg hs => inv.step hg hs : World.Inv P signing t).written

end World

end

/-! ## Runs -/

/-- Encryption that appends the beginning of the key. -/
def marking : Primitives where
  derive password salt := password.toList.map (UInt8.ofNat ·.toNat) ++ salt
  encrypt key _ plain := plain ++ (key ++ List.replicate 16 0).take 16
  decrypt key _ ciphertext :=
    if ciphertext.drop (ciphertext.length - 16) = (key ++ List.replicate 16 0).take 16 then
      some (ciphertext.take (ciphertext.length - 16))
    else none
  length_encrypt := by simp
  decrypt_encrypt := by simp

def device : DeviceCipher := .ofKey marking [1]

def draw (n : UInt8) : Draw where
  salt := [n]
  master := ⟨.replicate 32 n, List.length_replicate⟩
  iv := ⟨.replicate 12 n, List.length_replicate⟩

def iv : Iv := ⟨.replicate 12 0, rfl⟩

/-- A `persist` from its call to its last seal. -/
def persisted : List Action := [.persist [1] [2] iv, .resume 0 [3] iv, .resume 0 [3] iv]

/-- A lock is set while the state waits to be written, its password changed, and it is removed. -/
def lockLifetime : List Action :=
  persisted ++ [.enable "right", .derived 0 (draw 7), .saved 0] ++ persisted ++
    [.saved 0, .changePassword "right" "next", .derived 0 (draw 8)] ++ persisted ++
    [.disable "next", .derived 0 (draw 9), .saved 0]

theorem opens_of_guarded_lockLifetime : ∃ s t : World, s.Initial marking device ∧
    Reach (World.step marking device) (fun w a => w.guard marking a) s t ∧
    t.written.map (fun entry => (entry.1.lock.isSome, entry.2)) =
      [(false, some "right"), (true, some "right"), (true, some "next")] ∧
    ∀ entry ∈ t.written, entry.1.Opens marking device entry.2 := by
  have start : World.Initial marking device ⟨.none device, [], [], none, []⟩ := .created
  have evaluated : ((run (fun w a =>
      if World.guard marking w a then w.step marking device a else none)
      ⟨.none device, [], [], none, []⟩ lockLifetime).map fun t =>
        t.written.map fun entry => (entry.1.lock.isSome, entry.2)) =
      some [(false, some "right"), (true, some "right"), (true, some "next")] := by
    decide +kernel
  obtain ⟨t, hrun, hwritten⟩ := Option.map_eq_some_iff.1 evaluated
  have reach := reach_of_run_guarded hrun
  exact ⟨_, t, start, reach, hwritten, World.opens_of_guarded start reach⟩

/-- The lock is set between two seals of a `persist`. -/
def lockWhileSealing : List Action :=
  [.persist [1] [2] iv, .enable "right", .derived 0 (draw 7), .resume 0 [3] iv, .resume 0 [3] iv,
    .saved 0]

/-- The record has no envelope, and a state under the key of one. -/
theorem lock_while_sealing_locks_out : ∃ s t : World, s.Initial marking device ∧
    run (World.step marking device) s lockWhileSealing = some t ∧
    ¬ ∀ entry ∈ t.written, entry.1.Opens marking device entry.2 := by
  have start : World.Initial marking device ⟨.none device, [], [], none, []⟩ := .created
  have evaluated : ((run (World.step marking device) ⟨.none device, [], [], none, []⟩
      lockWhileSealing).map fun t => t.written.map fun entry =>
        (entry.1.lock, device.open_ entry.1.state.blob, entry.1.state.plain)) =
      some [(none, none, [2])] := by
    decide +kernel
  obtain ⟨t, hrun, hwritten⟩ := Option.map_eq_some_iff.1 evaluated
  refine ⟨_, t, start, hrun, fun h => ?_⟩
  obtain ⟨entry, hentry, hfields⟩ := List.mem_map.1 (hwritten ▸ List.mem_singleton_self _)
  have hlock : entry.1.lock = none := congrArg (·.1) hfields
  have hopen : device.open_ entry.1.state.blob = none := congrArg (·.2.1) hfields
  obtain ⟨cipher, hunlocks, hblobs⟩ := h entry hentry
  rw [hlock] at hunlocks
  obtain rfl : cipher = device := hunlocks
  have hstate : device.open_ entry.1.state.blob = some entry.1.state.plain :=
    hblobs entry.1.state (by simp)
  rw [hopen] at hstate
  cases hstate

end Whispee.Session.Lock
