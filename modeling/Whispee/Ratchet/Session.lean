import Whispee.Lib.Fallible
import Whispee.Ratchet.Delivery
import Mathlib.Logic.Function.Iterate

/-!
# The opening of a session

`keys.rs`, `x3dh.rs` and `session.rs` of `crates/ratchet-lab`. The initiator computes a secret from
the bundle of the responder alone, as the server hands it out, and the responder computes it again
from what it keeps. Then the two ratchets are those of an exchange.
-/

namespace Whispee.Ratchet

open Transition

/-- What the crates compute for the opening. -/
structure SessionPrimitives extends Primitives where
  sha256 : Bytes → Bytes
  verifyingKey : Bytes → Bytes
  sign : (key message : Bytes) → Bytes
  verify : (key message signature : Bytes) → Bool

/-- A signature verifies. -/
structure SessionPrimitives.Lawful (P : SessionPrimitives) : Prop
    extends P.toPrimitives.Lawful where
  verify_sign : ∀ key message, P.verify (P.verifyingKey key) message (P.sign key message)

/-- The errors of `RatchetError` that only the opening meets. -/
inductive SessionError where
  | BadPreKeySignature
  | Malformed (reason : String)
  deriving DecidableEq

/-! ## Keys -/

/-- A user's long-term identity. -/
structure IdentityKeyPair where
  dh : Bytes
  sign : Bytes

/-- The public half of an identity, as served by the server. -/
structure IdentityPublic where
  dh : Bytes
  sign : Bytes
  deriving DecidableEq

def IdentityPublic.encode (identity : IdentityPublic) : Bytes := identity.dh ++ identity.sign

/-- What the responder leaves on the server. -/
structure PreKeyBundle where
  identity : IdentityPublic
  signedPrekey : Bytes
  signedPrekeySig : Bytes
  /-- Consumed on use. -/
  oneTimePrekey : Option Bytes

/-- What it keeps. -/
structure PreKeyStore where
  identity : IdentityKeyPair
  signedPrekey : EphemeralKeyPair
  oneTimePrekey : Option EphemeralKeyPair

def INFO_X3DH : Bytes := asBytes "ratchet-lab/x3dh/v1"

def X3DH_PREFIX : Bytes := List.replicate 32 0xFF

def FINGERPRINT_ITERATIONS : Nat := 5200

/-- What the initiator attaches to its first message. -/
structure InitialMessage where
  identity : IdentityPublic
  ephemeral : Bytes
  usedOneTimePrekey : Bool

structure X3dhOutcome where
  sharedSecret : RootKey
  associatedData : Bytes
  deriving DecidableEq

structure Session where
  ratchet : DoubleRatchet
  peer : IdentityPublic

section
variable (P : SessionPrimitives)

def IdentityKeyPair.publicHalf (identity : IdentityKeyPair) : IdentityPublic :=
  ⟨P.publicKey identity.dh, P.verifyingKey identity.sign⟩

def PreKeyBundle.verify (bundle : PreKeyBundle) : Except SessionError Unit :=
  if P.verify bundle.identity.sign bundle.signedPrekey bundle.signedPrekeySig then .ok ()
  else .error .BadPreKeySignature

/-- `PreKeyStore::generate`, from what the generator gives. -/
def PreKeyStore.generate (dh sign signedPrekey : Bytes) (oneTimePrekey : Option Bytes) :
    PreKeyStore where
  identity := ⟨dh, sign⟩
  signedPrekey := .ofSecret P.toPrimitives signedPrekey
  oneTimePrekey := oneTimePrekey.map (.ofSecret P.toPrimitives)

def PreKeyStore.bundle (store : PreKeyStore) : PreKeyBundle where
  identity := store.identity.publicHalf P
  signedPrekey := store.signedPrekey.publicKey
  signedPrekeySig := P.sign store.identity.sign store.signedPrekey.publicKey
  oneTimePrekey := store.oneTimePrekey.map (·.publicKey)

/-! ## X3DH -/

def kdfX3dh (dhs : List Bytes) : RootKey :=
  P.hkdf (List.replicate 32 0) (X3DH_PREFIX ++ dhs.flatten) INFO_X3DH 32

def associatedData (initiator responder : IdentityPublic) : Bytes :=
  initiator.encode ++ responder.encode

/-- The initiator's side, with the ephemeral secret the generator gives. -/
def X3dh.initiate (ephemeral : Bytes) (identity : IdentityKeyPair) (bundle : PreKeyBundle) :
    Except SessionError (X3dhOutcome × InitialMessage) := do
  bundle.verify P
  let dhs := [P.diffieHellman identity.dh bundle.signedPrekey,
    P.diffieHellman ephemeral bundle.identity.dh, P.diffieHellman ephemeral bundle.signedPrekey] ++
    (bundle.oneTimePrekey.map (P.diffieHellman ephemeral)).toList
  return (⟨kdfX3dh P dhs, associatedData (identity.publicHalf P) bundle.identity⟩,
    ⟨identity.publicHalf P, P.publicKey ephemeral, bundle.oneTimePrekey.isSome⟩)

/-- The responder's side: the same values in the same order, each pair taken the other way round. -/
def X3dh.respond (store : PreKeyStore) (initial : InitialMessage) :
    Except SessionError X3dhOutcome := do
  let dhs := [P.diffieHellman store.signedPrekey.secret initial.identity.dh,
    P.diffieHellman store.identity.dh initial.ephemeral,
    P.diffieHellman store.signedPrekey.secret initial.ephemeral]
  let dhs ←
    if initial.usedOneTimePrekey then
      match store.oneTimePrekey with
      | some opk => .ok (dhs ++ [P.diffieHellman opk.secret initial.ephemeral])
      | none => .error (.Malformed "one-time prekey claimed but missing")
    else .ok dhs
  return ⟨kdfX3dh P dhs, associatedData initial.identity (store.identity.publicHalf P)⟩

/-! ## Sessions -/

namespace Session

/-- The initiator opens a session, with the ephemeral secret and the first ratchet secret that the
generator gives. -/
def initiate (ephemeral ratchetSecret : Bytes) (identity : IdentityKeyPair) (bundle : PreKeyBundle) :
    Except SessionError (Session × InitialMessage) := do
  let (outcome, initial) ← X3dh.initiate P ephemeral identity bundle
  return (⟨.initInitiator P.toPrimitives ratchetSecret outcome.sharedSecret outcome.associatedData
    bundle.signedPrekey, bundle.identity⟩, initial)

def accept (store : PreKeyStore) (initial : InitialMessage) : Except SessionError Session := do
  let outcome ← X3dh.respond P store initial
  return ⟨.initResponder outcome.sharedSecret outcome.associatedData store.signedPrekey,
    initial.identity⟩

/-- The ratchets of two sessions, before any message. -/
def exchange (initiator responder : Session) : Exchange where
  party
    | .initiator => initiator.ratchet
    | .responder => responder.ratchet
  drawn := 2
  sent := []
  outcomes := []

end Session

/-- `format!("{:05}", n)`. -/
def fiveDigits (n : Nat) : String :=
  let digits := Nat.toDigits 10 n
  .ofList (List.replicate (5 - digits.length) '0' ++ digits)

/-- The digits of one identity. -/
def fingerprint (identity : IdentityPublic) : String :=
  let encoded := identity.encode
  let hash := (fun hash => P.sha256 (hash ++ encoded))^[FINGERPRINT_ITERATIONS - 1] (P.sha256 encoded)
  " ".intercalate ((List.range 6).map fun i =>
    fiveDigits (((hash.drop (5 * i)).take 5).foldl (fun acc b => 256 * acc + b.toNat) 0 % 100000))

/-- Displayable fingerprint of a pair of identities. -/
def safetyNumber (a b : IdentityPublic) : String :=
  let (first, second) := if a.encode ≤ b.encode then (a, b) else (b, a)
  fingerprint P first ++ " " ++ fingerprint P second

end

variable {P : SessionPrimitives}

/-! ## Safety numbers -/

/-- Both screens show the same. -/
theorem safetyNumber_comm (a b : IdentityPublic) : safetyNumber P a b = safetyNumber P b a := by
  simp only [safetyNumber]
  by_cases hle : a.encode ≤ b.encode <;> by_cases hge : b.encode ≤ a.encode
  · have hsame : fingerprint P a = fingerprint P b := by
      rw [fingerprint, fingerprint, List.le_antisymm hle hge]
    rw [if_pos hle, if_pos hge, hsame]
  · rw [if_pos hle, if_neg hge]
  · rw [if_neg hle, if_pos hge]
  · exact absurd ((List.le_total _ _).resolve_left hle) hge

/-! ## Agreement -/

theorem verify_eq_ok {bundle : PreKeyBundle} : bundle.verify P = .ok () ↔
    P.verify bundle.identity.sign bundle.signedPrekey bundle.signedPrekeySig := by
  unfold PreKeyBundle.verify
  split
  next h => exact ⟨fun _ => h, fun _ => rfl⟩
  next h => exact ⟨nofun, fun h' => absurd h' h⟩

section
variable (P)

/-- The values both sides compute where the responder is honest. `served` is the secret of the
one-time key that was handed out. -/
def honest (ephemeral : Bytes) (identity : IdentityKeyPair) (d k : Bytes) (served : Option Bytes) :
    List Bytes :=
  [P.diffieHellman identity.dh (P.publicKey k), P.diffieHellman ephemeral (P.publicKey d),
    P.diffieHellman ephemeral (P.publicKey k)] ++
  (served.map fun opk => P.diffieHellman ephemeral (P.publicKey opk)).toList

/-- What both sides come to where the responder is honest. -/
def agreed (ephemeral : Bytes) (identity : IdentityKeyPair) (d s k : Bytes) (served : Option Bytes) :
    X3dhOutcome :=
  ⟨kdfX3dh P (honest P ephemeral identity d k served),
    associatedData (identity.publicHalf P) (IdentityKeyPair.publicHalf P ⟨d, s⟩)⟩

end

/-- What the initiator derives, from a bundle whose signature verifies. -/
theorem initiate_eq_ok {bundle : PreKeyBundle}
    (h : X3dh.initiate P ephemeral identity bundle = .ok (outcome, initial)) :
    P.verify bundle.identity.sign bundle.signedPrekey bundle.signedPrekeySig ∧
      outcome = ⟨kdfX3dh P ([P.diffieHellman identity.dh bundle.signedPrekey,
        P.diffieHellman ephemeral bundle.identity.dh,
        P.diffieHellman ephemeral bundle.signedPrekey] ++
        (bundle.oneTimePrekey.map (P.diffieHellman ephemeral)).toList),
        associatedData (identity.publicHalf P) bundle.identity⟩ ∧
      initial = ⟨identity.publicHalf P, P.publicKey ephemeral, bundle.oneTimePrekey.isSome⟩ := by
  obtain ⟨_, hverify, h⟩ := Fallible.bind_eq_ok_iff.1 h
  obtain ⟨rfl, rfl⟩ := Prod.mk.inj (Except.ok.inj h)
  exact ⟨verify_eq_ok.1 hverify, rfl, rfl⟩

/-- An honest responder's bundle, with the one-time key the server has left to hand out. -/
theorem initiate_bundle (lawful : P.Lawful) (ephemeral : Bytes) (identity : IdentityKeyPair)
    (d s k : Bytes) (o served : Option Bytes) :
    X3dh.initiate P ephemeral identity
      { (PreKeyStore.generate P d s k o).bundle P with oneTimePrekey := served.map P.publicKey } =
        .ok (agreed P ephemeral identity d s k served,
          ⟨identity.publicHalf P, P.publicKey ephemeral, served.isSome⟩) := by
  rw [X3dh.initiate, verify_eq_ok.2 (lawful.verify_sign s _)]
  cases served <;> rfl

/-- A responder that keeps the key that was handed out. -/
theorem respond_generate (lawful : P.Lawful) (served : Option Bytes)
    (kept : ∀ opk ∈ served, o = some opk) :
    X3dh.respond P (.generate P d s k o)
      ⟨identity.publicHalf P, P.publicKey ephemeral, served.isSome⟩ =
        .ok (agreed P ephemeral identity d s k served) := by
  rw [agreed, honest, lawful.diffieHellman_comm identity.dh k, lawful.diffieHellman_comm ephemeral d,
    lawful.diffieHellman_comm ephemeral k]
  cases served with
  | none => rfl
  | some opk =>
    obtain rfl := kept opk rfl
    rw [Option.map_some, lawful.diffieHellman_comm ephemeral opk]
    rfl

theorem encode_inj {identity identity' : IdentityPublic}
    (hlength : identity.dh.length = identity'.dh.length)
    (h : identity.encode = identity'.encode) : identity = identity' := by
  obtain ⟨hdh, hsign⟩ := List.append_inj h hlength
  cases identity
  cases identity'
  exact congr (congrArg _ hdh) hsign

/-- The identity of the responder is bound to what both have come to. -/
theorem identity_of_agreed {peer : IdentityPublic}
    (hlength : (P.publicKey d).length = peer.dh.length)
    (h : agreed P ephemeral identity d s k served =
      ⟨shared, associatedData (identity.publicHalf P) peer⟩) :
    IdentityKeyPair.publicHalf P ⟨d, s⟩ = peer := by
  apply encode_inj hlength
  exact List.append_cancel_left (congrArg X3dhOutcome.associatedData h)

/-- Whatever bundle the server hands out, a responder that has signed one key comes to what the
initiator has exactly where the bundle carries its identity, and the one-time key it serves, if any,
counts as its own. -/
theorem agree_iff (lawful : P.Lawful)
    (collisionFree : ∀ ikm ikm', P.hkdf (List.replicate 32 0) ikm INFO_X3DH 32 =
      P.hkdf (List.replicate 32 0) ikm' INFO_X3DH 32 → ikm = ikm')
    {bundle : PreKeyBundle}
    (unforged : bundle.identity.sign = P.verifyingKey s →
      P.verify bundle.identity.sign bundle.signedPrekey bundle.signedPrekeySig →
        bundle.signedPrekey = P.publicKey k)
    (hlength : (P.publicKey d).length = bundle.identity.dh.length)
    (h : X3dh.initiate P ephemeral identity bundle = .ok (outcome, initial)) :
    X3dh.respond P (.generate P d s k o) initial = .ok outcome ↔
      bundle.identity = IdentityKeyPair.publicHalf P ⟨d, s⟩ ∧
        ∀ served, bundle.oneTimePrekey = some served → ∃ opk, o = some opk ∧
          P.diffieHellman ephemeral served = P.diffieHellman ephemeral (P.publicKey opk) := by
  obtain ⟨hverify, rfl, rfl⟩ := initiate_eq_ok h
  obtain ⟨⟨dh, sign⟩, signedPrekey, signature, served⟩ := bundle
  constructor
  · intro hrespond
    cases served with
    | none =>
      have hagreed := (respond_generate lawful none nofun).symm.trans hrespond
      exact ⟨(identity_of_agreed hlength (Except.ok.inj hagreed)).symm, nofun⟩
    | some served =>
      cases o with
      | none => cases hrespond
      | some opk =>
        have hagreed := Except.ok.inj
          ((respond_generate lawful (some opk) fun _ h => h).symm.trans hrespond)
        cases identity_of_agreed hlength hagreed
        obtain rfl := unforged rfl hverify
        have hikm := collisionFree _ _ (congrArg X3dhOutcome.sharedSecret hagreed)
        have hdhs := List.append_cancel_left hikm
        rw [honest, List.flatten_append, List.flatten_append] at hdhs
        have hlast := List.append_cancel_left hdhs
        exact ⟨rfl, fun _ hserved => ⟨opk, rfl, Option.some.inj hserved ▸ by simpa using hlast.symm⟩⟩
  · rintro ⟨hidentity, hserved⟩
    cases hidentity
    obtain rfl := unforged rfl hverify
    cases served with
    | none => exact respond_generate lawful none nofun
    | some served =>
      obtain ⟨opk, rfl, hopk⟩ := hserved served rfl
      refine (respond_generate lawful (some opk) fun _ h => h).trans ?_
      rw [agreed, honest, Option.map_some, ← hopk]
      rfl

/-! ## Every session delivers -/

/-- Two sessions that opened with the same outcome are the beginning of an exchange. -/
theorem exchange_eq_start (outcome : X3dhOutcome) (ratchetSecret : Bytes) (turns : List Bytes)
    (peer peer' : IdentityPublic) :
    Session.exchange
      ⟨.initInitiator P.toPrimitives ratchetSecret outcome.sharedSecret outcome.associatedData
        (P.publicKey k), peer⟩
      ⟨.initResponder outcome.sharedSecret outcome.associatedData (.ofSecret P.toPrimitives k), peer'⟩ =
    Exchange.start
      ⟨P.toPrimitives, k :: ratchetSecret :: turns, outcome.sharedSecret, outcome.associatedData⟩ := by
  rw [Session.exchange, Exchange.start]
  congr 1

/-- Whoever opens a session from the bundle of an honest responder, with or without a one-time key,
is let in; each side has the other's identity, both show one safety number, and whatever is then sent
and however it arrives, a message opens the first time it is delivered, as the guard of an exchange
has it. -/
theorem session_delivers (lawful : P.Lawful)
    (fresh : ((k :: ratchetSecret :: turns).map P.publicKey).Nodup) {served : Option Bytes}
    (kept : ∀ opk ∈ served, o = some opk) (ephemeral : Bytes) (identity : IdentityKeyPair)
    (d s : Bytes) :
    let store := PreKeyStore.generate P d s k o
    let outcome := agreed P ephemeral identity d s k served
    ∃ alice initial bob,
      Session.initiate P ephemeral ratchetSecret identity
        { store.bundle P with oneTimePrekey := served.map P.publicKey } = .ok (alice, initial) ∧
      Session.accept P store initial = .ok bob ∧
      alice.peer = store.identity.publicHalf P ∧ bob.peer = identity.publicHalf P ∧
      safetyNumber P (identity.publicHalf P) alice.peer =
        safetyNumber P (store.identity.publicHalf P) bob.peer ∧
      ∀ e, Reach (Exchange.step ⟨P.toPrimitives, k :: ratchetSecret :: turns, outcome.sharedSecret,
          outcome.associatedData⟩) (fun e a => e.guard a) (Session.exchange alice bob) e →
        e.OpensOnce := by
  intro store outcome
  let alice : Session := ⟨.initInitiator P.toPrimitives ratchetSecret outcome.sharedSecret
    outcome.associatedData (P.publicKey k), store.identity.publicHalf P⟩
  let bob : Session := ⟨.initResponder outcome.sharedSecret outcome.associatedData
    (.ofSecret P.toPrimitives k), identity.publicHalf P⟩
  refine ⟨alice, ⟨identity.publicHalf P, P.publicKey ephemeral, served.isSome⟩, bob, ?_, ?_, rfl, rfl,
    safetyNumber_comm _ _, fun e run => ?_⟩
  · rw [Session.initiate, initiate_bundle lawful]
    rfl
  · rw [Session.accept, respond_generate lawful _ kept]
    rfl
  · rw [exchange_eq_start outcome ratchetSecret turns] at run
    obtain ⟨level, length, inv⟩ := Exchange.sound_of_reach ⟨lawful.toLawful, Nat.le_add_left .., fresh⟩ run
    exact inv.opensOnce

/-! ## Sessions of small primitives -/

/-- A signature says its key and what it signs. -/
def smallSession (hkdf : (salt ikm info : Bytes) → Nat → Bytes) : SessionPrimitives where
  toPrimitives := { smallPrimitives with hkdf }
  sha256 bytes := digest bytes 32
  verifyingKey := id
  sign key message := key ++ message
  verify key message signature := signature = key ++ message

theorem smallSession_lawful (hkdf : (salt ikm info : Bytes) → Nat → Bytes) :
    (smallSession hkdf).Lawful where
  diffieHellman_comm := smallPrimitives_lawful.diffieHellman_comm
  aesDecrypt_aesEncrypt := smallPrimitives_lawful.aesDecrypt_aesEncrypt
  verify_sign _ _ := decide_eq_true rfl

def alice : IdentityKeyPair := ⟨List.replicate 32 1, List.replicate 32 2⟩

/-- What the responder keeps, with a one-time key. -/
def bobStore (P : SessionPrimitives) : PreKeyStore :=
  .generate P (List.replicate 32 5) (List.replicate 32 6) (List.replicate 32 7)
    (some (List.replicate 32 8))

/-- The server may keep the one-time key back, and is found out where it hands out another. -/
theorem agree_iff_otherKey :
    let P := smallSession fun _ ikm _ _ => ikm
    (∃ outcome initial, X3dh.initiate P (List.replicate 32 3) alice
        { (bobStore P).bundle P with oneTimePrekey := none } = .ok (outcome, initial) ∧
      X3dh.respond P (bobStore P) initial = .ok outcome) ∧
    ∀ outcome initial, X3dh.initiate P (List.replicate 32 3) alice
        { (bobStore P).bundle P with oneTimePrekey := some (List.replicate 32 9) } =
          .ok (outcome, initial) →
      X3dh.respond P (bobStore P) initial ≠ .ok outcome := by
  intro P
  have lawful : P.Lawful := smallSession_lawful _
  have collisionFree : ∀ ikm ikm' : Bytes, P.hkdf (List.replicate 32 0) ikm INFO_X3DH 32 =
      P.hkdf (List.replicate 32 0) ikm' INFO_X3DH 32 → ikm = ikm' := fun _ _ h => h
  refine ⟨?_, fun outcome initial h hrespond => ?_⟩
  · have h := initiate_bundle lawful (List.replicate 32 3) alice (List.replicate 32 5)
      (List.replicate 32 6) (List.replicate 32 7) (some (List.replicate 32 8)) none
    exact ⟨_, _, h, (agree_iff lawful collisionFree (fun _ _ => rfl) rfl h).2 ⟨rfl, nofun⟩⟩
  · obtain ⟨-, hserved⟩ :=
      (agree_iff lawful collisionFree (fun _ _ => rfl) rfl h).1 hrespond
    obtain ⟨opk, hopk, hdh⟩ := hserved _ rfl
    cases hopk
    exact absurd hdh (by decide +kernel)

/-- The exchange of the two where no one-time key is left to hand out. -/
def smallAgreed : Setup where
  primitives := (smallSession smallPrimitives.hkdf).toPrimitives
  secrets := List.replicate 32 7 :: List.replicate 32 4 ::
    (List.range 7).map fun j => List.replicate 32 (.ofNat (j + 9))
  sharedSecret := (agreed (smallSession smallPrimitives.hkdf) (List.replicate 32 3) alice
    (List.replicate 32 5) (List.replicate 32 6) (List.replicate 32 7) none).sharedSecret
  associatedData := (agreed (smallSession smallPrimitives.hkdf) (List.replicate 32 3) alice
    (List.replicate 32 5) (List.replicate 32 6) (List.replicate 32 7) none).associatedData

/-- Messages that overtake each other. -/
theorem session_delivers_overtaking :
    let P := smallSession smallPrimitives.hkdf
    ∃ session initial session' e,
      Session.initiate P (List.replicate 32 3) (List.replicate 32 4) alice
        { (bobStore P).bundle P with oneTimePrekey := none } = .ok (session, initial) ∧
      Session.accept P (bobStore P) initial = .ok session' ∧
      Reach (Exchange.step smallAgreed) (fun e a => e.guard a) (Session.exchange session session') e ∧
      e.outcomes = [(1, .ok [11]), (3, .ok [20]), (4, .ok [13]), (0, .ok [10]),
        (0, .error .MessageKeyGone), (2, .ok [12]), (1, .error .MessageKeyGone)] ∧
      e.OpensOnce := by
  intro P
  have fresh : (smallAgreed.secrets.map P.publicKey).Nodup := by decide +kernel
  have kept : ∀ opk ∈ (none : Option Bytes), some (List.replicate 32 8) = some opk := nofun
  obtain ⟨session, initial, session', initiated, accepted, -, -, -, delivers⟩ :=
    session_delivers (smallSession_lawful _) fresh kept (List.replicate 32 3) alice
      (List.replicate 32 5) (List.replicate 32 6)
  have outcomes : (run (fun e a => if e.guard a then Exchange.step smallAgreed e a else none)
      (Session.exchange session session') Exchange.overtaking).map Exchange.outcomes =
        some [(1, .ok [11]), (3, .ok [20]), (4, .ok [13]), (0, .ok [10]),
          (0, .error .MessageKeyGone), (2, .ok [12]), (1, .error .MessageKeyGone)] := by
    cases initiated
    cases accepted
    decide +kernel
  obtain ⟨e, hrun, houtcomes⟩ := Option.map_eq_some_iff.1 outcomes
  have reach := reach_of_run_guarded hrun
  exact ⟨session, initial, session', e, initiated, accepted, reach, houtcomes, delivers e reach⟩

end Whispee.Ratchet
