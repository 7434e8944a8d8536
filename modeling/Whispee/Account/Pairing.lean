import Whispee.Ratchet.DoubleRatchet
import Whispee.Server.Pairings
import Whispee.Session.Naming
import Mathlib.Data.Nat.Digits.Defs

/-!
# Pairing a device

`PairingOffer`, `seal` and `derive` of `crates/crypto-core/src/pairing.rs`, the pairing code of
`apps/web/src/lib/pairing.ts`, and `pairDevice` of `session.ts`, over the primitives of the ratchet.
What comes from the generator is an argument. The new device shows its code, the old one seals its
packet for it, and the server relays it (`Server.Pairings`).
-/

namespace Whispee.Account.Pairing

open Server.Pairings (PAIRING_ID_LEN)

def NONCE_LEN : Nat := 12

def INFO_SEAL : Bytes := asBytes "wac-pairing-seal-v1"

def INFO_CONFIRM : Bytes := asBytes "wac-pairing-confirm-v1"

/-- `CryptoError::Malformed`. -/
inductive CryptoError where
  | malformed (reason : String)
  deriving DecidableEq

/-- `format!("{code:06}")`. -/
def sixDigits (code : Nat) : String :=
  let digits := Nat.toDigits 10 code
  .ofList (List.replicate (6 - digits.length) '0' ++ digits)

/-! ## The packet -/

section
variable (P : Ratchet.Primitives)

/-- Derives the sealing key and the confirmation code. -/
def derive (shared sender receiver pairingId : Bytes) : Bytes × String :=
  let transcript := sender ++ receiver ++ pairingId
  let key := P.hkdf transcript shared INFO_SEAL 32
  let digest := P.hkdf transcript shared INFO_CONFIRM 4
  (key, sixDigits (fromBeBytes digest % 1000000))

/-- What the new device publishes, and the secret behind it. -/
structure PairingOffer where
  secret : Bytes
  publicKey : Bytes
  id : Bytes

/-- `PairingOffer::generate`, from what the generator gives. -/
def PairingOffer.generate (secret id : Bytes) : PairingOffer := ⟨secret, P.publicKey secret, id⟩

structure Opened where
  plaintext : Bytes
  confirmation : String
  deriving DecidableEq

/-- Opens the packet dropped by the originating device. -/
def PairingOffer.open (offer : PairingOffer) (sealed : Bytes) : Except CryptoError Opened :=
  if sealed.length < 32 + NONCE_LEN then .error (.malformed "truncated pairing packet")
  else
    let peer := sealed.take 32
    let shared := P.diffieHellman offer.secret peer
    let (key, confirmation) := derive P shared peer offer.publicKey offer.id
    let nonce := (sealed.drop 32).take NONCE_LEN
    match P.aesDecrypt key nonce (sealed.drop (32 + NONCE_LEN)) offer.id with
    | some plaintext => .ok ⟨plaintext, confirmation⟩
    | none => .error (.malformed "unreadable or tampered pairing packet")

/-- `seal`: a packet for the new device, with a secret and a nonce of its own. -/
def sealPairing (ours nonce offerPublic offerId plaintext : Bytes) : Except CryptoError (Bytes × String) :=
  if offerPublic.length ≠ 32 then .error (.malformed "pairing key of invalid size")
  else
    let shared := P.diffieHellman ours offerPublic
    let (key, confirmation) := derive P shared (P.publicKey ours) offerPublic offerId
    match P.aesEncrypt key nonce plaintext offerId with
    | some ciphertext => .ok (P.publicKey ours ++ nonce ++ ciphertext, confirmation)
    | none => .error (.malformed "pairing encryption failed")

end

/-! ## The code -/

/-- What the QR code encodes. -/
structure PairingCode where
  id : Bytes
  publicKey : Bytes
  deriving DecidableEq

inductive CodeError where
  /-- `atob` throws. -/
  | notBase64
  | incomplete
  deriving DecidableEq

/-- The sign that stands for one of base64 in a code, and back. -/
def urlSafe (c : Char) : Char := if c = '+' then '-' else if c = '/' then '_' else c

def urlUnsafe (c : Char) : Char := if c = '-' then '+' else if c = '_' then '/' else c

def encodePairingCode (code : PairingCode) : String :=
  let signs := (Base64.encode (code.id ++ code.publicKey)).toList.map urlSafe
  .ofList (signs.reverse.dropWhile (· = '=')).reverse

def decodePairingCode (text : String) : Except CodeError PairingCode :=
  let normalized := (Session.Naming.trim text).toList.map urlUnsafe
  let missing := (normalized.length + 3) / 4 * 4 - normalized.length
  match Base64.decode (.ofList (normalized ++ List.replicate missing '=')) with
  | none => .error .notBase64
  | some bytes =>
    if bytes.length ≠ 48 then .error .incomplete else .ok ⟨bytes.take 16, bytes.drop 16⟩

/-- The code of an offer, as the new device shows it. -/
def PairingOffer.code (offer : PairingOffer) : String :=
  encodePairingCode ⟨offer.id, offer.publicKey⟩

inductive PairError where
  | code (error : CodeError)
  | crypto (error : CryptoError)
  deriving DecidableEq

/-- What `pairDevice` deposits, under which id, and the confirmation code it returns. -/
structure Paired where
  id : Bytes
  payload : Bytes
  confirmation : String

/-- `pairDevice`, up to the deposit: `seed` is the account's, the rest comes from the generator. -/
def pairDevice (P : Ratchet.Primitives) (ours nonce seed : Bytes) (code : String) :
    Except PairError Paired :=
  match decodePairingCode code with
  | .error error => .error (.code error)
  | .ok offer =>
    match sealPairing P ours nonce offer.publicKey offer.id seed with
    | .error error => .error (.crypto error)
    | .ok (payload, confirmation) => .ok ⟨offer.id, payload, confirmation⟩

/-! ## The code and back -/

theorem urlUnsafe_urlSafe : ∀ n < 64, urlUnsafe (urlSafe (Base64.signOf n)) = Base64.signOf n ∧
    urlSafe (Base64.signOf n) ≠ '=' ∧ Session.Naming.isSpace (urlSafe (Base64.signOf n)) = false := by
  decide

theorem length_sextets (bytes : Bytes) (h : bytes.length % 3 = 0) :
    3 * (Base64.sextets bytes).length = 4 * bytes.length := by
  fun_induction Base64.sextets bytes with
  | case1 => rfl
  | case2 => cases h
  | case3 => cases h
  | case4 a b c bytes ih =>
    simp only [List.length_cons] at h ⊢
    have := ih (by omega)
    omega

theorem dropWhile_eq_self {p : α → Bool} {l : List α} (h : ∀ a ∈ l, p a = false) : l.dropWhile p = l := by
  cases l with
  | nil => rfl
  | cons a l => rw [List.dropWhile_cons_of_neg (by simp [h a])]

/-- Blanks around a text of none are taken off. -/
theorem trim_blanks {before signs after : List Char} (hb : ∀ c ∈ before, Session.Naming.isSpace c)
    (ha : ∀ c ∈ after, Session.Naming.isSpace c) (hs : ∀ c ∈ signs, Session.Naming.isSpace c = false)
    (hne : signs ≠ []) :
    Session.Naming.trim (.ofList (before ++ signs ++ after)) = .ofList signs := by
  have front : (signs ++ after).dropWhile Session.Naming.isSpace = signs ++ after := by
    cases signs with
    | nil => cases hne rfl
    | cons c signs =>
      rw [List.cons_append, List.dropWhile_cons_of_neg (by simp [hs c])]
  have back : (after.reverse ++ signs.reverse).dropWhile Session.Naming.isSpace = signs.reverse := by
    rw [List.dropWhile_append_of_pos fun c hc => ha c (List.mem_reverse.1 hc)]
    exact dropWhile_eq_self fun c hc => hs c (List.mem_reverse.1 hc)
  rw [Session.Naming.trim, String.toList_ofList, List.append_assoc,
    List.dropWhile_append_of_pos hb, front, List.reverse_append, back, List.reverse_reverse]

/-- A code is read as it was shown, copied with blanks around it or not. -/
theorem decode_encodePairingCode (code : PairingCode) (hid : code.id.length = PAIRING_ID_LEN)
    (hkey : code.publicKey.length = 32) {before after : List Char}
    (hb : ∀ c ∈ before, Session.Naming.isSpace c) (ha : ∀ c ∈ after, Session.Naming.isSpace c) :
    decodePairingCode (.ofList before ++ encodePairingCode code ++ .ofList after) = .ok code := by
  have hlength : (code.id ++ code.publicKey).length = 48 := by
    rw [List.length_append, hid, hkey]
    rfl
  have hcount := length_sextets (code.id ++ code.publicKey) (by rw [hlength])
  rw [hlength] at hcount
  have hsigns : ∀ n ∈ Base64.sextets (code.id ++ code.publicKey), n < 64 := Base64.sextets_lt _
  have hencode : (Base64.encode (code.id ++ code.publicKey)).toList =
      (Base64.sextets (code.id ++ code.publicKey)).map Base64.signOf := by
    rw [Base64.encode, String.toList_ofList, hlength]
    exact List.append_nil _
  have hshown : (encodePairingCode code).toList =
      (Base64.sextets (code.id ++ code.publicKey)).map (urlSafe ∘ Base64.signOf) := by
    rw [encodePairingCode, hencode, String.toList_ofList, List.map_map, dropWhile_eq_self,
      List.reverse_reverse]
    intro c hc
    obtain ⟨n, hn, rfl⟩ := List.mem_map.1 (List.mem_reverse.1 hc)
    exact decide_eq_false (urlUnsafe_urlSafe n (hsigns n hn)).2.1
  have htrim : Session.Naming.trim (.ofList before ++ encodePairingCode code ++ .ofList after) =
      encodePairingCode code := by
    rw [← String.ofList_toList (s := encodePairingCode code), ← String.ofList_append,
      ← String.ofList_append]
    refine trim_blanks hb ha (fun c hc => ?_) fun hnil => ?_
    · rw [hshown] at hc
      obtain ⟨n, hn, rfl⟩ := List.mem_map.1 hc
      exact (urlUnsafe_urlSafe n (hsigns n hn)).2.2
    · rw [hshown, List.map_eq_nil_iff] at hnil
      rw [hnil] at hcount
      cases hcount
  have hback : (encodePairingCode code).toList.map urlUnsafe =
      (Base64.encode (code.id ++ code.publicKey)).toList := by
    rw [hshown, hencode, List.map_map]
    exact List.map_congr_left fun n hn => (urlUnsafe_urlSafe n (hsigns n hn)).1
  have hmissing : ((Base64.encode (code.id ++ code.publicKey)).toList.length + 3) / 4 * 4 -
      (Base64.encode (code.id ++ code.publicKey)).toList.length = 0 := by
    rw [hencode, List.length_map]
    omega
  simp only [decodePairingCode, htrim, hback, hmissing, List.replicate_zero, List.append_nil,
    String.ofList_toList, Base64.decode_encode, hlength]
  rw [if_neg (by decide), show 16 = code.id.length from hid.symm, List.take_left, List.drop_left]

/-! ## The packet and back -/

/-- What a pairing relies on besides the laws of the ratchet: keys of 32 bytes, and a cipher that
opens nothing but what it seals. -/
structure Sound (P : Ratchet.Primitives) : Prop extends P.Lawful where
  length_publicKey : ∀ secret, (P.publicKey secret).length = 32
  aesEncrypt_of_aesDecrypt : ∀ {key nonce msg aad ciphertext : Bytes},
    P.aesDecrypt key nonce ciphertext aad = some msg →
      P.aesEncrypt key nonce msg aad = some ciphertext

/-- The packet is this plaintext, sealed for the offer under its sender's key. -/
def PairingOffer.Holds (P : Ratchet.Primitives) (offer : PairingOffer) (sealed : Bytes)
    (opened : Opened) : Prop :=
  ∃ sender nonce ciphertext : Bytes, sealed = sender ++ nonce ++ ciphertext ∧
    sender.length = 32 ∧ nonce.length = NONCE_LEN ∧
    P.aesEncrypt (derive P (P.diffieHellman offer.secret sender) sender offer.publicKey offer.id).1
      nonce opened.plaintext offer.id = some ciphertext ∧
    opened.confirmation =
      (derive P (P.diffieHellman offer.secret sender) sender offer.publicKey offer.id).2

section
variable {P : Ratchet.Primitives} {offer : PairingOffer}

theorem open_eq_ok_iff (sound : Sound P) :
    offer.open P sealed = .ok opened ↔ offer.Holds P sealed opened := by
  constructor
  · intro h
    simp only [PairingOffer.open] at h
    split at h
    next => cases h
    next hlong =>
      split at h
      next plaintext hdecrypt =>
        cases h
        rw [NONCE_LEN] at hlong
        refine ⟨sealed.take 32, (sealed.drop 32).take NONCE_LEN, sealed.drop (32 + NONCE_LEN), ?_, ?_,
          ?_, sound.aesEncrypt_of_aesDecrypt hdecrypt, rfl⟩
        · rw [List.append_assoc, ← List.drop_drop, List.take_append_drop, List.take_append_drop]
        · rw [List.length_take]
          omega
        · rw [List.length_take, List.length_drop, NONCE_LEN]
          omega
      next => cases h
  · rintro ⟨sender, nonce, ciphertext, rfl, hsender, hnonce, hencrypt, hconfirmation⟩
    have htake : (sender ++ nonce ++ ciphertext).take 32 = sender := by
      rw [List.append_assoc, ← hsender, List.take_left]
    have hdrop : (sender ++ nonce ++ ciphertext).drop 32 = nonce ++ ciphertext := by
      rw [List.append_assoc, ← hsender, List.drop_left]
    have hlong : ¬ (sender ++ nonce ++ ciphertext).length < 32 + NONCE_LEN := by
      simp only [List.length_append, hsender, hnonce]
      omega
    simp only [PairingOffer.open, if_neg hlong, ← List.drop_drop, htake, hdrop]
    rw [← hnonce, List.take_left, List.drop_left, sound.aesDecrypt_aesEncrypt hencrypt]
    exact congrArg Except.ok (congrArg (Opened.mk _) hconfirmation.symm)

/-- What is sealed for an offer, the offer holds, and both sides show one confirmation. -/
theorem holds_of_sealPairing (sound : Sound P) (hnonce : nonce.length = NONCE_LEN)
    (h : sealPairing P ours nonce (P.publicKey secret) pairingId plaintext =
      .ok (payload, confirmation)) :
    (PairingOffer.generate P secret pairingId).Holds P payload ⟨plaintext, confirmation⟩ := by
  simp only [sealPairing] at h
  split at h
  next => cases h
  next =>
    split at h
    next ciphertext hencrypt =>
      cases h
      refine ⟨P.publicKey ours, nonce, ciphertext, rfl, sound.length_publicKey ours, hnonce, ?_, ?_⟩
      · rw [PairingOffer.generate, sound.diffieHellman_comm]
        exact hencrypt
      · rw [PairingOffer.generate, sound.diffieHellman_comm]
    next => cases h

end

theorem isDigit_sixDigits (code : Nat) : ∀ c ∈ (sixDigits code).toList, c.isDigit := by
  intro c hc
  rw [sixDigits, String.toList_ofList, List.mem_append] at hc
  rcases hc with hc | hc
  · rw [List.eq_of_mem_replicate hc]
    rfl
  · exact Nat.isDigit_of_mem_toDigits (by decide) (by decide) hc

theorem length_sixDigits (h : code < 1000000) : (sixDigits code).length = 6 := by
  have hlength := Nat.toDigits_length 10 code 6 (by decide) h
  rw [sixDigits, String.length_ofList, List.length_append, List.length_replicate]
  omega

theorem pairDevice_eq_ok {P : Ratchet.Primitives} (hcode : decodePairingCode text = .ok code)
    (h : pairDevice P ours nonce seed text = .ok packet) :
    ∃ payload confirmation, packet = ⟨code.id, payload, confirmation⟩ ∧
      sealPairing P ours nonce code.publicKey code.id seed = .ok (payload, confirmation) := by
  unfold pairDevice at h
  rw [hcode] at h
  cases hseal : sealPairing P ours nonce code.publicKey code.id seed with
  | error error =>
    simp only [hseal] at h
    cases h
  | ok result =>
    simp only [hseal] at h
    exact ⟨result.1, result.2, (Except.ok.inj h).symm, rfl⟩

/-- A confirmation is of six digits. -/
theorem derive_confirmation (P : Ratchet.Primitives) (shared sender receiver pairingId : Bytes) :
    (derive P shared sender receiver pairingId).2.length = 6 ∧
      ∀ c ∈ (derive P shared sender receiver pairingId).2.toList, c.isDigit := by
  dsimp only [derive]
  exact ⟨length_sixDigits (Nat.mod_lt _ (by decide)), isDigit_sixDigits _⟩

/-! ## The exchange -/

/-- An offer opens the packets sealed for it and no others; and the packet that a device makes of the
code of an offer, once the server has handed it out, opens to what was sealed, under a confirmation
of six digits that both devices show. -/
theorem pairing_exchange {P : Ratchet.Primitives} (sound : Sound P) {secret pairingId : Bytes}
    (hid : pairingId.length = PAIRING_ID_LEN) :
    (∀ sealed opened, (PairingOffer.generate P secret pairingId).open P sealed = .ok opened ↔
      (PairingOffer.generate P secret pairingId).Holds P sealed opened) ∧
    ∀ (ours nonce seed : Bytes) (before after : List Char) (packet : Paired),
      nonce.length = NONCE_LEN → (∀ c ∈ before, Session.Naming.isSpace c) →
      (∀ c ∈ after, Session.Naming.isSpace c) →
      pairDevice P ours nonce seed (.ofList before ++
        (PairingOffer.generate P secret pairingId).code ++ .ofList after) = .ok packet →
      packet.id = pairingId ∧ packet.confirmation.length = 6 ∧
      (∀ c ∈ packet.confirmation.toList, c.isDigit) ∧
      ∀ s, Transition.Reach Server.Pairings.State.step (fun _ _ => True) Server.Pairings.empty s →
        ∀ d ∈ s.deposits, d.row.id = packet.id → d.row.payload = packet.payload →
        ∀ h ∈ s.handed, h.number = d.row.number →
          (PairingOffer.generate P secret pairingId).open P h.payload =
            .ok ⟨seed, packet.confirmation⟩ := by
  refine ⟨fun sealed opened => open_eq_ok_iff sound, ?_⟩
  intro ours nonce seed before after packet hnonce hb ha hpaired
  have hcode := decode_encodePairingCode ⟨pairingId, P.publicKey secret⟩ hid
    (sound.length_publicKey secret) hb ha
  obtain ⟨payload, confirmation, rfl, hseal⟩ := pairDevice_eq_ok hcode hpaired
  have holds := holds_of_sealPairing sound hnonce hseal
  have hconfirmation : confirmation.length = 6 ∧ ∀ c ∈ confirmation.toList, c.isDigit := by
    obtain ⟨_, _, _, _, _, _, _, h⟩ := holds
    rw [show confirmation = _ from h]
    exact derive_confirmation P _ _ _ _
  refine ⟨rfl, hconfirmation.1, hconfirmation.2, ?_⟩
  intro s reach d hd _ hpayload h hh hnumber
  have kept : Server.Pairings.Kept s := reach.invariant Server.Pairings.empty_kept
    fun h _ hstep => h.step hstep
  obtain ⟨d', hd', hnumber', hpayload', _⟩ := kept.proper h hh
  cases kept.eq_of_number hd' hd (hnumber'.trans hnumber)
  rw [← hpayload', hpayload]
  exact (open_eq_ok_iff sound).2 holds

/-- The small primitives, with keys of 32 bytes. -/
def smallKeys : Ratchet.Primitives :=
  let publicKey (secret : Bytes) : Bytes := (secret ++ List.replicate 32 0).take 32
  { Ratchet.smallPrimitives with
    publicKey
    diffieHellman := fun secret peer => List.zipWith (· + ·) (publicKey secret) peer }

theorem smallKeys_sound : Sound smallKeys where
  diffieHellman_comm a b := by
    show List.zipWith _ _ _ = List.zipWith _ _ _
    rw [List.zipWith_comm]
    simp only [UInt8.add_comm]
    rfl
  aesDecrypt_aesEncrypt := Ratchet.smallPrimitives_lawful.aesDecrypt_aesEncrypt
  length_publicKey secret := by simp [smallKeys]
  aesEncrypt_of_aesDecrypt {key nonce msg aad ciphertext} h := by
    simp only [smallKeys, Ratchet.smallPrimitives, Option.ite_none_right_eq_some] at h ⊢
    obtain ⟨hciphertext, hmsg⟩ := h
    obtain rfl := Option.some.inj hmsg
    exact congrArg some hciphertext.symm

/-- An offer, and what a device makes of its code. -/
def anOffer : PairingOffer := .generate smallKeys (List.replicate 32 7) (List.replicate 16 9)

def aPacket : Except PairError Paired :=
  pairDevice smallKeys [1, 2] (List.replicate 12 3) [4, 5]
    (.ofList [' '] ++ anOffer.code ++ .ofList ['\n'])

/-- The packet it makes. -/
def sealedSeed : Bytes :=
  [1, 2] ++ List.replicate 30 0 ++ List.replicate 12 3 ++ [4, 5] ++
    [43, 89, 134, 180, 226, 16, 62, 108, 154, 201, 247, 38, 85, 132, 179, 226]

/-- It is deposited, and claimed. -/
def relaying : List Server.Pairings.Action :=
  [.deposit (toHex anOffer.id) (some (Base64.encode sealedSeed)), .effect 0,
    .claim (toHex anOffer.id), .effect 1]

theorem pairing_exchange_anOffer : ∃ s h,
    Transition.run Server.Pairings.State.step Server.Pairings.empty relaying = some s ∧
    s.handed = [h] ∧ anOffer.open smallKeys h.payload = .ok ⟨[4, 5], "636606"⟩ := by
  have paired : aPacket.toOption.map (fun p => (p.id, p.payload, p.confirmation)) =
      some (anOffer.id, sealedSeed, "636606") := by decide +kernel
  have relayed : (Transition.run Server.Pairings.State.step Server.Pairings.empty relaying).map
      (fun s => (s.handed, s.deposits)) = some ([⟨1, 0, sealedSeed, 0⟩],
        [⟨⟨0, anOffer.id, sealedSeed, 300000000, none⟩, 0, 0⟩]) := by decide +kernel
  obtain ⟨s, hrun, hs⟩ := Option.map_eq_some_iff.1 relayed
  obtain ⟨hhanded, hdeposits⟩ := Prod.mk.inj hs
  have hpacket : aPacket = .ok ⟨anOffer.id, sealedSeed, "636606"⟩ := by
    cases h : aPacket with
    | error => rw [h] at paired; cases paired
    | ok packet =>
      rw [h] at paired
      obtain ⟨id, payload, confirmation⟩ := packet
      cases Option.some.inj paired
      rfl
  obtain ⟨_, _, _, h⟩ := (@pairing_exchange smallKeys smallKeys_sound (List.replicate 32 7)
    (List.replicate 16 9) rfl).2 [1, 2] (List.replicate 12 3) [4, 5] [' '] ['\n'] _ rfl
      (List.forall_mem_singleton.2 (by decide)) (List.forall_mem_singleton.2 (by decide)) hpacket
  refine ⟨s, _, hrun, hhanded, h s (Transition.reach_of_run hrun)
    ⟨⟨0, anOffer.id, sealedSeed, 300000000, none⟩, 0, 0⟩ ?_ rfl rfl _ ?_ rfl⟩
  · rw [hdeposits]
    exact List.mem_singleton_self _
  · rw [hhanded]
    exact List.mem_singleton_self _

end Whispee.Account.Pairing
