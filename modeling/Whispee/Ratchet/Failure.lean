import Whispee.Ratchet.DoubleRatchet

/-!
# Failed decryptions

`decrypt` takes a pending key out, turns the ratchet and moves the receiving chain before the
cipher has looked at the message, so most of its failures leave a changed state behind. Those that
do not are the refusals of `skip_message_keys` in front of the first change, and the one of a state
without a receiving chain (`decrypt_failed_unchanged_iff`).
-/

namespace Whispee.Ratchet.DoubleRatchet

variable {P : Primitives} {s t : DoubleRatchet} {secret : Bytes} {message : Message}

/-! ## `skip_message_keys` -/

/-- `skip_message_keys` refuses to go to this position. -/
def RefusesToSkip (s : DoubleRatchet) (upTo : Nat) : Prop :=
  match s.ckr with
  | none => upTo ≠ 0
  | some _ => upTo < s.nr ∨ upTo - s.nr > MAX_SKIP ∨ s.dhr = none

instance : Decidable (s.RefusesToSkip upTo) := by
  unfold RefusesToSkip
  cases s.ckr with
  | none => exact inferInstanceAs (Decidable (_ ≠ _))
  | some => exact inferInstanceAs (Decidable (_ ∨ _ ∨ _))

/-- What a skip that is not refused does. -/
inductive Skipped (P : Primitives) (s : DoubleRatchet) (upTo : Nat) : DoubleRatchet → Prop where
  | noChain : s.ckr = none → upTo = 0 → Skipped P s upTo s
  | chain (dhr : Bytes) (ckr : ChainKey) : s.ckr = some ckr → s.dhr = some dhr → s.nr ≤ upTo →
    upTo - s.nr ≤ MAX_SKIP →
    Skipped P s upTo
      { s with
        skipped := (skipLoop P dhr ckr s.nr (upTo - s.nr) s.skipped).2
        ckr := some (skipLoop P dhr ckr s.nr (upTo - s.nr) s.skipped).1
        nr := upTo }

theorem skipMessageKeys_error (h : s.skipMessageKeys P upTo = .error e) : s.RefusesToSkip upTo := by
  unfold skipMessageKeys at h
  unfold RefusesToSkip
  cases hckr : s.ckr with
  | none =>
    rw [hckr] at h
    dsimp only at h
    split at h
    · cases h
    · assumption
  | some ckr =>
    rw [hckr] at h
    dsimp only at h
    split at h
    · exact .inl ‹_›
    · split at h
      · exact .inr (.inl ‹_›)
      · split at h
        · exact .inr (.inr ‹_›)
        · cases h

theorem skipMessageKeys_ok (h : s.skipMessageKeys P upTo = .ok t) :
    Skipped P s upTo t ∧ ¬ s.RefusesToSkip upTo := by
  unfold skipMessageKeys at h
  unfold RefusesToSkip
  cases hckr : s.ckr with
  | none =>
    rw [hckr] at h
    dsimp only at h
    split at h
    next hzero =>
      cases h
      exact ⟨.noChain hckr hzero, not_not_intro hzero⟩
    · cases h
  | some ckr =>
    rw [hckr] at h
    dsimp only at h
    split at h
    · cases h
    · split at h
      · cases h
      · split at h
        · cases h
        next hlow hhigh _ dhr hdhr =>
          cases h
          refine ⟨.chain dhr ckr hckr hdhr (Nat.le_of_not_lt hlow) (Nat.le_of_not_lt hhigh), ?_⟩
          rintro (h | h | h)
          · exact hlow h
          · exact hhigh h
          · cases hdhr.symm.trans h

theorem skipMessageKeys_of_refuses (h : s.RefusesToSkip upTo) :
    ∃ e, s.skipMessageKeys P upTo = .error e := by
  cases hskip : s.skipMessageKeys P upTo with
  | error e => exact ⟨e, rfl⟩
  | ok t => exact absurd h (skipMessageKeys_ok hskip).2

theorem Skipped.dhr_eq (h : Skipped P s upTo t) : t.dhr = s.dhr := by
  cases h <;> rfl

/-! ## `decrypt` -/

/-- Adding one to a counter never gives it back the value it had a skip ago. -/
theorem next_ne {nr : Nat} (hle : nr ≤ upTo) (hskip : upTo - nr ≤ MAX_SKIP) : next upTo ≠ nr := by
  have hlt : upTo - nr < 2 ^ 32 - 1 := Nat.lt_of_le_of_lt hskip (by decide)
  unfold next
  omega

theorem decryptCurrent_dhr : (s.decryptCurrent P message).2.dhr = s.dhr := by
  unfold decryptCurrent
  split
  · rfl
  next t hskip =>
    have hdhr : t.dhr = s.dhr := (skipMessageKeys_ok hskip).1.dhr_eq
    split <;> exact hdhr

/-- The last case of `decrypt` leaves the state as it was only when it has not begun to change
it. -/
theorem decryptCurrent_unchanged_iff :
    (s.decryptCurrent P message).2 = s ↔ s.RefusesToSkip message.header.n ∨ s.ckr = none := by
  constructor
  · intro h
    unfold decryptCurrent at h
    split at h
    next hskip => exact .inl (skipMessageKeys_error hskip)
    next t hskip =>
      cases (skipMessageKeys_ok hskip).1 with
      | noChain hckr _ => exact .inr hckr
      | chain dhr ckr _ _ hle hmax =>
        exact absurd (congrArg DoubleRatchet.nr h) (next_ne hle hmax)
  · intro h
    unfold decryptCurrent
    split
    · rfl
    next t hskip =>
      obtain ⟨hskipped, hnot⟩ := skipMessageKeys_ok hskip
      have hckr := h.resolve_left hnot
      cases hskipped with
      | noChain => rw [hckr]
      | chain dhr ckr hsome => cases hsome.symm.trans hckr

/-- The message is turned away before anything is touched: its key is not among the pending ones,
and the skip it asks for first is refused, or the chain it asks for is not there. -/
def TurnedAway (s : DoubleRatchet) (message : Message) : Prop :=
  s.skipped.lookup (message.header.dh, message.header.n) = none ∧
    if s.dhr = some message.header.dh then s.RefusesToSkip message.header.n ∨ s.ckr = none
    else s.RefusesToSkip message.header.pn

instance : Decidable (s.TurnedAway message) := by
  unfold TurnedAway
  infer_instance

theorem erase_ne (h : s.skipped.lookup key = some messageKey) :
    s.skipped.erase key ≠ s.skipped := by
  intro heq
  have hnone : (s.skipped.erase key).lookup key = none := Finmap.lookup_erase key s.skipped
  rw [heq, h] at hnone
  cases hnone

theorem decrypt_unchanged_iff :
    (s.decrypt P secret message).2 = s ↔ s.TurnedAway message := by
  unfold decrypt TurnedAway
  cases hlookup : s.skipped.lookup (message.header.dh, message.header.n) with
  | some messageKey =>
    refine ⟨fun h => ?_, fun h => by cases h.1⟩
    exact absurd (congrArg DoubleRatchet.skipped h) (erase_ne hlookup)
  | none =>
    simp only [true_and]
    by_cases hdhr : s.dhr = some message.header.dh
    · rw [if_neg (not_not_intro hdhr), if_pos hdhr]
      exact decryptCurrent_unchanged_iff
    · rw [if_pos hdhr, if_neg hdhr]
      cases hskip : s.skipMessageKeys P message.header.pn with
      | error e => exact ⟨fun _ => skipMessageKeys_error hskip, fun _ => rfl⟩
      | ok t =>
        refine ⟨fun h => ?_, fun h => absurd h (skipMessageKeys_ok hskip).2⟩
        -- The ratchet has turned, and the last case keeps the key it turned to.
        have hturned : s.dhr = some message.header.dh :=
          (congrArg DoubleRatchet.dhr h).symm.trans decryptCurrent_dhr
        exact absurd hturned hdhr

theorem decrypt_error_of_turnedAway (h : s.TurnedAway message) :
    ∃ e, (s.decrypt P secret message).1 = .error e := by
  obtain ⟨hlookup, h⟩ := h
  unfold decrypt
  rw [hlookup]
  dsimp only
  by_cases hdhr : s.dhr = some message.header.dh
  · rw [if_pos hdhr] at h
    rw [if_neg (not_not_intro hdhr)]
    unfold decryptCurrent
    split
    next e _ => exact ⟨e, rfl⟩
    next t hskip =>
      obtain ⟨hskipped, hnot⟩ := skipMessageKeys_ok hskip
      have hckr := h.resolve_left hnot
      cases hskipped with
      | noChain => exact ⟨.NoSession, by rw [hckr]⟩
      | chain dhr ckr hsome => cases hsome.symm.trans hckr
  · rw [if_neg hdhr] at h
    rw [if_pos hdhr]
    obtain ⟨e, hskip⟩ := skipMessageKeys_of_refuses (P := P) h
    rw [hskip]
    exact ⟨e, rfl⟩

/-- A failed decryption leaves the state as it was exactly when the message is turned away before
anything is touched, and a message turned away is a failed decryption. -/
theorem decrypt_failed_unchanged_iff :
    (∀ e, (s.decrypt P secret message).1 = .error e →
      ((s.decrypt P secret message).2 = s ↔ s.TurnedAway message)) ∧
      (s.TurnedAway message → ∃ e, (s.decrypt P secret message).1 = .error e) :=
  ⟨fun _ _ => decrypt_unchanged_iff, decrypt_error_of_turnedAway⟩

/-! ## A state that does not survive -/

/-- The states of a ratchet that is used in any way at all. -/
inductive Reachable (P : Primitives) : DoubleRatchet → Prop where
  | initInitiator (drawn sharedSecret associatedData responderKey : Bytes) :
    Reachable P (initInitiator P drawn sharedSecret associatedData responderKey)
  | initResponder (sharedSecret associatedData : Bytes) (signedPrekey : EphemeralKeyPair) :
    Reachable P (initResponder sharedSecret associatedData signedPrekey)
  | encrypt {r : DoubleRatchet} (plaintext : Bytes) : Reachable P r →
    Reachable P (r.encrypt P plaintext).2
  | decrypt {r : DoubleRatchet} (drawn : Bytes) (m : Message) : Reachable P r →
    Reachable P (r.decrypt P drawn m).2

def preKey : EphemeralKeyPair := .ofSecret smallPrimitives (List.replicate 32 5)

def newResponder : DoubleRatchet := initResponder (List.replicate 32 1) [2] preKey

/-- The first message of the peer. -/
def genuine : Except RatchetError Message :=
  ((initInitiator smallPrimitives (List.replicate 32 9) (List.replicate 32 1) [2]
    preKey.publicKey).encrypt smallPrimitives (asBytes "hello")).1

/-- Anything that is laid out as a message, under a ratchet key of nobody. -/
def forged : Message := ⟨⟨List.replicate 32 77, 0, 0⟩, List.replicate 20 0⟩

/-- The forged message does not open, and the genuine one, which opened before it, does not open
after it: the responder has turned its ratchet to the forged key. -/
theorem forged_message_spoils :
    ∃ message, genuine = .ok message ∧ Reachable smallPrimitives newResponder ∧
      (newResponder.decrypt smallPrimitives [3] message).1 = .ok (asBytes "hello") ∧
      (newResponder.decrypt smallPrimitives [3] forged).1 = .error .DecryptionFailed ∧
      (newResponder.decrypt smallPrimitives [3] forged).2 ≠ newResponder ∧
      ((newResponder.decrypt smallPrimitives [3] forged).2.decrypt smallPrimitives [4] message).1 =
        .error .MessageKeyGone := by
  have opened : (match genuine with
      | .error _ => none
      | .ok message => some ((newResponder.decrypt smallPrimitives [3] message).1,
          ((newResponder.decrypt smallPrimitives [3] forged).2.decrypt smallPrimitives [4]
            message).1)) = some (.ok (asBytes "hello"), .error .MessageKeyGone) := by
    decide +kernel
  cases hmessage : genuine with
  | error e =>
    rw [hmessage] at opened
    cases opened
  | ok message =>
    rw [hmessage] at opened
    obtain ⟨hfirst, hlater⟩ := Prod.mk.inj (Option.some.inj opened)
    refine ⟨message, rfl, .initResponder _ _ _, hfirst, by decide +kernel, ?_, hlater⟩
    exact fun h => absurd (decrypt_unchanged_iff.1 h) (by decide +kernel)

end Whispee.Ratchet.DoubleRatchet
