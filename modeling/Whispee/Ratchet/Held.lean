import Mathlib.Data.Finset.Card
import Mathlib.Order.Interval.Finset.Nat
import Whispee.Ratchet.Failure

/-!
# Keys held

How many skipped keys a session holds. `skip_message_keys` bounds what one call sets aside, and the
keys stay until their messages arrive: over the calls of a session they add up, and stay within the
cap exactly while no message skips past what is left of it (`held_iff`).
-/

namespace Whispee.Ratchet.DoubleRatchet

/-- `skipped_count` -/
def skippedCount (s : DoubleRatchet) : Nat := s.skipped.keys.card

/-- The positions of a chain from `first` on, up to `upTo`. -/
def span (dh : Bytes) (first upTo : Nat) : Finset (Bytes × Nat) :=
  (Finset.Ico first upTo).map ⟨fun n => (dh, n), fun _ _ h => (Prod.mk.inj h).2⟩

/-- The positions a skip sets aside. -/
def skips (s : DoubleRatchet) (upTo : Nat) : Finset (Bytes × Nat) :=
  if s.RefusesToSkip upTo then ∅
  else
    match s.dhr with
    | none => ∅
    | some dhr => span dhr s.nr upTo

/-- The positions a message makes the session set aside: those left of the chain it ends, and those
before it in its own. -/
def asks (s : DoubleRatchet) (message : Message) : Finset (Bytes × Nat) :=
  if (message.header.dh, message.header.n) ∈ s.skipped then ∅
  else if s.dhr = some message.header.dh then s.skips message.header.n
  else if s.RefusesToSkip message.header.pn then ∅
  else
    s.skips message.header.pn ∪
      if message.header.n ≤ MAX_SKIP then span message.header.dh 0 message.header.n else ∅

/-! ## Sessions -/

/-- How a session opens. -/
inductive Opening where
  | initiator (secret : Bytes) (sharedSecret : RootKey) (associatedData responderRatchetKey : Bytes)
  | responder (sharedSecret : RootKey) (associatedData : Bytes) (signedPrekey : EphemeralKeyPair)

inductive Event where
  | encrypt (plaintext : Bytes)
  /-- With the secret the generator would hand out. -/
  | decrypt (secret : Bytes) (message : Message)

/-- The keys an event leaves fit under the cap. -/
def Event.Room (s : DoubleRatchet) : Event → Prop
  | .encrypt _ => True
  | .decrypt _ message => (s.skipped.keys ∪ s.asks message).card ≤ MAX_SKIP

section
variable (P : Primitives)

def Opening.state : Opening → DoubleRatchet
  | .initiator secret sharedSecret associatedData responderRatchetKey =>
    initInitiator P secret sharedSecret associatedData responderRatchetKey
  | .responder sharedSecret associatedData signedPrekey =>
    initResponder sharedSecret associatedData signedPrekey

/-- The state after an event, whether the call succeeds or fails. -/
def after (s : DoubleRatchet) : Event → DoubleRatchet
  | .encrypt plaintext => (s.encrypt P plaintext).2
  | .decrypt secret message => (s.decrypt P secret message).2

/-- The state after the first `k` of the events of a session. -/
def stateAfter (opening : Opening) (events : List Event) (k : Nat) : DoubleRatchet :=
  (events.take k).foldl (after P) (opening.state P)

end

variable {P : Primitives} {s t : DoubleRatchet} {secret : Bytes} {message : Message}

/-! ## The keys a call leaves -/

theorem mem_span : key ∈ span dh first upTo ↔ key.1 = dh ∧ first ≤ key.2 ∧ key.2 < upTo := by
  obtain ⟨dh', n⟩ := key
  simp only [span, Finset.mem_map, Finset.mem_Ico]
  constructor
  · rintro ⟨_, hn, heq⟩
    cases heq
    exact ⟨rfl, hn⟩
  · rintro ⟨rfl, hn⟩
    exact ⟨n, hn, rfl⟩

theorem skipLoop_keys (dh : Bytes) (chain : ChainKey) (n count : Nat)
    (keys : Finmap fun _ : Bytes × Nat => MessageKey) :
    (skipLoop P dh chain n count keys).2.keys = keys.keys ∪ span dh n (n + count) := by
  induction count generalizing chain n keys with
  | zero => simp [skipLoop, span]
  | succ count ih =>
    rw [skipLoop, ih]
    ext ⟨dh', i⟩
    simp only [Finset.mem_union, Finmap.mem_keys, Finmap.mem_insert, mem_span, Prod.mk.injEq]
    constructor
    · rintro ((⟨rfl, rfl⟩ | h) | ⟨rfl, h⟩)
      · exact .inr ⟨rfl, by omega⟩
      · exact .inl h
      · exact .inr ⟨rfl, by omega⟩
    · rintro (h | ⟨rfl, h⟩)
      · exact .inl (.inr h)
      · rcases Nat.eq_or_lt_of_le h.1 with rfl | hlt
        · exact .inl (.inl ⟨rfl, rfl⟩)
        · exact .inr ⟨rfl, by omega⟩

theorem skipMessageKeys_keys (h : s.skipMessageKeys P upTo = .ok t) :
    t.skipped.keys = s.skipped.keys ∪ s.skips upTo := by
  obtain ⟨hskipped, hnot⟩ := skipMessageKeys_ok h
  rw [skips, if_neg hnot]
  cases hskipped with
  | noChain _ hzero =>
    subst hzero
    cases s.dhr <;> simp [span]
  | chain dhr ckr _ hdhr hle _ =>
    rw [hdhr]
    dsimp only
    rw [skipLoop_keys, Nat.add_sub_cancel' hle]

theorem skips_of_refuses (h : s.RefusesToSkip upTo) : s.skips upTo = ∅ := if_pos h

theorem decryptCurrent_keys :
    (s.decryptCurrent P message).2.skipped.keys =
      s.skipped.keys ∪ s.skips message.header.n := by
  unfold decryptCurrent
  split
  next hskip => rw [skips_of_refuses (skipMessageKeys_error hskip), Finset.union_empty]
  next t hskip =>
    rw [← skipMessageKeys_keys hskip]
    split <;> rfl

/-- Right after a turn of the ratchet only the length of the skip is checked. -/
theorem dhRatchet_skips (dh : Bytes) (pn n : Nat) :
    (s.dhRatchet P secret ⟨dh, pn, n⟩).skips n = if n ≤ MAX_SKIP then span dh 0 n else ∅ := by
  have hrefuses : (s.dhRatchet P secret ⟨dh, pn, n⟩).RefusesToSkip n ↔ ¬ n ≤ MAX_SKIP := by
    simp only [RefusesToSkip, dhRatchet, Nat.not_le, gt_iff_lt]
    constructor
    · rintro (h | h | h)
      · omega
      · omega
      · cases h
    · exact fun h => .inr (.inl h)
  by_cases h : n ≤ MAX_SKIP
  · rw [if_pos h, skips, if_neg (mt hrefuses.mp (not_not_intro h))]
    rfl
  · rw [if_neg h, skips_of_refuses (hrefuses.mpr h)]

/-- What `decrypt` does to the keys held: it takes the key of the message, or sets aside what the
message asks for. -/
theorem decrypt_keys :
    (s.decrypt P secret message).2.skipped.keys =
      if (message.header.dh, message.header.n) ∈ s.skipped then
        s.skipped.keys.erase (message.header.dh, message.header.n)
      else s.skipped.keys ∪ s.asks message := by
  unfold decrypt
  split
  next hlookup =>
    rw [if_pos (Finmap.lookup_isSome.mp (by rw [hlookup]; rfl))]
    exact Finmap.keys_erase _ _
  next hlookup =>
    have hnot := Finmap.lookup_eq_none.mp hlookup
    rw [if_neg hnot, asks, if_neg hnot]
    by_cases hdhr : s.dhr = some message.header.dh
    · rw [if_pos hdhr, if_neg (not_not_intro hdhr)]
      exact decryptCurrent_keys
    · rw [if_neg hdhr, if_pos hdhr]
      split
      next hskip =>
        rw [if_pos (skipMessageKeys_error hskip), Finset.union_empty]
      next t hskip =>
        rw [if_neg (skipMessageKeys_ok hskip).2, decryptCurrent_keys, dhRatchet_skips,
          ← Finset.union_assoc, ← skipMessageKeys_keys hskip]
        rfl

/-! ## Sessions -/

theorem encrypt_keys : (s.encrypt P plaintext).2.skipped = s.skipped := by
  unfold encrypt
  split
  · rfl
  · dsimp only
    split <;> rfl

/-- An event that finds room leaves at most the cap, and one that does not leaves more. -/
theorem after_skippedCount_iff (h : s.skippedCount ≤ MAX_SKIP) (event : Event) :
    (s.after P event).skippedCount ≤ MAX_SKIP ↔ event.Room s := by
  cases event with
  | encrypt plaintext =>
    refine iff_of_true ?_ trivial
    rw [after, skippedCount, encrypt_keys]
    exact h
  | decrypt secret message =>
    rw [after, skippedCount, decrypt_keys, Event.Room]
    by_cases hmem : (message.header.dh, message.header.n) ∈ s.skipped
    · rw [if_pos hmem, asks, if_pos hmem, Finset.union_empty]
      exact iff_of_true ((Finset.card_le_card (Finset.erase_subset _ _)).trans h) h
    · rw [if_neg hmem]

theorem stateAfter_succ (h : events[k]? = some event) :
    stateAfter P opening events (k + 1) = (stateAfter P opening events k).after P event := by
  simp [stateAfter, List.take_add_one, h, List.foldl_append]

theorem stateAfter_of_length_le (h : events.length ≤ k) :
    stateAfter P opening events (k + 1) = stateAfter P opening events k := by
  simp [stateAfter, List.take_of_length_le h, List.take_of_length_le (Nat.le_succ_of_le h)]

theorem opening_skippedCount (P : Primitives) (opening : Opening) :
    (opening.state P).skippedCount = 0 := by
  cases opening <;> rfl

/-- A session holds at most `MAX_SKIP` keys throughout exactly when each of its events finds room
for the keys it adds. -/
theorem held_iff (P : Primitives) (opening : Opening) (events : List Event) :
    (∀ k, (stateAfter P opening events k).skippedCount ≤ MAX_SKIP) ↔
      ∀ k (event : Event), events[k]? = some event →
        event.Room (stateAfter P opening events k) := by
  constructor
  · intro h k event hk
    rw [← after_skippedCount_iff (P := P) (h k), ← stateAfter_succ hk]
    exact h (k + 1)
  · intro h k
    induction k with
    | zero => exact (opening_skippedCount P opening).trans_le (Nat.zero_le _)
    | succ k ih =>
      cases hk : events[k]? with
      | none => rwa [stateAfter_of_length_le (List.getElem?_eq_none_iff.mp hk)]
      | some event =>
        rw [stateAfter_succ hk]
        exact (after_skippedCount_iff ih event).mpr (h k event hk)

/-! ## Two skips -/

/-- A skip that is not refused ends right after the message. -/
theorem decryptCurrent_position (message : Message) (hckr : s.ckr.isSome)
    (hdhr : s.dhr = some dh) (hle : s.nr ≤ message.header.n)
    (hskip : message.header.n - s.nr ≤ MAX_SKIP) :
    (s.decryptCurrent P message).2.ckr.isSome ∧
      (s.decryptCurrent P message).2.nr = next message.header.n := by
  obtain ⟨ckr, hckr⟩ := Option.isSome_iff_exists.mp hckr
  have hnot : ¬ s.RefusesToSkip message.header.n := by
    simp only [RefusesToSkip, hckr, hdhr]
    rintro (h | h | h)
    · omega
    · omega
    · cases h
  unfold decryptCurrent
  cases hok : s.skipMessageKeys P message.header.n with
  | error e => exact absurd (skipMessageKeys_error hok) hnot
  | ok t =>
    cases (skipMessageKeys_ok hok).1 with
    | noChain hnone => cases hnone.symm.trans hckr
    | chain => exact ⟨rfl, rfl⟩

/-- The first message a responder receives turns its ratchet. -/
theorem initResponder_decrypt (sharedSecret : RootKey) (associatedData : Bytes)
    (signedPrekey : EphemeralKeyPair) (secret dh : Bytes) (n : Nat) (ciphertext : Bytes) :
    (initResponder sharedSecret associatedData signedPrekey).decrypt P secret
        ⟨⟨dh, 0, n⟩, ciphertext⟩ =
      ((initResponder sharedSecret associatedData signedPrekey).dhRatchet P secret
        ⟨dh, 0, n⟩).decryptCurrent P ⟨⟨dh, 0, n⟩, ciphertext⟩ := by
  rfl

/-- After a skip of `m`, a second one of `k` in the same chain. -/
theorem skippedCount_of_gap (hkeys : s.skipped.keys = span dh 0 m) (hckr : s.ckr.isSome)
    (hdhr : s.dhr = some dh) (hnr : s.nr = m + 1) (hk : k ≤ MAX_SKIP) :
    (s.decrypt P secret ⟨⟨dh, 0, m + 1 + k⟩, ciphertext⟩).2.skippedCount = m + k := by
  obtain ⟨ckr, hckr⟩ := Option.isSome_iff_exists.mp hckr
  have hnot : ¬ s.RefusesToSkip (m + 1 + k) := by
    simp only [RefusesToSkip, hckr, hdhr, hnr]
    rintro (h | h | h)
    · omega
    · omega
    · cases h
  have hmem : (dh, m + 1 + k) ∉ s.skipped := by
    rw [← Finmap.mem_keys, hkeys, mem_span]
    rintro ⟨-, -, h⟩
    dsimp only at h
    omega
  have hasks : s.asks ⟨⟨dh, 0, m + 1 + k⟩, ciphertext⟩ = span dh (m + 1) (m + 1 + k) := by
    rw [asks, if_neg hmem, if_pos hdhr, skips, if_neg hnot, hdhr, hnr]
  have hdisjoint : Disjoint (span dh 0 m) (span dh (m + 1) (m + 1 + k)) := by
    rw [Finset.disjoint_left]
    intro key h h'
    rw [mem_span] at h h'
    omega
  rw [skippedCount, decrypt_keys, if_neg hmem, hasks, hkeys,
    Finset.card_union_of_disjoint hdisjoint]
  simp [span]

/-- The first message of a chain skips `m` positions, and the next one to arrive `k`. -/
theorem skippedCount_twice (sharedSecret : RootKey) (associatedData : Bytes)
    (signedPrekey : EphemeralKeyPair) (hm : m ≤ MAX_SKIP) (hk : k ≤ MAX_SKIP) :
    (((initResponder sharedSecret associatedData signedPrekey).decrypt P secret
      ⟨⟨dh, 0, m⟩, first⟩).2.decrypt P secret ⟨⟨dh, 0, m + 1 + k⟩, second⟩).2.skippedCount =
      m + k := by
  rw [initResponder_decrypt]
  obtain ⟨hckr, hnr⟩ := decryptCurrent_position (P := P)
    (s := (initResponder sharedSecret associatedData signedPrekey).dhRatchet P secret ⟨dh, 0, m⟩)
    ⟨⟨dh, 0, m⟩, first⟩ rfl rfl (Nat.zero_le _) hm
  refine skippedCount_of_gap ?_ hckr (decryptCurrent_dhr.trans rfl) (hnr.trans ?_) hk
  · rw [decryptCurrent_keys, dhRatchet_skips, if_pos hm]
    exact Finset.empty_union _
  · have hlt : m + 1 < 2 ^ 32 := Nat.lt_of_le_of_lt (Nat.succ_le_succ hm) (by decide)
    exact Nat.mod_eq_of_lt hlt

theorem stateAfter_two (P : Primitives) (opening : Opening) (a b : Event) :
    stateAfter P opening [a, b] 2 = ((opening.state P).after P a).after P b := rfl

/-- A message at the end of the longest skip, and one more whose predecessor is missing. -/
theorem held_past_cap :
    ¬ ∀ P opening events k, (stateAfter P opening events k).skippedCount ≤ MAX_SKIP := by
  intro h
  have hcount := h smallPrimitives (.responder [] [] ⟨[], []⟩)
    [.decrypt [0] ⟨⟨[1], 0, MAX_SKIP⟩, []⟩, .decrypt [0] ⟨⟨[1], 0, MAX_SKIP + 1 + 1⟩, []⟩] 2
  rw [stateAfter_two, Opening.state, after, after,
    skippedCount_twice [] [] ⟨[], []⟩ (Nat.le_refl _) (by decide)] at hcount
  exact absurd hcount (by decide)

end Whispee.Ratchet.DoubleRatchet
