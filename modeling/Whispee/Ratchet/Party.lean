import Whispee.Ratchet.Failure
import Mathlib.Data.List.GetD

/-!
# One party of an exchange

Two parties are initialised from one shared secret. The chains of their exchange are numbered by
the turns of the ratchet: chain `j` is the one sent with the `j`-th secret, `0` being the
responder's signed prekey, so that the initiator sends on the odd chains and the responder on the
even ones. A party at level `j` sends on chain `j` and receives on chain `j - 1`; `Party` says what
its state holds then, and what each message does to it.
-/

namespace Whispee.Ratchet

open DoubleRatchet

/-- What an exchange starts from. -/
structure Setup where
  primitives : Primitives
  /-- The secrets the generators hand out: the responder's signed prekey, the initiator's first
  ratchet secret, then one for each turn of a ratchet. -/
  secrets : List Bytes
  sharedSecret : RootKey
  associatedData : Bytes

namespace Setup

/-- The primitives keep their laws, and no two secrets have one public key. -/
structure Lawful (S : Setup) : Prop where
  primitives : S.primitives.Lawful
  two_le : 2 ≤ S.secrets.length
  fresh : (S.secrets.map S.primitives.publicKey).Nodup

variable (S : Setup)

def secret (j : Nat) : Bytes := S.secrets.getD j []

/-! ## The keys of the exchange -/

def pair (j : Nat) : EphemeralKeyPair := .ofSecret S.primitives (S.secret j)

/-- The ratchet key of chain `j`. -/
def ratchetKey (j : Nat) : Bytes := (S.pair j).publicKey

/-- The root key after turn `j`, and the first key of chain `j`. -/
def root : Nat → RootKey × ChainKey
  | 0 => (S.sharedSecret, [])
  | j + 1 =>
    kdfRk S.primitives (root j).1 (S.primitives.diffieHellman (S.secret (j + 1)) (S.ratchetKey j))

def chainKey (j : Nat) : Nat → ChainKey
  | 0 => (S.root j).2
  | i + 1 => (kdfCk S.primitives (chainKey j i)).1

def messageKey (j i : Nat) : MessageKey := (kdfCk S.primitives (S.chainKey j i)).2

variable {S}

/-- The receiver of chain `j + 1` computes what its sender has. -/
theorem Lawful.root_succ (lawful : S.Lawful) (j : Nat) :
    kdfRk S.primitives (S.root j).1 (S.primitives.diffieHellman (S.secret j) (S.ratchetKey (j + 1)))
      = S.root (j + 1) :=
  congrArg (kdfRk S.primitives (S.root j).1)
    (lawful.primitives.diffieHellman_comm (S.secret j) (S.secret (j + 1)))

theorem Lawful.ratchetKey_inj (lawful : S.Lawful) (hj : j < S.secrets.length)
    (hj' : j' < S.secrets.length) : S.ratchetKey j = S.ratchetKey j' ↔ j = j' := by
  have in_keys : ∀ {j}, j < S.secrets.length →
      j < (S.secrets.map S.primitives.publicKey).length := by
    intro j hj
    rwa [List.length_map]
  have key_eq : ∀ {j}, j < S.secrets.length →
      (S.secrets.map S.primitives.publicKey)[j]? = some (S.ratchetKey j) := by
    intro j hj
    rw [List.getElem?_map, List.getElem?_eq_getElem hj]
    exact congrArg (fun secret => some (S.primitives.publicKey secret))
      (List.getD_eq_getElem _ _ hj).symm
  refine ⟨fun h => ?_, congrArg _⟩
  refine (List.getElem?_inj (in_keys hj) lawful.fresh).1 ?_
  rw [key_eq hj, key_eq hj', h]

end Setup

namespace DoubleRatchet

variable (s : DoubleRatchet) (message : Message)

/-- The message turns the ratchet, and a secret is drawn for it. -/
def Turns : Prop :=
  s.skipped.lookup (message.header.dh, message.header.n) = none ∧
    s.dhr ≠ some message.header.dh ∧ ¬ s.RefusesToSkip message.header.pn

instance : Decidable (s.Turns message) := by
  unfold Turns
  infer_instance

/-- No chain skips too far for the message. -/
def WithinSkip : Prop :=
  s.skipped.lookup (message.header.dh, message.header.n) = none →
    if s.dhr = some message.header.dh then message.header.n - s.nr ≤ MAX_SKIP
    else message.header.pn - s.nr ≤ MAX_SKIP ∧ message.header.n ≤ MAX_SKIP

instance : Decidable (s.WithinSkip message) := by
  unfold WithinSkip
  infer_instance

end DoubleRatchet

variable {S : Setup} {level : Nat} {length : Nat → Nat} {opened : Nat → Nat → Prop}
  {r t : DoubleRatchet}

/-- Position `i` of chain `j` lies behind a party at this level: the chain is one of its peer's,
and the position one it has received or skipped. -/
def Passed (level nr : Nat) (length : Nat → Nat) (j i : Nat) : Prop :=
  j + 1 ≤ level ∧ (level + j) % 2 = 1 ∧ i < if j + 1 = level then nr else length j

theorem passed_congr {nr : Nat} {length' : Nat → Nat}
    (h : ∀ j, j + 1 < level → length' j = length j) :
    Passed level nr length j i ↔ Passed level nr length' j i := by
  refine and_congr_right fun hj => and_congr_right fun _ => ?_
  split
  · rfl
  next hne => rw [h j (Nat.lt_of_le_of_ne hj hne)]

/-- A party at this level, `length j` messages having been sent on chain `j`, and those of
`opened` having been decrypted. -/
structure Party (S : Setup) (level : Nat) (length : Nat → Nat) (opened : Nat → Nat → Prop)
    (r : DoubleRatchet) : Prop where
  level_lt : level < S.secrets.length
  dhs : r.dhs = S.pair level
  dhr : r.dhr = if level = 0 then none else some (S.ratchetKey (level - 1))
  rk : r.rk = (S.root level).1
  cks : r.cks = if level = 0 then none else some (S.chainKey level r.ns)
  ckr : r.ckr = if level ≤ 1 then none else some (S.chainKey (level - 1) r.nr)
  ns : r.ns = length level
  nr_le : r.nr ≤ length (level - 1)
  pn : r.pn = if level < 2 then 0 else length (level - 2)
  ad : r.ad = S.associatedData
  /-- The pending keys are those of the positions passed and not opened. -/
  pending : ∀ j i messageKey, j < S.secrets.length →
    (r.skipped.lookup (S.ratchetKey j, i) = some messageKey ↔
      messageKey = S.messageKey j i ∧ Passed level r.nr length j i ∧ ¬ opened j i)
  /-- What it has opened, it has passed. -/
  opened_passed : ∀ j i, opened j i → (level + j) % 2 = 1 → Passed level r.nr length j i

/-- The message of position `i` of chain `j`. -/
structure Setup.IsMessage (S : Setup) (length : Nat → Nat) (j i : Nat) (message : Message)
    (plaintext : Bytes) : Prop where
  chain_lt : j < S.secrets.length
  dh : message.header.dh = S.ratchetKey j
  pn : message.header.pn = if j < 2 then 0 else length (j - 2)
  n : message.header.n = i
  sealed : aeadSeal S.primitives (S.messageKey j i) plaintext
    (S.associatedData ++ message.header.encode) = .ok message.ciphertext

/-! ## Skipping -/

theorem skipLoop_chain (S : Setup) (j n count : Nat)
    (skipped : Finmap fun _ : Bytes × Nat => MessageKey) :
    (skipLoop S.primitives (S.ratchetKey j) (S.chainKey j n) n count skipped).1 =
      S.chainKey j (n + count) := by
  induction count generalizing n skipped with
  | zero => rfl
  | succ count ih =>
    refine (ih (n + 1) _).trans ?_
    rw [Nat.add_assoc, Nat.add_comm 1]

/-- The loop adds the keys of the positions it goes through. -/
theorem lookup_skipLoop (lawful : S.Lawful) (j n count : Nat)
    (skipped : Finmap fun _ : Bytes × Nat => MessageKey) (j' i : Nat)
    (hj : j < S.secrets.length) (hj' : j' < S.secrets.length) :
    (skipLoop S.primitives (S.ratchetKey j) (S.chainKey j n) n count skipped).2.lookup
        (S.ratchetKey j', i) =
      if j' = j ∧ n ≤ i ∧ i < n + count then some (S.messageKey j i)
      else skipped.lookup (S.ratchetKey j', i) := by
  induction count generalizing n skipped with
  | zero => exact (if_neg fun h => absurd h.2.2 (Nat.not_lt.2 h.2.1)).symm
  | succ count ih =>
    refine (ih (n + 1) _).trans ?_
    by_cases hhere : j' = j ∧ i = n
    · obtain ⟨rfl, rfl⟩ := hhere
      rw [if_neg fun h => absurd h.2.1 (Nat.not_succ_le_self _),
        if_pos ⟨rfl, Nat.le_refl _, Nat.lt_add_of_pos_right (Nat.succ_pos _)⟩]
      exact Finmap.lookup_insert _
    · have hne : (S.ratchetKey j', i) ≠ (S.ratchetKey j, n) := by
        intro h
        obtain ⟨hkey, hi⟩ := Prod.mk.inj h
        exact hhere ⟨(lawful.ratchetKey_inj hj' hj).1 hkey, hi⟩
      have hlookup : (skipped.insert (S.ratchetKey j, n) (S.messageKey j n)).lookup
          (S.ratchetKey j', i) = skipped.lookup (S.ratchetKey j', i) :=
        Finmap.lookup_insert_of_ne skipped hne
      refine (congrArg _ hlookup).trans (if_congr ?_ rfl rfl)
      omega

namespace Party

theorem skip (lawful : S.Lawful) (h : Party S level length opened r) (hlevel : 2 ≤ level)
    (hnr : r.nr ≤ upTo) (hmax : upTo - r.nr ≤ MAX_SKIP) (hlength : upTo ≤ length (level - 1)) :
    ∃ t, r.skipMessageKeys S.primitives upTo = .ok t ∧ Party S level length opened t ∧
      t.nr = upTo := by
  obtain ⟨j, rfl⟩ : ∃ j, level = j + 1 := ⟨level - 1, by omega⟩
  have hj : j < S.secrets.length := Nat.lt_of_succ_lt h.level_lt
  have hckr : r.ckr = some (S.chainKey j r.nr) := h.ckr.trans (if_neg (by omega))
  have hdhr : r.dhr = some (S.ratchetKey j) := h.dhr.trans (if_neg (by omega))
  let loop := skipLoop S.primitives (S.ratchetKey j) (S.chainKey j r.nr) r.nr (upTo - r.nr)
    r.skipped
  refine ⟨{ r with skipped := loop.2, ckr := some loop.1, nr := upTo }, ?_, ?_, rfl⟩
  · simp only [skipMessageKeys, hckr, hdhr, if_neg (Nat.not_lt.2 hnr), if_neg (Nat.not_lt.2 hmax)]
    rfl
  · have passed_iff : ∀ j' i, Passed (j + 1) upTo length j' i ↔
        Passed (j + 1) r.nr length j' i ∨ j' = j ∧ r.nr ≤ i ∧ i < upTo := by
      intro j' i
      unfold Passed
      split <;> omega
    refine { h with
      ckr := ?_
      nr_le := hlength
      pending := fun j' i mk hj' => ?_
      opened_passed := fun j' i hopened hodd =>
        (passed_iff j' i).2 (.inl (h.opened_passed j' i hopened hodd)) }
    · refine Eq.trans ?_ (if_neg (by omega)).symm
      refine congrArg some ((skipLoop_chain S j r.nr _ r.skipped).trans ?_)
      rw [Nat.add_sub_cancel' hnr]
      rfl
    · refine (Eq.congr_left (lookup_skipLoop lawful j r.nr _ r.skipped j' i hj hj')).trans ?_
      rw [Nat.add_sub_cancel' hnr, passed_iff]
      split
      next hnew =>
        obtain ⟨rfl, hlow, hhigh⟩ := hnew
        -- A position not passed before has not been opened.
        have hnot : ¬ opened j' i := by
          intro hopened
          have hpassed := (h.opened_passed j' i hopened (by omega)).2.2
          rw [if_pos rfl] at hpassed
          exact absurd hpassed (Nat.not_lt.2 hlow)
        rw [Option.some.injEq]
        exact ⟨fun heq => ⟨heq.symm, .inr ⟨rfl, hlow, hhigh⟩, hnot⟩, fun h => h.1.symm⟩
      next hold =>
        rw [h.pending _ _ _ hj']
        exact and_congr_right' (and_congr_left' (or_iff_left hold).symm)

/-! ## A first delivery -/

/-- One more position opened. -/
def AndOpened (opened : Nat → Nat → Prop) (j₀ i₀ : Nat) (j i : Nat) : Prop :=
  opened j i ∨ j = j₀ ∧ i = i₀

theorem aeadOpen_message (lawful : S.Lawful) (hr : r.ad = S.associatedData)
    (hmessage : S.IsMessage length j i message plaintext) :
    aeadOpen S.primitives (S.messageKey j i) message.ciphertext (r.aadFor message.header) =
      .ok plaintext := by
  unfold aadFor
  rw [hr]
  exact aeadOpen_aeadSeal lawful.primitives hmessage.sealed

/-- A pending message opens. -/
theorem decrypt_pending (lawful : S.Lawful) (h : Party S level length opened r)
    (hmessage : S.IsMessage length j i message plaintext) (hpassed : Passed level r.nr length j i)
    (hnot : ¬ opened j i) :
    (r.decrypt S.primitives secret message).1 = .ok plaintext ∧
      Party S level length (AndOpened opened j i) (r.decrypt S.primitives secret message).2 := by
  have hlookup : r.skipped.lookup (message.header.dh, message.header.n) =
      some (S.messageKey j i) := by
    rw [hmessage.dh, hmessage.n, h.pending _ _ _ hmessage.chain_lt]
    exact ⟨rfl, hpassed, hnot⟩
  unfold decrypt
  rw [hlookup]
  refine ⟨aeadOpen_message lawful h.ad hmessage, { h with pending := ?_, opened_passed := ?_ }⟩
  · intro j' i' mk hj'
    rw [hmessage.dh, hmessage.n]
    by_cases heq : j' = j ∧ i' = i
    · obtain ⟨rfl, rfl⟩ := heq
      refine iff_of_false (fun hsome => ?_) fun h => h.2.2 (.inr ⟨rfl, rfl⟩)
      cases (Finmap.lookup_erase _ r.skipped).symm.trans hsome
    · have hne : (S.ratchetKey j', i') ≠ (S.ratchetKey j, i) := by
        intro hkeys
        obtain ⟨hkey, hi⟩ := Prod.mk.inj hkeys
        exact heq ⟨(lawful.ratchetKey_inj hj' hmessage.chain_lt).1 hkey, hi⟩
      have hold : (r.skipped.erase (S.ratchetKey j, i)).lookup (S.ratchetKey j', i') =
          r.skipped.lookup (S.ratchetKey j', i') := Finmap.lookup_erase_ne hne
      refine (Eq.congr_left hold).trans ((h.pending j' i' mk hj').trans ?_)
      exact and_congr_right' (and_congr_right' (not_congr (or_iff_left heq).symm))
  · rintro j' i' (hopened | ⟨rfl, rfl⟩) hodd
    · exact h.opened_passed j' i' hopened hodd
    · exact hpassed

/-- A message of the current chain, at the receiving position or beyond it, opens. -/
theorem decryptCurrent_ahead (lawful : S.Lawful) (h : Party S (j + 1) length opened r)
    (hmessage : S.IsMessage length j i message plaintext) (hj : 0 < j) (hnr : r.nr ≤ i)
    (hmax : i - r.nr ≤ MAX_SKIP) (hi : i < length j) (hlength : length j < 2 ^ 32) :
    (r.decryptCurrent S.primitives message).1 = .ok plaintext ∧
      Party S (j + 1) length (AndOpened opened j i)
        (r.decryptCurrent S.primitives message).2 := by
  obtain ⟨t, hskip, ht, htnr⟩ := h.skip lawful (by omega) hnr hmax (Nat.le_of_lt hi)
  have hckr : t.ckr = some (S.chainKey j i) := by
    rw [ht.ckr, if_neg (by omega), htnr]
    rfl
  have hnext : next t.nr = i + 1 := by
    rw [htnr]
    exact Nat.mod_eq_of_lt (by omega)
  unfold decryptCurrent
  rw [hmessage.n, hskip]
  dsimp only
  rw [hckr]
  have passed_iff : ∀ j' i', Passed (j + 1) (next t.nr) length j' i' ↔
      Passed (j + 1) t.nr length j' i' ∨ j' = j ∧ i' = i := by
    intro j' i'
    rw [hnext, htnr]
    unfold Passed
    split <;> omega
  refine ⟨aeadOpen_message lawful ht.ad hmessage, { ht with
    ckr := ?_
    nr_le := ?_
    pending := ?_
    opened_passed := ?_ }⟩
  · rw [if_neg (by omega), hnext]
    rfl
  · show next t.nr ≤ _
    rw [hnext]
    exact hi
  · intro j' i' mk hj'
    refine (ht.pending j' i' mk hj').trans (and_congr_right' ?_)
    rw [passed_iff]
    constructor
    · rintro ⟨hpassed, hnot⟩
      refine ⟨.inl hpassed, ?_⟩
      rintro (hopened | ⟨rfl, rfl⟩)
      · exact hnot hopened
      · have hlt := hpassed.2.2
        rw [if_pos rfl, htnr] at hlt
        exact Nat.lt_irrefl _ hlt
    · rintro ⟨hpassed | heq, hnot⟩
      · exact ⟨hpassed, fun hopened => hnot (.inl hopened)⟩
      · exact absurd (.inr heq) hnot
  · rintro j' i' (hopened | heq) hodd
    · exact (passed_iff j' i').2 (.inl (ht.opened_passed j' i' hopened hodd))
    · exact (passed_iff j' i').2 (.inr heq)

/-- The skip to the end of the chain that the peer has closed. -/
theorem skip_closed (lawful : S.Lawful) (h : Party S level length opened r)
    (hmessage : S.IsMessage length (level + 1) i message plaintext)
    (hmax : message.header.pn - r.nr ≤ MAX_SKIP) (hzero : length 0 = 0) :
    ∃ t, r.skipMessageKeys S.primitives message.header.pn = .ok t ∧
      Party S level length opened t ∧ (0 < level → t.nr = length (level - 1)) := by
  by_cases hlevel : 2 ≤ level
  · have hpn : message.header.pn = length (level - 1) :=
      hmessage.pn.trans (if_neg (by omega))
    rw [hpn] at hmax ⊢
    obtain ⟨t, hskip, ht, htnr⟩ := h.skip lawful hlevel h.nr_le hmax (Nat.le_refl _)
    exact ⟨t, hskip, ht, fun _ => htnr⟩
  · have hlow : level - 1 = 0 := by omega
    have hpn : message.header.pn = 0 := by
      rw [hmessage.pn]
      split
      · rfl
      · exact hlow ▸ hzero
    have hnr := h.nr_le
    rw [hlow, hzero] at hnr
    have hckr : r.ckr = none := h.ckr.trans (if_pos (by omega))
    refine ⟨r, ?_, h, fun _ => ?_⟩
    · simp only [skipMessageKeys, hckr, hpn, if_true]
    · rw [hlow, hzero]
      exact Nat.le_zero.1 hnr

/-- The ratchet turns to the peer's new key. -/
theorem dhRatchet (lawful : S.Lawful) (h : Party S level length opened r)
    (hmessage : S.IsMessage length (level + 1) i message plaintext)
    (hnr : 0 < level → r.nr = length (level - 1)) (hdrawn : level + 2 < S.secrets.length)
    (hnew : length (level + 2) = 0) :
    Party S (level + 2) length opened
      (r.dhRatchet S.primitives (S.secret (level + 2)) message.header) := by
  have hrk : (kdfRk S.primitives r.rk (S.primitives.diffieHellman r.dhs.secret message.header.dh)) =
      S.root (level + 1) := by
    rw [h.rk, h.dhs, hmessage.dh]
    exact lawful.root_succ level
  have passed_iff : ∀ j i, Passed (level + 2) 0 length j i ↔ Passed level r.nr length j i := by
    intro j i
    unfold Passed
    by_cases hj : j + 1 = level
    · rw [if_neg (by omega), if_pos hj, hnr (by omega), ← hj]
      simp only [Nat.add_sub_cancel]
      omega
    · rw [if_neg hj]
      split <;> omega
  unfold DoubleRatchet.dhRatchet
  rw [hrk]
  refine {
    level_lt := hdrawn
    dhs := rfl
    dhr := ?_
    rk := ?_
    cks := ?_
    ckr := ?_
    ns := hnew.symm
    nr_le := Nat.zero_le _
    pn := ?_
    ad := h.ad
    pending := fun j i mk hj => by rw [passed_iff]; exact h.pending j i mk hj
    opened_passed := fun j i hopened hodd =>
      (passed_iff j i).2 (h.opened_passed j i hopened (by omega)) }
  · rw [if_neg (by omega), hmessage.dh]
    rfl
  · rw [hmessage.dh]
    rfl
  · rw [if_neg (by omega), hmessage.dh]
    rfl
  · rw [if_neg (by omega)]
    rfl
  · rw [if_neg (by omega)]
    exact h.ns

/-- A message decrypted for the first time opens, and the party follows its sender. -/
theorem decrypt_first (lawful : S.Lawful) (h : Party S level length opened r)
    (hmessage : S.IsMessage length j i message plaintext) (hi : i < length j)
    (hnot : ¬ opened j i) (hj : j ≤ level + 1) (hodd : (level + j) % 2 = 1)
    (hskip : r.WithinSkip message) (hzero : length 0 = 0) (hlength : length j < 2 ^ 32)
    (hnew : j = level + 1 → drawn = level + 2 ∧ drawn < S.secrets.length ∧ length drawn = 0) :
    (r.decrypt S.primitives (S.secret drawn) message).1 = .ok plaintext ∧
      Party S (if j = level + 1 then level + 2 else level) length (AndOpened opened j i)
        (r.decrypt S.primitives (S.secret drawn) message).2 ∧
      (r.Turns message ↔ j = level + 1) := by
  by_cases hpassed : Passed level r.nr length j i
  · have hne : j ≠ level + 1 := fun heq => absurd hpassed.1 (by omega)
    obtain ⟨hresult, hparty⟩ := h.decrypt_pending lawful hmessage hpassed hnot
    rw [if_neg hne]
    refine ⟨hresult, hparty, iff_of_false (fun hturns => ?_) hne⟩
    have hpending : r.skipped.lookup (message.header.dh, message.header.n) =
        some (S.messageKey j i) := by
      rw [hmessage.dh, hmessage.n, h.pending _ _ _ hmessage.chain_lt]
      exact ⟨rfl, hpassed, hnot⟩
    cases hpending.symm.trans hturns.1
  · have hlookup : r.skipped.lookup (message.header.dh, message.header.n) = none := by
      rw [Option.eq_none_iff_forall_ne_some]
      intro mk hsome
      rw [hmessage.dh, hmessage.n, h.pending _ _ _ hmessage.chain_lt] at hsome
      exact hpassed hsome.2.1
    replace hskip := hskip hlookup
    unfold DoubleRatchet.decrypt
    rw [hlookup]
    dsimp only
    by_cases hnext : j = level + 1
    · subst hnext
      obtain ⟨rfl, hdrawn, hnew⟩ := hnew rfl
      have hdhr : r.dhr ≠ some message.header.dh := by
        rw [h.dhr, hmessage.dh]
        split
        · exact nofun
        · rw [ne_eq, Option.some.injEq,
            lawful.ratchetKey_inj (by omega) hmessage.chain_lt]
          omega
      rw [if_neg hdhr] at hskip
      obtain ⟨t, hsettle, ht, htnr⟩ := h.skip_closed lawful hmessage hskip.1 hzero
      have hturned := ht.dhRatchet lawful hmessage htnr hdrawn hnew
      rw [if_pos hdhr, hsettle, if_pos rfl]
      dsimp only
      refine and_assoc.1 ⟨?_, iff_of_true ⟨hlookup, hdhr, (skipMessageKeys_ok hsettle).2⟩ rfl⟩
      refine hturned.decryptCurrent_ahead lawful hmessage (Nat.succ_pos _) (Nat.zero_le _) ?_ hi
        hlength
      rw [← hmessage.n]
      exact hskip.2
    · -- The chain it is receiving on, as an earlier one would be behind it.
      have hcurrent : level = j + 1 := by
        by_contra hne
        exact hpassed ⟨by omega, hodd, by rwa [if_neg (Ne.symm hne)]⟩
      subst hcurrent
      have hdhr : r.dhr = some message.header.dh := by
        rw [h.dhr, if_neg (Nat.succ_ne_zero j), hmessage.dh]
        rfl
      have hnr : r.nr ≤ i := by
        by_contra hlt
        exact hpassed ⟨Nat.le_refl _, hodd, by rw [if_pos rfl]; omega⟩
      have hpos : 0 < j := by
        rcases Nat.eq_zero_or_pos j with rfl | hpos
        · rw [hzero] at hi
          exact absurd hi (Nat.not_lt_zero _)
        · exact hpos
      rw [if_pos hdhr, hmessage.n] at hskip
      rw [if_neg (not_not_intro hdhr), if_neg hnext]
      refine and_assoc.1 ⟨?_, iff_of_false (fun hturns => hturns.2.1 hdhr) hnext⟩
      exact h.decryptCurrent_ahead lawful hmessage hpos hnr hskip hi hlength

/-! ## A later delivery, and what the peer does -/

/-- A message opened before is turned away, unless it would turn the ratchet back. -/
theorem turnedAway (lawful : S.Lawful) (h : Party S level length opened r)
    (hmessage : S.IsMessage length j i message plaintext) (hopened : opened j i)
    (hodd : (level + j) % 2 = 1)
    (hback : r.dhr = some message.header.dh ∨ r.RefusesToSkip message.header.pn) :
    r.TurnedAway message := by
  have hpassed := h.opened_passed j i hopened hodd
  refine ⟨?_, ?_⟩
  · rw [Option.eq_none_iff_forall_ne_some]
    intro mk hsome
    rw [hmessage.dh, hmessage.n, h.pending _ _ _ hmessage.chain_lt] at hsome
    exact hsome.2.2 hopened
  · split
    next hdhr =>
      -- The current chain: the position is behind the receiving one.
      obtain ⟨k, rfl⟩ : ∃ k, level = k + 1 := ⟨level - 1, by have := hpassed.1; omega⟩
      rw [h.dhr, if_neg (Nat.succ_ne_zero k), hmessage.dh, Option.some.injEq,
        Nat.add_sub_cancel, lawful.ratchetKey_inj (Nat.lt_of_succ_lt h.level_lt) hmessage.chain_lt]
        at hdhr
      subst hdhr
      cases hckr : r.ckr with
      | none => exact .inr rfl
      | some ckr =>
        refine .inl ?_
        have hlt := hpassed.2.2
        rw [if_pos rfl, ← hmessage.n] at hlt
        unfold RefusesToSkip
        rw [hckr]
        exact .inl hlt
    next hdhr => exact hback.resolve_left hdhr

/-- Sending takes the next position of the party's chain, also where the cipher fails. -/
theorem encrypt (h : Party S level length opened r) (plaintext : Bytes) (hlevel : 0 < level)
    (hns : length level + 1 < 2 ^ 32) :
    Party S level (Function.update length level (length level + 1)) opened
        (r.encrypt S.primitives plaintext).2 ∧
      ∀ message, (r.encrypt S.primitives plaintext).1 = .ok message →
        S.IsMessage length level (length level) message plaintext := by
  have hcks : r.cks = some (S.chainKey level (length level)) := by
    rw [h.cks, if_neg (Nat.pos_iff_ne_zero.1 hlevel), h.ns]
  have hnext : next r.ns = length level + 1 := by
    rw [h.ns]
    exact Nat.mod_eq_of_lt hns
  have hlow : ∀ j, j < level →
      Function.update length level (length level + 1) j = length j :=
    fun j hj => Function.update_of_ne (Nat.ne_of_lt hj) ..
  have hpassed : ∀ {j i}, Passed level r.nr length j i ↔
      Passed level r.nr (Function.update length level (length level + 1)) j i :=
    passed_congr fun j hj => hlow j (by omega)
  have hparty : Party S level (Function.update length level (length level + 1)) opened
      { r with cks := some (S.chainKey level (length level + 1)), ns := next r.ns } := {
    h with
    cks := by rw [if_neg (Nat.pos_iff_ne_zero.1 hlevel), hnext]
    ns := by rw [Function.update_self, hnext]
    nr_le := by
      rw [hlow _ (by omega)]
      exact h.nr_le
    pn := by
      refine h.pn.trans ?_
      split
      · rfl
      · exact (hlow _ (by omega)).symm
    pending := fun j i mk hj => by rw [h.pending j i mk hj, hpassed]
    opened_passed := fun j i hopened hodd => hpassed.1 (h.opened_passed j i hopened hodd) }
  have haad : r.aadFor ⟨r.dhs.publicKey, r.pn, r.ns⟩ =
      S.associatedData ++ Header.encode ⟨r.dhs.publicKey, r.pn, r.ns⟩ := congrArg (· ++ _) h.ad
  unfold DoubleRatchet.encrypt
  rw [hcks]
  dsimp only
  split
  next ciphertext hseal =>
    refine ⟨hparty, ?_⟩
    rintro message ⟨⟩
    refine ⟨h.level_lt, congrArg EphemeralKeyPair.publicKey h.dhs, h.pn, h.ns, ?_⟩
    rw [← haad]
    exact hseal
  next e _ => exact ⟨hparty, fun message hmessage => by cases hmessage⟩

/-- What the other party opens does not concern this one. -/
theorem andOpened (h : Party S level length opened r) (heven : (level + j) % 2 = 0) :
    Party S level length (AndOpened opened j i) r where
  __ := h
  pending j' i' mk hj' := by
    refine (h.pending j' i' mk hj').trans (and_congr_right' ?_)
    refine and_congr_right fun hpassed => not_congr (or_iff_left ?_).symm
    rintro ⟨rfl, _⟩
    have hodd := hpassed.2.1
    omega
  opened_passed j' i' := by
    rintro (hopened | ⟨rfl, _⟩) hodd
    · exact h.opened_passed j' i' hopened hodd
    · omega

/-- The peer has sent on its chain. -/
theorem ofLength {length' : Nat → Nat} (h : Party S level length opened r)
    (hlevel : length' level = length level) (hpeer : length (level - 1) ≤ length' (level - 1))
    (hlow : ∀ j, j + 1 < level → length' j = length j) : Party S level length' opened r where
  __ := h
  ns := h.ns.trans hlevel.symm
  nr_le := Nat.le_trans h.nr_le hpeer
  pn := by
    rw [h.pn]
    split
    · rfl
    · exact (hlow _ (by omega)).symm
  pending j i mk hj := by rw [h.pending j i mk hj, passed_congr hlow]
  opened_passed j i hopened hodd := (passed_congr hlow).1 (h.opened_passed j i hopened hodd)

end Party

end Whispee.Ratchet
