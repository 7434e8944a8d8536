import Whispee.Lib.Tasks
import Whispee.Lib.Transition
import Whispee.Ratchet.Party

/-!
# Delivery

What two parties encrypt for each other, handed over in any order and any number of times, or
never. Each message opens the first time and fails every later time (`first_delivery_opens`),
unless a message of an earlier chain comes a second time while the receiving position has not gone
past the chain length it announces: it turns the ratchet back to a key that is gone, and what is
on its way is lost (`second_delivery_turns_back`).
-/

namespace Whispee.Ratchet

open DoubleRatchet Tasks Transition

inductive Side where
  | initiator
  | responder
  deriving DecidableEq

def Side.other : Side → Side
  | .initiator => .responder
  | .responder => .initiator

@[simp] theorem Side.other_other (side : Side) : side.other.other = side := by
  cases side <;> rfl

theorem Side.eq_or_eq_other (side side' : Side) : side' = side ∨ side' = side.other := by
  cases side <;> cases side' <;> decide

theorem Side.forall_of {P : Side → Prop} (side : Side) (h : P side) (h' : P side.other) :
    ∀ side', P side' := by
  intro side'
  rcases side.eq_or_eq_other side' with rfl | rfl
  · exact h
  · exact h'

theorem Side.other_ne (side : Side) : side.other ≠ side := by
  cases side <;> decide

/-- A message on its way, with the text it was made of. -/
structure Sent where
  sender : Side
  message : Message
  plaintext : Bytes

structure Exchange where
  party : Side → DoubleRatchet
  /-- How many secrets have been drawn. -/
  drawn : Nat
  sent : List Sent
  /-- The deliveries in their order: which message, and what `decrypt` returned. -/
  outcomes : List (Nat × Except RatchetError Bytes)

inductive Action where
  | encrypt (side : Side) (plaintext : Bytes)
  | deliver (k : Nat)

namespace Exchange

variable {S : Setup} {e e' : Exchange} {k : Nat} {m : Sent}

section
variable (S)

def start : Exchange where
  party
    | .initiator => initInitiator S.primitives (S.secret 1) S.sharedSecret S.associatedData
        (S.ratchetKey 0)
    | .responder => initResponder S.sharedSecret S.associatedData (S.pair 0)
  drawn := 2
  sent := []
  outcomes := []

variable (e : Exchange)

def setParty (side : Side) (r : DoubleRatchet) : Exchange :=
  { e with party := Function.update e.party side r }

def encrypt (side : Side) (plaintext : Bytes) : Exchange :=
  match (e.party side).encrypt S.primitives plaintext with
  | (.ok message, r) =>
    { e.setParty side r with sent := e.sent ++ [⟨side, message, plaintext⟩] }
  | (.error _, r) => e.setParty side r

def deliver (k : Nat) (m : Sent) : Exchange :=
  let r := e.party m.sender.other
  let (result, r') := r.decrypt S.primitives (S.secret e.drawn) m.message
  { e.setParty m.sender.other r' with
    drawn := if r.Turns m.message then e.drawn + 1 else e.drawn
    outcomes := e.outcomes ++ [(k, result)] }

def step : Action → Option Exchange
  | .encrypt side plaintext => some (e.encrypt S side plaintext)
  | .deliver k => if e.drawn < S.secrets.length then e.sent[k]?.map (e.deliver S k) else none

end

/-- Message `k` has been delivered. -/
def Delivered (e : Exchange) (k : Nat) : Prop := k ∈ e.outcomes.map Prod.fst

/-- No sending counter runs out; a message delivered for the first time makes no chain skip too
far; and one delivered again comes on the current chain, or its skip to the end of the previous
chain is refused. -/
def guard (e : Exchange) : Action → Bool
  | .encrypt side _ => (e.party side).ns + 1 < 2 ^ 32
  | .deliver k =>
    match e.sent[k]? with
    | none => false
    | some m =>
      let r := e.party m.sender.other
      if k ∈ e.outcomes.map Prod.fst then
        r.dhr = some m.message.header.dh ∨ r.RefusesToSkip m.message.header.pn
      else r.WithinSkip m.message

/-- Each delivery of a message returned its text if it was the first of this message, and an error
if it was a later one. -/
def OpensOnce (e : Exchange) : Prop :=
  ∀ n k result, e.outcomes[n]? = some (k, result) → ∃ m, e.sent[k]? = some m ∧
    (k ∉ (e.outcomes.take n).map Prod.fst → result = .ok m.plaintext) ∧
    (k ∈ (e.outcomes.take n).map Prod.fst → ∃ error, result = .error error)

/-! ## The invariant -/

/-- The message of this position has been delivered. -/
def Opened (S : Setup) (e : Exchange) (j i : Nat) : Prop :=
  j < S.secrets.length ∧ ∃ k m, e.Delivered k ∧ e.sent[k]? = some m ∧
    m.message.header.dh = S.ratchetKey j ∧ m.message.header.n = i

structure Inv (S : Setup) (level : Side → Nat) (length : Nat → Nat) (e : Exchange) : Prop where
  adjacent : ∀ side, level side + 1 = level side.other ∨ level side.other + 1 = level side
  below : ∀ side, level side < e.drawn
  above : ∀ side, e.drawn ≤ level side + 2
  length_zero : length 0 = 0
  length_new : ∀ j, e.drawn ≤ j → length j = 0
  length_lt : ∀ j, length j < 2 ^ 32
  party : ∀ side, Party S (level side) length (e.Opened S) (e.party side)
  sent : ∀ (k : Nat) (m : Sent), e.sent[k]? = some m → ∃ j i, j < e.drawn ∧
    (level m.sender + j) % 2 = 0 ∧ i < length j ∧ S.IsMessage length j i m.message m.plaintext
  /-- No position is sent twice. -/
  distinct : ∀ (k k' : Nat) (m m' : Sent), e.sent[k]? = some m → e.sent[k']? = some m' →
    m.message.header.dh = m'.message.header.dh → m.message.header.n = m'.message.header.n → k = k'
  opensOnce : e.OpensOnce

theorem inv_start (lawful : S.Lawful) :
    Inv S (fun side => if side = .initiator then 1 else 0) (fun _ => 0) (start S) where
  adjacent side := by cases side <;> decide
  below side := by
    show _ < 2
    cases side <;> decide
  above side := by
    show 2 ≤ _
    cases side <;> decide
  length_zero := rfl
  length_new _ _ := rfl
  length_lt _ := by decide
  party side := by
    have none_opened : ∀ j i, ¬ Opened S (start S) j i := by
      rintro j i ⟨_, k, m, hk, _⟩
      cases hk
    have none_passed : ∀ {level j i}, ¬ Passed level 0 (fun _ => 0) j i := by
      rintro level j i ⟨_, _, hi⟩
      rw [ite_self] at hi
      exact Nat.not_lt_zero _ hi
    cases side with
    | initiator =>
      exact {
        level_lt := lawful.two_le
        dhs := rfl
        dhr := rfl
        rk := rfl
        cks := rfl
        ckr := rfl
        ns := rfl
        nr_le := Nat.le_refl _
        pn := rfl
        ad := rfl
        pending := fun j i mk _ =>
          iff_of_false (fun hsome => by cases hsome) fun h => none_passed h.2.1
        opened_passed := fun j i hopened => absurd hopened (none_opened j i) }
    | responder =>
      exact {
        level_lt := Nat.lt_of_succ_lt lawful.two_le
        dhs := rfl
        dhr := rfl
        rk := rfl
        cks := rfl
        ckr := rfl
        ns := rfl
        nr_le := Nat.le_refl _
        pn := rfl
        ad := rfl
        pending := fun j i mk _ =>
          iff_of_false (fun hsome => by cases hsome) fun h => none_passed h.2.1
        opened_passed := fun j i hopened => absurd hopened (none_opened j i) }
  sent k m hm := by cases hm
  distinct k k' m m' hm := by cases hm
  opensOnce n k result h := by cases h

/-- What `encrypt` adds to what has been sent. -/
theorem sent_encrypt (h : (e.encrypt S side plaintext).sent[k]? = some m) :
    e.sent[k]? = some m ∨ k = e.sent.length ∧
      ∃ message, ((e.party side).encrypt S.primitives plaintext).1 = .ok message ∧
        m = ⟨side, message, plaintext⟩ := by
  unfold encrypt at h
  split at h
  next message r hencrypt =>
    refine (getElem?_concat_eq_some_iff.1 h).imp_right ?_
    rintro ⟨hk, rfl⟩
    exact ⟨hk, message, by rw [hencrypt], rfl⟩
  · exact .inl h

theorem sent_of_encrypt (h : e.sent[k]? = some m) :
    (e.encrypt S side plaintext).sent[k]? = some m := by
  unfold encrypt
  split
  · exact (List.getElem?_append_left (List.getElem?_eq_some_iff.1 h).1).trans h
  · exact h

theorem party_encrypt : (e.encrypt S side plaintext).party = Function.update e.party side
    ((e.party side).encrypt S.primitives plaintext).2 := by
  unfold encrypt
  split
  next h => rw [h]; rfl
  next h => rw [h]; rfl

theorem drawn_encrypt : (e.encrypt S side plaintext).drawn = e.drawn := by
  unfold encrypt
  split <;> rfl

theorem outcomes_encrypt : (e.encrypt S side plaintext).outcomes = e.outcomes := by
  unfold encrypt
  split <;> rfl

namespace Inv

variable {level : Side → Nat} {length : Nat → Nat}

theorem sent_of_delivered (h : Inv S level length e) (hk : e.Delivered k) :
    ∃ m, e.sent[k]? = some m := by
  obtain ⟨⟨k, result⟩, hmem, rfl⟩ := List.mem_map.1 hk
  obtain ⟨n, hn⟩ := List.getElem?_of_mem hmem
  obtain ⟨m, hm, _⟩ := h.opensOnce n k result hn
  exact ⟨m, hm⟩

theorem opened_encrypt (h : Inv S level length e) :
    (e.encrypt S side plaintext).Opened S = e.Opened S := by
  funext j i
  unfold Opened Delivered
  rw [outcomes_encrypt]
  refine propext (and_congr_right fun _ => ⟨?_, ?_⟩)
  · rintro ⟨k, m, hk, hm, hat⟩
    obtain ⟨m', hm'⟩ := h.sent_of_delivered hk
    cases (sent_of_encrypt hm').symm.trans hm
    exact ⟨k, m, hk, hm', hat⟩
  · rintro ⟨k, m, hk, hm, hat⟩
    exact ⟨k, m, hk, sent_of_encrypt hm, hat⟩

/-- A position nobody has sent on a chain of the exchange. -/
theorem fresh_position (lawful : S.Lawful) (h : Inv S level length e)
    (hm : e.sent[k]? = some m) (hj : j < S.secrets.length)
    (hdh : m.message.header.dh = S.ratchetKey j) : m.message.header.n < length j := by
  obtain ⟨j', i, _, _, hi, hmessage⟩ := h.sent k m hm
  rw [hmessage.dh, lawful.ratchetKey_inj hmessage.chain_lt hj] at hdh
  rw [← hdh, hmessage.n]
  exact hi

/-- A party at level zero has no chain to send on. -/
theorem encrypt_none (h : Party S 0 length opened r) :
    r.encrypt S.primitives plaintext = (.error .NoSession, r) := by
  unfold DoubleRatchet.encrypt
  rw [h.cks]
  rfl

theorem encrypt (lawful : S.Lawful) (h : Inv S level length e) (plaintext : Bytes)
    (hns : (e.party side).ns + 1 < 2 ^ 32) :
    ∃ length', Inv S level length' (e.encrypt S side plaintext) := by
  have hparty := h.party side
  rcases Nat.eq_zero_or_pos (level side) with hzero | hpos
  · -- Nothing happens.
    refine ⟨length, ?_⟩
    rw [hzero] at hparty
    unfold Exchange.encrypt
    rw [encrypt_none hparty]
    dsimp only [setParty]
    rw [Function.update_eq_self]
    exact h
  · rw [hparty.ns] at hns
    obtain ⟨hnew, hmessage⟩ := hparty.encrypt plaintext hpos hns
    have hbelow := h.below side
    have habove := h.above side
    have hadjacent := h.adjacent side
    have hkept : ∀ j, j ≠ level side → Function.update length (level side)
        (length (level side) + 1) j = length j := fun j hj => Function.update_of_ne hj ..
    have hle : ∀ j, length j ≤ Function.update length (level side)
        (length (level side) + 1) j := by
      intro j
      by_cases hj : j = level side
      · subst hj
        rw [Function.update_self]
        exact Nat.le_succ _
      · rw [hkept j hj]
    refine ⟨_, {
      adjacent := h.adjacent
      below := fun side' => (h.below side').trans_eq drawn_encrypt.symm
      above := fun side' => drawn_encrypt.trans_le (h.above side')
      length_zero := (hkept 0 (by omega)).trans h.length_zero
      length_new := ?_
      length_lt := ?_
      party := ?_
      sent := ?_
      distinct := ?_
      opensOnce := ?_ }⟩
    · intro j hj
      rw [drawn_encrypt] at hj
      exact (hkept j (by omega)).trans (h.length_new j hj)
    · intro j
      by_cases hj : j = level side
      · subst hj
        rw [Function.update_self]
        exact hns
      · rw [hkept j hj]
        exact h.length_lt j
    · intro side'
      rw [h.opened_encrypt, party_encrypt]
      rcases side.eq_or_eq_other side' with rfl | rfl
      · rw [Function.update_self]
        exact hnew
      · rw [Function.update_of_ne side.other_ne]
        refine (h.party side.other).ofLength (hkept _ (by omega)) (hle _) ?_
        exact fun j hj => hkept j (by omega)
    · intro k m hm
      rw [drawn_encrypt]
      rcases sent_encrypt hm with hold | ⟨_, message, hok, rfl⟩
      · obtain ⟨j, i, hj, heven, hi, hsent⟩ := h.sent k m hold
        refine ⟨j, i, hj, heven, Nat.lt_of_lt_of_le hi (hle j), { hsent with pn := ?_ }⟩
        refine hsent.pn.trans ?_
        split
        · rfl
        · exact (hkept _ (by omega)).symm
      · have hsent := hmessage message hok
        refine ⟨level side, length (level side), hbelow, by dsimp only; omega, ?_,
          { hsent with pn := ?_ }⟩
        · rw [Function.update_self]
          exact Nat.lt_succ_self _
        · refine hsent.pn.trans ?_
          split
          · rfl
          · exact (hkept _ (by omega)).symm
    · -- A new message is on the next position of its chain.
      have hnew_ne : ∀ {k : Nat} {m : Sent} {message : Message}, e.sent[k]? = some m →
          ((e.party side).encrypt S.primitives plaintext).1 = .ok message →
          m.message.header.dh = message.header.dh → m.message.header.n ≠ message.header.n := by
        intro k m message hm hok hdh hn
        have hsent := hmessage message hok
        have hlt := h.fresh_position lawful hm hsent.chain_lt (hdh.trans hsent.dh)
        rw [hn, hsent.n] at hlt
        exact Nat.lt_irrefl _ hlt
      intro k k' m m' hm hm' hdh hn
      rcases sent_encrypt hm with hold | ⟨hk, message, hok, rfl⟩
      · rcases sent_encrypt hm' with hold' | ⟨_, message, hok, rfl⟩
        · exact h.distinct k k' m m' hold hold' hdh hn
        · exact absurd hn (hnew_ne hold hok hdh)
      · rcases sent_encrypt hm' with hold' | ⟨hk', _⟩
        · exact absurd hn.symm (hnew_ne hold' hok hdh.symm)
        · exact hk.trans hk'.symm
    · intro n k result hn
      rw [outcomes_encrypt] at hn ⊢
      obtain ⟨m, hm, hresult⟩ := h.opensOnce n k result hn
      exact ⟨m, sent_of_encrypt hm, hresult⟩

/-- Every delivery but the first of a message returns an error, and the first its text. -/
theorem opensOnce_deliver (h : e.OpensOnce) (hm : e.sent[k]? = some m) (r : Exchange)
    (hsent : r.sent = e.sent) (houtcomes : r.outcomes = e.outcomes ++ [(k, result)])
    (hfirst : ¬ e.Delivered k → result = .ok m.plaintext)
    (hlater : e.Delivered k → ∃ error, result = .error error) : r.OpensOnce := by
  intro n k' result' hn
  rw [houtcomes] at hn ⊢
  rw [hsent]
  rcases getElem?_concat_eq_some_iff.1 hn with hold | ⟨rfl, heq⟩
  · have hlt := (List.getElem?_eq_some_iff.1 hold).1
    rw [List.take_append_of_le_length (Nat.le_of_lt hlt)]
    exact h n k' result' hold
  · cases heq
    rw [List.take_left]
    exact ⟨m, hm, hfirst, hlater⟩

/-- A message of the exchange that has been opened has been delivered itself. -/
theorem delivered_of_opened (h : Inv S level length e) (hm : e.sent[k]? = some m)
    (hmessage : S.IsMessage length j i m.message m.plaintext) (hopened : e.Opened S j i) :
    e.Delivered k := by
  obtain ⟨_, k', m', hk', hm', hdh, hn⟩ := hopened
  have heq := h.distinct k k' m m' hm hm' (hmessage.dh.trans hdh.symm) (hmessage.n.trans hn.symm)
  exact heq ▸ hk'

theorem opened_deliver (hm : e.sent[k]? = some m) (lawful : S.Lawful)
    (hmessage : S.IsMessage length j i m.message m.plaintext) (r : Exchange)
    (hsent : r.sent = e.sent) (houtcomes : r.outcomes = e.outcomes ++ [(k, result)]) :
    r.Opened S = Party.AndOpened (e.Opened S) j i := by
  have hdelivered : ∀ k', r.Delivered k' ↔ e.Delivered k' ∨ k' = k := by
    intro k'
    unfold Delivered
    rw [houtcomes, List.map_append, List.mem_append]
    exact or_congr_right List.mem_singleton
  funext j' i'
  refine propext ⟨?_, ?_⟩
  · rintro ⟨hj', k', m', hk', hm', hdh, hn⟩
    rw [hsent] at hm'
    rcases (hdelivered k').1 hk' with hold | rfl
    · exact .inl ⟨hj', k', m', hold, hm', hdh, hn⟩
    · cases hm.symm.trans hm'
      rw [hmessage.dh, lawful.ratchetKey_inj hmessage.chain_lt hj'] at hdh
      exact .inr ⟨hdh.symm, hn.symm.trans hmessage.n⟩
  · rintro (⟨hj', k', m', hk', hm', hat⟩ | ⟨rfl, rfl⟩)
    · exact ⟨hj', k', m', (hdelivered k').2 (.inl hk'), hsent ▸ hm', hat⟩
    · exact ⟨hmessage.chain_lt, k, m, (hdelivered k).2 (.inr rfl), hsent ▸ hm, hmessage.dh,
        hmessage.n⟩

theorem andOpened_of_opened {opened : Nat → Nat → Prop} (h : opened j i) :
    Party.AndOpened opened j i = opened := by
  funext j' i'
  refine propext (or_iff_left_of_imp ?_)
  rintro ⟨rfl, rfl⟩
  exact h

/-- A message comes again, and nothing changes. -/
theorem deliver_again (lawful : S.Lawful) (h : Inv S level length e) (hm : e.sent[k]? = some m)
    (hdelivered : e.Delivered k)
    (hback : (e.party m.sender.other).dhr = some m.message.header.dh ∨
      (e.party m.sender.other).RefusesToSkip m.message.header.pn) :
    Inv S level length (e.deliver S k m) := by
  obtain ⟨j, i, _, heven, _, hmessage⟩ := h.sent k m hm
  have hadjacent := h.adjacent m.sender
  have hopened : e.Opened S j i :=
    ⟨hmessage.chain_lt, k, m, hdelivered, hm, hmessage.dh, hmessage.n⟩
  have haway := (h.party m.sender.other).turnedAway lawful hmessage hopened (by omega) hback
  have hstate : ((e.party m.sender.other).decrypt S.primitives (S.secret e.drawn) m.message).2 =
      e.party m.sender.other := decrypt_unchanged_iff.2 haway
  have hnot : ¬ (e.party m.sender.other).Turns m.message :=
    fun hturns => hback.elim hturns.2.1 hturns.2.2
  have hopened_eq : (e.deliver S k m).Opened S = e.Opened S :=
    (opened_deliver hm lawful hmessage (e.deliver S k m) rfl rfl).trans
      (andOpened_of_opened hopened)
  have hdrawn : (e.deliver S k m).drawn = e.drawn := if_neg hnot
  have hparty : (e.deliver S k m).party = e.party :=
    (congrArg (Function.update e.party m.sender.other) hstate).trans (Function.update_eq_self ..)
  refine { h with
    below := fun side => (h.below side).trans_eq hdrawn.symm
    above := fun side => hdrawn.trans_le (h.above side)
    length_new := fun j hj => h.length_new j (hdrawn.symm.trans_le hj)
    party := fun side => by rw [hopened_eq, hparty]; exact h.party side
    sent := fun k m hm => by rw [hdrawn]; exact h.sent k m hm
    opensOnce := ?_ }
  refine opensOnce_deliver h.opensOnce hm _ rfl rfl (fun hfirst => absurd hdelivered hfirst) ?_
  exact fun _ => decrypt_error_of_turnedAway haway

/-- A message comes for the first time, and opens. -/
theorem deliver_first (lawful : S.Lawful) (h : Inv S level length e) (hm : e.sent[k]? = some m)
    (hfirst : ¬ e.Delivered k) (hsecret : e.drawn < S.secrets.length)
    (hskip : (e.party m.sender.other).WithinSkip m.message) :
    ∃ level', Inv S level' length (e.deliver S k m) := by
  obtain ⟨j, i, hj, heven, hi, hmessage⟩ := h.sent k m hm
  have hadjacent := h.adjacent m.sender
  have habove := h.above m.sender.other
  have habove_self := h.above m.sender
  have hbelow := h.below m.sender.other
  have hsender := h.below m.sender
  have hnot : ¬ e.Opened S j i := fun hopened => hfirst (h.delivered_of_opened hm hmessage hopened)
  have hdraws : j = level m.sender.other + 1 →
      e.drawn = level m.sender.other + 2 ∧ e.drawn < S.secrets.length ∧ length e.drawn = 0 :=
    fun heq => ⟨by omega, hsecret, h.length_new _ (Nat.le_refl _)⟩
  obtain ⟨hresult, hparty, hturns⟩ := (h.party m.sender.other).decrypt_first lawful hmessage hi
    hnot (by omega) (by omega) hskip h.length_zero (h.length_lt j) hdraws
  have hopened_eq : (e.deliver S k m).Opened S = Party.AndOpened (e.Opened S) j i :=
    opened_deliver hm lawful hmessage (e.deliver S k m) rfl rfl
  have hlevel : ∃ level' : Side → Nat, level' m.sender = level m.sender ∧
      level' m.sender.other = if j = level m.sender.other + 1 then level m.sender.other + 2
        else level m.sender.other :=
    ⟨Function.update level m.sender.other _, Function.update_of_ne m.sender.other_ne.symm ..,
      Function.update_self ..⟩
  obtain ⟨level', hself, hother⟩ := hlevel
  have hdrawn : (e.deliver S k m).drawn = if j = level m.sender.other + 1 then e.drawn + 1
      else e.drawn := if_congr hturns rfl rfl
  have hparty_self : (e.deliver S k m).party m.sender = e.party m.sender :=
    Function.update_of_ne m.sender.other_ne.symm ..
  have hparty_other : (e.deliver S k m).party m.sender.other =
      ((e.party m.sender.other).decrypt S.primitives (S.secret e.drawn) m.message).2 :=
    Function.update_self ..
  -- The receiver stays where it is, or goes past the sender.
  have hmove : level' m.sender.other = level m.sender.other ∧ (e.deliver S k m).drawn = e.drawn ∨
      level' m.sender.other = level m.sender + 1 ∧ (e.deliver S k m).drawn = e.drawn + 1 ∧
        level m.sender = level m.sender.other + 1 := by
    rw [hother, hdrawn]
    by_cases hnext : j = level m.sender.other + 1
    · rw [if_pos hnext, if_pos hnext]
      omega
    · rw [if_neg hnext, if_neg hnext]
      exact .inl ⟨rfl, rfl⟩
  have hle : e.drawn ≤ (e.deliver S k m).drawn := by omega
  have hadjacent_new : level' m.sender + 1 = level' m.sender.other ∨
      level' m.sender.other + 1 = level' m.sender := by omega
  refine ⟨level', {
    adjacent := m.sender.forall_of hadjacent_new (by rwa [m.sender.other_other, or_comm])
    below := m.sender.forall_of (by omega) (by omega)
    above := m.sender.forall_of (by omega) (by omega)
    length_zero := h.length_zero
    length_new := fun j hj => h.length_new j (Nat.le_trans hle hj)
    length_lt := h.length_lt
    party := m.sender.forall_of ?_ ?_
    sent := ?_
    distinct := h.distinct
    opensOnce := ?_ }⟩
  · rw [hself, hparty_self, hopened_eq]
    exact (h.party m.sender).andOpened heven
  · rw [hother, hparty_other, hopened_eq]
    exact hparty
  · intro k' m' hm'
    obtain ⟨j', i', hj', heven', hi', hmessage'⟩ := h.sent k' m' hm'
    refine ⟨j', i', Nat.lt_of_lt_of_le hj' hle, ?_, hi', hmessage'⟩
    rcases m.sender.eq_or_eq_other m'.sender with hside | hside
    · rw [hside] at heven' ⊢
      rw [hself]
      exact heven'
    · rw [hside] at heven' ⊢
      omega
  · exact opensOnce_deliver h.opensOnce hm _ rfl rfl (fun _ => hresult) fun h => absurd h hfirst

end Inv

/-- The invariant holds, at some levels and for some lengths of the chains. -/
def Sound (S : Setup) (e : Exchange) : Prop := ∃ level length, Inv S level length e

theorem Sound.step (lawful : S.Lawful) (h : Sound S e) (hguard : e.guard a)
    (hstep : e.step S a = some e') : Sound S e' := by
  obtain ⟨level, length, h⟩ := h
  cases a with
  | encrypt side plaintext =>
    cases hstep
    obtain ⟨length', h'⟩ := h.encrypt lawful plaintext (of_decide_eq_true hguard)
    exact ⟨level, length', h'⟩
  | deliver k =>
    obtain ⟨hsecret, hstep⟩ := Option.ite_none_right_eq_some.1 hstep
    obtain ⟨m, hm, rfl⟩ := Option.map_eq_some_iff.1 hstep
    simp only [guard, hm] at hguard
    split at hguard
    next hagain =>
      exact ⟨level, length, h.deliver_again lawful hm hagain (of_decide_eq_true hguard)⟩
    next hfirst =>
      obtain ⟨level', h'⟩ := h.deliver_first lawful hm hfirst hsecret (of_decide_eq_true hguard)
      exact ⟨level', length, h'⟩

theorem sound_of_reach (lawful : S.Lawful)
    (h : Reach (step S) (fun e a => e.guard a) (start S) e) : Sound S e :=
  h.invariant ⟨_, _, inv_start lawful⟩ fun h hguard hstep => h.step lawful hguard hstep

/-! ## What every delivery returns -/

/-- In an exchange that keeps to the guard, every message opens the first time it is delivered and
fails every later time. -/
theorem first_delivery_opens (lawful : S.Lawful)
    (h : Reach (step S) (fun e a => e.guard a) (start S) e) : e.OpensOnce := by
  obtain ⟨level, length, inv⟩ := sound_of_reach lawful h
  exact inv.opensOnce

/-- Small primitives, and secrets for seven turns. -/
def smallSetup : Setup where
  primitives := smallPrimitives
  secrets := (List.range 9).map fun j => List.replicate 32 (.ofNat (j + 3))
  sharedSecret := List.replicate 32 1
  associatedData := [2]

theorem smallSetup_lawful : smallSetup.Lawful where
  primitives := smallPrimitives_lawful
  two_le := by decide
  fresh := by decide +kernel

/-- Messages that overtake each other across a turn of the ratchet, one that comes twice, and one
that comes after the chain it is on was closed. -/
def overtaking : List Action :=
  [.encrypt .initiator [10], .encrypt .initiator [11], .encrypt .initiator [12], .deliver 1,
    .encrypt .responder [20], .deliver 3, .encrypt .initiator [13], .deliver 4, .deliver 0,
    .deliver 0, .deliver 2, .deliver 1]

theorem first_delivery_opens_overtaking :
    ∃ e, Reach (step smallSetup) (fun e a => e.guard a) (start smallSetup) e ∧
      e.outcomes = [(1, .ok [11]), (3, .ok [20]), (4, .ok [13]), (0, .ok [10]),
        (0, .error .MessageKeyGone), (2, .ok [12]), (1, .error .MessageKeyGone)] ∧
      e.OpensOnce := by
  have outcomes : (run (fun e a => if e.guard a then step smallSetup e a else none)
      (start smallSetup) overtaking).map Exchange.outcomes =
        some [(1, .ok [11]), (3, .ok [20]), (4, .ok [13]), (0, .ok [10]),
          (0, .error .MessageKeyGone), (2, .ok [12]), (1, .error .MessageKeyGone)] := by
    decide +kernel
  obtain ⟨e, hrun, houtcomes⟩ := Option.map_eq_some_iff.1 outcomes
  have reach := reach_of_run_guarded hrun
  exact ⟨e, reach, houtcomes, first_delivery_opens smallSetup_lawful reach⟩

/-- No sending counter runs out and no delivery makes a chain skip too far. -/
def skipsWithin (e : Exchange) : Action → Bool
  | .encrypt side _ => (e.party side).ns + 1 < 2 ^ 32
  | .deliver k =>
    match e.sent[k]? with
    | none => false
    | some m => (e.party m.sender.other).WithinSkip m.message

/-- Each side turns twice; then the first message of the initiator's second chain comes again. -/
def turningBack : List Action :=
  [.encrypt .initiator [10], .deliver 0, .encrypt .responder [20], .deliver 1,
    .encrypt .initiator [11], .deliver 2, .encrypt .responder [21], .deliver 3,
    .encrypt .initiator [12], .deliver 4, .deliver 2, .encrypt .initiator [13], .deliver 5]

/-- The second delivery of message 2 fails, and so does the only one of message 5. -/
theorem second_delivery_turns_back :
    ∃ e, Reach (step smallSetup) (fun e a => e.skipsWithin a) (start smallSetup) e ∧
      ¬ e.OpensOnce := by
  have outcomes : (run (fun e a => if e.skipsWithin a then step smallSetup e a else none)
      (start smallSetup) turningBack).map Exchange.outcomes =
        some [(0, .ok [10]), (1, .ok [20]), (2, .ok [11]), (3, .ok [21]), (4, .ok [12]),
          (2, .error .DecryptionFailed), (5, .error .DecryptionFailed)] := by
    decide +kernel
  obtain ⟨e, hrun, houtcomes⟩ := Option.map_eq_some_iff.1 outcomes
  refine ⟨e, reach_of_run_guarded hrun, fun h => ?_⟩
  obtain ⟨m, _, hfirst, _⟩ := h 6 5 (.error .DecryptionFailed) (by rw [houtcomes]; rfl)
  rw [houtcomes] at hfirst
  cases hfirst (by decide)

end Exchange

end Whispee.Ratchet
