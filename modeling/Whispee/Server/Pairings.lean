import Whispee.Lib.Tasks
import Whispee.Lib.Transition
import Whispee.Server.Groups

/-!
# The drop box of a pairing

`deposit_pairing` and `claim_pairing` of `crates/server/src/routes.rs`, and the pass of `purge_once`
of `lib.rs` over `pairings`. A request comes down to one statement: it starts, at a time that is its
`now()`, with the rows it sees, and takes effect later on those of them that are still as it wants
them. Times are microseconds.
-/

namespace Whispee.Server.Pairings

open Auth (seconds)
open Groups (decodeB64 json)
open Transition

/-- Lifetime of a pairing packet, in seconds. -/
def PAIRING_TTL_SECONDS : Nat := 300

def PAIRING_ID_LEN : Nat := 16

/-- The longest packet. -/
def MAX_PACKET_LEN : Nat := 64 * 1024

/-- A row of `pairings`, and which of the deposits made it. -/
structure Row where
  number : Nat
  id : Bytes
  payload : Bytes
  expiresAt : Nat
  claimedAt : Option Nat
  deriving DecidableEq

inductive Request where
  | deposit (id payload : Bytes)
  | claim (id : Bytes)
  | purge
  deriving DecidableEq

/-- The rows the statement of a request acts on, as it starts at a time. -/
def Request.selects (now : Nat) : Request → Row → Bool
  | .deposit _ _, _ => false
  | .claim id, row => row.id = id ∧ row.claimedAt = none ∧ now < row.expiresAt
  | .purge, row => row.expiresAt < now

inductive Phase where
  /-- The statement has started, on the rows of these numbers. -/
  | running (began : Nat) (seen : List Nat)
  | deposited
  | claimed (payload : Bytes)
  | purged
  | refused (error : ApiError)
  deriving DecidableEq

structure Task where
  request : Request
  phase : Phase

/-- `deposit_pairing`, what it checks of the request. -/
def depositPairing (pairingId : String) (payload : Option String) : Except ApiError Request := do
  let id ← (fromHex pairingId).elim (.error (.badRequest "invalid pairing id")) .ok
  if id.length ≠ PAIRING_ID_LEN then .error (.badRequest "pairing id of invalid length")
  let payload ← json payload
  let blob ← decodeB64 payload
  if blob.isEmpty ∨ blob.length > MAX_PACKET_LEN then
    .error (.badRequest "pairing packet of invalid length")
  else .ok (.deposit id blob)

/-- `claim_pairing`, what it checks of the request. -/
def claimPairing (pairingId : String) : Except ApiError Request := do
  let id ← (fromHex pairingId).elim (.error (.badRequest "invalid pairing id")) .ok
  .ok (.claim id)

/-! ## The server -/

/-- A deposit that was accepted: its row as inserted, when its statement started and when it took
effect. -/
structure Deposit where
  row : Row
  began : Nat
  inserted : Nat
  deriving DecidableEq

/-- A packet handed out: to which request, from which deposit, and when its statement started. -/
structure Handed where
  task : Nat
  number : Nat
  payload : Bytes
  began : Nat
  deriving DecidableEq

structure State where
  time : Nat
  rows : List Row
  tasks : List Task
  deposits : List Deposit
  handed : List Handed

inductive Action where
  | pass (time : Nat)
  | deposit (pairingId : String) (payload : Option String)
  | claim (pairingId : String)
  | purge
  /-- The statement of a request takes effect. -/
  | effect (task : Nat)
  /-- It takes effect, and its answer is lost. -/
  | lose (task : Nat)
  /-- It fails. -/
  | fail (task : Nat)

namespace State

def receive (s : State) : Except ApiError Request → State
  | .ok request =>
    let seen := (s.rows.filter (request.selects s.time)).map (·.number)
    { s with tasks := s.tasks ++ [⟨request, .running s.time seen⟩] }
  | .error _ => s

/-- The row of a deposit. -/
def inserted (s : State) (id payload : Bytes) (began : Nat) : Row where
  number := s.deposits.length
  id := id
  payload := payload
  expiresAt := began + seconds PAIRING_TTL_SECONDS
  claimedAt := none

/-- The row a claim finds still unclaimed. -/
def unclaimed? (s : State) (seen : List Nat) : Option Row :=
  s.rows.find? fun row => row.number ∈ seen ∧ row.claimedAt = none

/-- A statement takes effect, and its request is answered. -/
def effect (s : State) (i : Nat) (request : Request) (began : Nat) (seen : List Nat) :
    State × Phase :=
  match request with
  | .deposit id payload =>
    if s.rows.any (·.id = id) then
      (s, .refused (.conflict "pairing already in progress for this id"))
    else
      let row := s.inserted id payload began
      ({ s with rows := s.rows ++ [row], deposits := s.deposits ++ [⟨row, began, s.time⟩] },
        .deposited)
  | .claim _ =>
    match s.unclaimed? seen with
    | none => (s, .refused .notFound)
    | some row =>
      ({ s with
        rows := s.rows.map fun r => if r.number = row.number then { r with claimedAt := some began } else r
        handed := s.handed ++ [⟨i, row.number, row.payload, began⟩] }, .claimed row.payload)
  | .purge => ({ s with rows := s.rows.filter (·.number ∉ seen) }, .purged)

def setPhase (s : State) (i : Nat) (request : Request) (phase : Phase) : State :=
  { s with tasks := s.tasks.set i ⟨request, phase⟩ }

def step (s : State) : Action → Option State
  | .pass time => if s.time ≤ time then some { s with time } else none
  | .deposit pairingId payload => some (s.receive (depositPairing pairingId payload))
  | .claim pairingId => some (s.receive (claimPairing pairingId))
  | .purge => some (s.receive (.ok .purge))
  | .effect i =>
    match s.tasks[i]? with
    | some ⟨request, .running began seen⟩ =>
      let (s, phase) := s.effect i request began seen
      some (s.setPhase i request phase)
    | _ => none
  | .lose i =>
    match s.tasks[i]? with
    | some ⟨request, .running began seen⟩ =>
      let (s, _) := s.effect i request began seen
      some (s.setPhase i request (.refused .database))
    | _ => none
  | .fail i =>
    match s.tasks[i]? with
    | some ⟨request, .running _ _⟩ => some (s.setPhase i request (.refused .database))
    | _ => none

end State

def empty : State := ⟨0, [], [], [], []⟩

/-! ## What a statement keeps -/

/-- A packet handed out is what was deposited under the id of the claim, which began while the
packet was there and before its end. -/
def Handed.Proper (s : State) (h : Handed) : Prop :=
  ∃ d ∈ s.deposits, d.row.number = h.number ∧ d.row.payload = h.payload ∧
    d.inserted ≤ h.began ∧ h.began < d.row.expiresAt ∧
      ∃ phase, s.tasks[h.task]? = some ⟨.claim d.row.id, phase⟩

/-- The rows, the statements under way and the history agree. -/
structure Kept (s : State) : Prop where
  /-- A number is a place in the history. -/
  numbers : ∀ n (d : Deposit), s.deposits[n]? = some d → d.row.number = n
  deposits : ∀ d ∈ s.deposits, d.row.claimedAt = none ∧
    d.row.expiresAt = d.began + seconds PAIRING_TTL_SECONDS ∧ d.inserted ≤ s.time
  /-- A row is what was deposited, claimed or not. -/
  rows : ∀ row ∈ s.rows, ∃ d ∈ s.deposits, { row with claimedAt := none } = d.row
  distinct : (s.rows.map (·.number)).Nodup
  /-- What is no row any more has expired. -/
  gone : ∀ d ∈ s.deposits, d.row.number ∈ s.rows.map (·.number) ∨ d.row.expiresAt < s.time
  /-- One that comes after another of the same id comes after its end. -/
  apart : s.deposits.Pairwise fun d d' => d.row.id = d'.row.id → d.row.expiresAt < d'.inserted
  /-- What a statement under way has seen was there and met its condition. -/
  seen : ∀ t ∈ s.tasks, ∀ began seen, t.phase = .running began seen → began ≤ s.time ∧
    ∀ n ∈ seen, ∃ d ∈ s.deposits, d.row.number = n ∧ d.inserted ≤ began ∧
      t.request.selects began d.row
  once : (s.handed.map (·.number)).Nodup
  unclaimed : ∀ row ∈ s.rows, row.claimedAt = none → row.number ∉ s.handed.map (·.number)
  proper : ∀ h ∈ s.handed, h.Proper s
  answers : ∀ i request payload, s.tasks[i]? = some ⟨request, .claimed payload⟩ →
    ∃ h ∈ s.handed, h.task = i ∧ h.payload = payload

theorem empty_kept : Kept empty := by
  constructor <;> simp [empty]

namespace Kept

/-- A number belongs to one deposit. -/
theorem eq_of_number (h : Kept s) (hd : d ∈ s.deposits) (hd' : d' ∈ s.deposits)
    (hn : d.row.number = d'.row.number) : d = d' := by
  obtain ⟨n, hget⟩ := List.getElem?_of_mem hd
  obtain ⟨n', hget'⟩ := List.getElem?_of_mem hd'
  rw [h.numbers n d hget, h.numbers n' d' hget'] at hn
  subst hn
  exact Option.some.inj (hget.symm.trans hget')

theorem number_lt (h : Kept s) (hd : d ∈ s.deposits) : d.row.number < s.deposits.length := by
  obtain ⟨n, hget⟩ := List.getElem?_of_mem hd
  rw [h.numbers n d hget]
  exact (List.getElem?_eq_some_iff.1 hget).1

theorem row_number_lt (h : Kept s) (hrow : row ∈ s.rows) : row.number < s.deposits.length := by
  obtain ⟨d, hd, heq⟩ := h.rows row hrow
  exact congrArg Row.number heq ▸ h.number_lt hd

theorem pass (h : Kept s) (later : s.time ≤ time) : Kept { s with time } where
  numbers := h.numbers
  deposits d hd :=
    have ⟨fresh, ends, before⟩ := h.deposits d hd
    ⟨fresh, ends, Nat.le_trans before later⟩
  rows := h.rows
  distinct := h.distinct
  gone d hd := (h.gone d hd).imp_right fun hlt => Nat.lt_of_lt_of_le hlt later
  apart := h.apart
  seen t ht began seen hphase :=
    have ⟨before, hseen⟩ := h.seen t ht began seen hphase
    ⟨Nat.le_trans before later, hseen⟩
  once := h.once
  unclaimed := h.unclaimed
  proper := h.proper
  answers := h.answers

theorem receive (h : Kept s) (request : Except ApiError Request) : Kept (s.receive request) := by
  cases request with
  | error => exact h
  | ok request =>
    refine { h with seen := ?_, proper := ?_, answers := ?_ }
    · intro t ht began seen hphase
      rcases List.mem_append.1 ht with ht | ht
      · exact h.seen t ht began seen hphase
      · cases List.mem_singleton.1 ht
        cases hphase
        refine ⟨Nat.le_refl _, fun n hn => ?_⟩
        obtain ⟨row, hrow, rfl⟩ := List.mem_map.1 hn
        obtain ⟨hrow, hselects⟩ := List.mem_filter.1 hrow
        obtain ⟨d, hd, heq⟩ := h.rows row hrow
        refine ⟨d, hd, (congrArg Row.number heq).symm, (h.deposits d hd).2.2, ?_⟩
        rw [← heq]
        cases request with
        | deposit => exact hselects
        | claim id =>
          simp only [Request.selects, decide_eq_true_eq] at hselects ⊢
          exact ⟨hselects.1, trivial, hselects.2.2⟩
        | purge => exact hselects
    · intro e he
      obtain ⟨d, hd, hnumber, hpayload, hlow, hhigh, phase, at_⟩ := h.proper e he
      exact ⟨d, hd, hnumber, hpayload, hlow, hhigh, phase,
        Tasks.getElem?_concat_eq_some_iff.2 (.inl at_)⟩
    · intro i request' payload at_
      rcases Tasks.getElem?_concat_eq_some_iff.1 at_ with at_ | ⟨_, hnew⟩
      · exact h.answers i request' payload at_
      · cases hnew

/-- A request is answered. -/
theorem setPhase (h : Kept s) (at_ : s.tasks[i]? = some ⟨request, old⟩)
    (ended : ∀ began seen, phase ≠ .running began seen)
    (answered : ∀ payload, phase = .claimed payload →
      ∃ h ∈ s.handed, h.task = i ∧ h.payload = payload) : Kept (s.setPhase i request phase) := by
  refine { h with seen := ?_, proper := ?_, answers := ?_ }
  · intro t ht began seen hphase
    rcases List.mem_or_eq_of_mem_set ht with ht | rfl
    · exact h.seen t ht began seen hphase
    · exact absurd hphase (ended began seen)
  · intro e he
    obtain ⟨d, hd, hnumber, hpayload, hlow, hhigh, phase', at_'⟩ := h.proper e he
    refine ⟨d, hd, hnumber, hpayload, hlow, hhigh, ?_⟩
    by_cases hi : e.task = i
    · rw [hi] at at_' ⊢
      cases at_.symm.trans at_'
      exact ⟨_, (Tasks.getElem?_set_eq_some_iff at_).2 (.inl ⟨rfl, rfl⟩)⟩
    · exact ⟨phase', (Tasks.getElem?_set_eq_some_iff at_).2 (.inr ⟨hi, at_'⟩)⟩
  · intro j request' payload at_'
    rcases (Tasks.getElem?_set_eq_some_iff at_).1 at_' with ⟨rfl, heq⟩ | ⟨_, at_'⟩
    · cases heq
      exact answered payload rfl
    · exact h.answers j request' payload at_'

/-- A packet is deposited under an id there is no row of. -/
theorem deposit (h : Kept s) {id : Bytes} (payload : Bytes) (began : Nat)
    (hfree : ∀ row ∈ s.rows, row.id ≠ id) :
    Kept { s with
      rows := s.rows ++ [s.inserted id payload began]
      deposits := s.deposits ++ [⟨s.inserted id payload began, began, s.time⟩] } where
  numbers n d hget := by
    rcases Tasks.getElem?_concat_eq_some_iff.1 hget with hget | ⟨rfl, rfl⟩
    · exact h.numbers n d hget
    · rfl
  deposits d hd := by
    rcases List.mem_append.1 hd with hd | hd
    · exact h.deposits d hd
    · cases List.mem_singleton.1 hd
      exact ⟨rfl, rfl, Nat.le_refl _⟩
  rows row hrow := by
    rcases List.mem_append.1 hrow with hrow | hrow
    · obtain ⟨d, hd, heq⟩ := h.rows row hrow
      exact ⟨d, List.mem_append_left _ hd, heq⟩
    · cases List.mem_singleton.1 hrow
      exact ⟨_, List.mem_append_right _ (List.mem_singleton_self _), rfl⟩
  distinct := by
    rw [List.map_append, List.nodup_append_comm]
    refine List.nodup_cons.2 ⟨fun hmem => ?_, h.distinct⟩
    obtain ⟨row, hrow, hnumber⟩ := List.mem_map.1 hmem
    exact Nat.ne_of_lt (h.row_number_lt hrow) hnumber
  gone d hd := by
    rw [List.map_append, List.mem_append]
    rcases List.mem_append.1 hd with hd | hd
    · exact (h.gone d hd).imp_left .inl
    · cases List.mem_singleton.1 hd
      exact .inl (.inr (List.mem_singleton_self _))
  apart := by
    refine List.pairwise_append.2 ⟨h.apart, List.pairwise_singleton _ _, fun d hd d' hd' hid => ?_⟩
    cases List.mem_singleton.1 hd'
    refine (h.gone d hd).resolve_left fun hmem => ?_
    obtain ⟨row, hrow, hnumber⟩ := List.mem_map.1 hmem
    obtain ⟨d', hd', heq⟩ := h.rows row hrow
    cases h.eq_of_number hd' hd ((congrArg Row.number heq).symm.trans hnumber)
    exact hfree row hrow ((congrArg Row.id heq).trans hid)
  seen t ht began seen hphase := by
    obtain ⟨before, hseen⟩ := h.seen t ht began seen hphase
    refine ⟨before, fun n hn => ?_⟩
    obtain ⟨d, hd, hd'⟩ := hseen n hn
    exact ⟨d, List.mem_append_left _ hd, hd'⟩
  once := h.once
  unclaimed row hrow hnone := by
    rcases List.mem_append.1 hrow with hrow | hrow
    · exact h.unclaimed row hrow hnone
    · cases List.mem_singleton.1 hrow
      intro hmem
      obtain ⟨e, he, hnumber⟩ := List.mem_map.1 hmem
      obtain ⟨d, hd, hd', _⟩ := h.proper e he
      exact Nat.ne_of_lt (h.number_lt hd) (hd'.trans hnumber)
  proper e he := by
    obtain ⟨d, hd, hproper⟩ := h.proper e he
    exact ⟨d, List.mem_append_left _ hd, hproper⟩
  answers := h.answers

/-- The rows a purge has seen go. -/
theorem purge (h : Kept s) {seen : List Nat} (hseen : ∀ n ∈ seen, ∃ d ∈ s.deposits, d.row.number = n ∧
    d.row.expiresAt < s.time) : Kept { s with rows := s.rows.filter fun row => row.number ∉ seen } where
  numbers := h.numbers
  deposits := h.deposits
  rows row hrow := h.rows row (List.mem_filter.1 hrow).1
  distinct := h.distinct.sublist (List.filter_sublist.map _)
  gone d hd := by
    rcases h.gone d hd with hmem | hlt
    · obtain ⟨row, hrow, hnumber⟩ := List.mem_map.1 hmem
      by_cases hin : row.number ∈ seen
      · obtain ⟨d', hd', hnumber', hlt⟩ := hseen _ hin
        cases h.eq_of_number hd' hd (hnumber'.trans hnumber)
        exact .inr hlt
      · exact .inl (List.mem_map.2 ⟨row, List.mem_filter.2 ⟨hrow, by simpa using hin⟩, hnumber⟩)
    · exact .inr hlt
  apart := h.apart
  seen := h.seen
  once := h.once
  unclaimed row hrow := h.unclaimed row (List.mem_filter.1 hrow).1
  proper := h.proper
  answers := h.answers

/-- The row a claim finds is claimed, and its packet handed out. -/
theorem claim (h : Kept s) {id : Bytes} {seen : List Nat}
    (at_ : s.tasks[i]? = some ⟨.claim id, .running began seen⟩)
    (hrow : s.unclaimed? seen = some row) :
    Kept { s with
      rows := s.rows.map fun r => if r.number = row.number then { r with claimedAt := some began } else r
      handed := s.handed ++ [⟨i, row.number, row.payload, began⟩] } := by
  have hfound := List.find?_some hrow
  have hmem : row ∈ s.rows := List.mem_of_find?_eq_some hrow
  rw [decide_eq_true_eq] at hfound
  obtain ⟨d, hd, heq⟩ := h.rows row hmem
  have hnumbers : (s.rows.map fun r =>
      if r.number = row.number then { r with claimedAt := some began } else r).map (·.number) =
        s.rows.map (·.number) := by
    rw [List.map_map]
    refine List.map_congr_left fun r _ => ?_
    simp only [Function.comp_apply]
    split <;> rfl
  constructor
  · exact h.numbers
  · exact h.deposits
  · intro r' hr'
    obtain ⟨r, hr, rfl⟩ := List.mem_map.1 hr'
    obtain ⟨d, hd, heq⟩ := h.rows r hr
    refine ⟨d, hd, ?_⟩
    split <;> exact heq
  · simpa only [hnumbers] using h.distinct
  · simpa only [hnumbers] using h.gone
  · exact h.apart
  · exact h.seen
  · rw [List.map_append, List.nodup_append_comm]
    exact List.nodup_cons.2 ⟨h.unclaimed row hmem hfound.2, h.once⟩
  · intro r' hr' hnone hin
    obtain ⟨r, hr, rfl⟩ := List.mem_map.1 hr'
    by_cases hsame : r.number = row.number
    · rw [if_pos hsame] at hnone
      cases hnone
    · rw [if_neg hsame] at hnone hin
      rw [List.map_append] at hin
      rcases List.mem_append.1 hin with hin | hin
      · exact h.unclaimed r hr hnone hin
      · exact hsame (List.mem_singleton.1 hin)
  · intro e he
    rcases List.mem_append.1 he with he | he
    · exact h.proper e he
    · cases List.mem_singleton.1 he
      obtain ⟨_, hseen⟩ := h.seen _ (List.mem_of_getElem? at_) began seen rfl
      obtain ⟨d', hd', hnumber', hlow, hselects⟩ := hseen row.number hfound.1
      have hnumber : row.number = d.row.number := by rw [← heq]
      have hpayload : d.row.payload = row.payload := by rw [← heq]
      cases h.eq_of_number hd' hd (hnumber'.trans hnumber)
      simp only [Request.selects, decide_eq_true_eq] at hselects
      refine ⟨d, hd, hnumber', hpayload, hlow, hselects.2.2, .running began seen, ?_⟩
      rw [hselects.1]
      exact at_
  · intro j request payload at_'
    obtain ⟨e, he, htask⟩ := h.answers j request payload at_'
    exact ⟨e, List.mem_append_left _ he, htask⟩

/-- A statement takes effect, and its request is answered or not. -/
theorem effect (h : Kept s) {seen : List Nat}
    (at_ : s.tasks[i]? = some ⟨request, .running began seen⟩)
    (heffect : s.effect i request began seen = (s', phase)) :
    Kept (s'.setPhase i request phase) ∧ Kept (s'.setPhase i request (.refused .database)) := by
  obtain ⟨before, hseen⟩ := h.seen _ (List.mem_of_getElem? at_) began seen rfl
  cases request with
  | deposit id payload =>
    simp only [State.effect] at heffect
    split at heffect
    next =>
      cases heffect
      exact ⟨h.setPhase at_ nofun nofun, h.setPhase at_ nofun nofun⟩
    next hfree =>
      cases heffect
      have hkept := h.deposit payload began fun row hrow hid =>
        hfree (List.any_eq_true.2 ⟨row, hrow, decide_eq_true hid⟩)
      exact ⟨hkept.setPhase at_ nofun nofun, hkept.setPhase at_ nofun nofun⟩
  | claim id =>
    simp only [State.effect] at heffect
    split at heffect
    next =>
      cases heffect
      exact ⟨h.setPhase at_ nofun nofun, h.setPhase at_ nofun nofun⟩
    next row hrow =>
      cases heffect
      have hkept := h.claim at_ hrow
      refine ⟨hkept.setPhase at_ nofun fun payload heq => ?_, hkept.setPhase at_ nofun nofun⟩
      cases heq
      exact ⟨_, List.mem_append_right _ (List.mem_singleton_self _), rfl, rfl⟩
  | purge =>
    cases heffect
    have hkept := h.purge fun n hn => by
      obtain ⟨d, hd, hnumber, _, hselects⟩ := hseen n hn
      exact ⟨d, hd, hnumber, Nat.lt_of_lt_of_le (of_decide_eq_true hselects) before⟩
    exact ⟨hkept.setPhase at_ nofun nofun, hkept.setPhase at_ nofun nofun⟩

theorem step (h : Kept s) (hstep : s.step a = some s') : Kept s' := by
  cases a with
  | pass time =>
    simp only [State.step, Option.ite_none_right_eq_some] at hstep
    cases hstep.2
    exact h.pass hstep.1
  | deposit pairingId payload =>
    cases hstep
    exact h.receive _
  | claim pairingId =>
    cases hstep
    exact h.receive _
  | purge =>
    cases hstep
    exact h.receive _
  | effect i =>
    simp only [State.step] at hstep
    split at hstep
    next at_ =>
      cases hstep
      exact (h.effect at_ rfl).1
    next => cases hstep
  | lose i =>
    simp only [State.step] at hstep
    split at hstep
    next at_ =>
      cases hstep
      exact (h.effect at_ rfl).2
    next => cases hstep
  | fail i =>
    simp only [State.step] at hstep
    split at hstep
    next at_ =>
      cases hstep
      exact h.setPhase at_ nofun nofun
    next => cases hstep

end Kept

/-! ## What the drop box promises -/

structure Relayed (s : State) : Prop where
  /-- A packet is handed out once at most. -/
  once : (s.handed.map (·.number)).Nodup
  /-- It goes, as it was deposited, to a claim of its id that began within its five minutes. -/
  proper : ∀ h ∈ s.handed, ∃ d ∈ s.deposits, d.row.number = h.number ∧ d.row.payload = h.payload ∧
    d.inserted ≤ h.began ∧ h.began < d.began + seconds PAIRING_TTL_SECONDS ∧
      ∃ phase, s.tasks[h.task]? = some ⟨.claim d.row.id, phase⟩
  /-- What is answered is what was handed out. -/
  answers : ∀ i request payload, s.tasks[i]? = some ⟨request, .claimed payload⟩ →
    ∃ h ∈ s.handed, h.task = i ∧ h.payload = payload
  /-- A packet is not replaced before its end. -/
  apart : s.deposits.Pairwise fun d d' =>
    d.row.id = d'.row.id → d.began + seconds PAIRING_TTL_SECONDS < d'.inserted

/-- In every run, whatever deposits, claims and purges come in between each other. -/
theorem relayed (reach : Reach State.step (fun _ _ => True) empty s) : Relayed s := by
  have kept : Kept s := reach.invariant empty_kept fun h _ hstep => h.step hstep
  refine ⟨kept.once, fun e he => ?_, kept.answers, ?_⟩
  · obtain ⟨d, hd, hnumber, hpayload, hlow, hhigh, hclaim⟩ := kept.proper e he
    rw [(kept.deposits d hd).2.1] at hhigh
    exact ⟨d, hd, hnumber, hpayload, hlow, hhigh, hclaim⟩
  · refine kept.apart.imp_of_mem fun hd _ happart hid => ?_
    rw [← (kept.deposits _ hd).2.1]
    exact happart hid

/-- Two devices ask for a packet at the same moment. -/
def twoAtOnce : List Action :=
  [.deposit (toHex (List.replicate 16 7)) (some "AAAA"), .effect 0, .pass 5,
    .claim (toHex (List.replicate 16 7)), .claim (toHex (List.replicate 16 7)), .effect 2, .effect 1]

theorem relayed_twoAtOnce : ∃ s, Reach State.step (fun _ _ => True) empty s ∧
    s.handed = [⟨2, 0, [0, 0, 0], 5⟩] ∧ Relayed s := by
  have executed : (run State.step empty twoAtOnce).map (·.handed) =
      some [⟨2, 0, [0, 0, 0], 5⟩] := by decide +kernel
  obtain ⟨s, h, hhanded⟩ := Option.map_eq_some_iff.1 executed
  exact ⟨s, reach_of_run h, hhanded, relayed (reach_of_run h)⟩

end Whispee.Server.Pairings
