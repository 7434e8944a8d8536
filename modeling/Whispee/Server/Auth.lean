import Whispee.Bytes
import Whispee.Lib.Base64
import Whispee.Lib.Fallible
import Whispee.Lib.Tasks
import Whispee.Lib.Transition
import Whispee.Server.Error
import Mathlib.Data.List.Nodup
import Mathlib.Logic.Function.Basic

/-!
# Signed requests and their nonces

`Signed::from_request` of `crates/server/src/auth.rs`, one step for each of its awaits, and the pass
of `purge_once` over `request_nonces`. Real time is counted in nanoseconds; `as_secs` truncates it to
seconds and the database to microseconds. A statement takes effect some time after it began, and
`now()` is when it began.
-/

namespace Whispee.Server.Auth

open Transition

/-- Clock skew tolerated between client and server, in seconds. -/
def MAX_CLOCK_SKEW : Nat := 60

def NONCE_LEN : Nat := 16

structure Crypto where
  sha256 : Bytes → Bytes
  /-- `VerifyingKey::from_bytes` accepts the key. -/
  isVerifyingKey : Bytes → Bool
  verifyStrict : (key message signature : Bytes) → Bool

/-- `as_secs` of a time. -/
def asSecs (time : Nat) : Nat := time / 1000000000

/-- `now()` of a statement that begins at a time. -/
def timestamptz (time : Nat) : Nat := time / 1000

/-- `interval 'n seconds'`. -/
def seconds (n : Nat) : Nat := n * 1000000

/-! ## One request -/

/-- The headers of a request, those that are there and are text, and what it asks for. -/
structure Head where
  deviceId : Option String
  timestamp : Option String
  signature : Option String
  nonce : Option String
  method : String
  path : String

/-- What `from_request` has taken from the head of a request. -/
structure Claimed where
  deviceId : String
  timestamp : Nat
  signature : String
  nonce : Bytes
  method : String
  path : String
  deriving DecidableEq

/-- `str::parse::<u64>`. -/
def parseU64 (text : String) : Option Nat :=
  let digits : List Char := match text.toList with
    | '+' :: rest => rest
    | digits => digits
  let n := digits.foldl (fun n c => 10 * n + (c.toNat - '0'.toNat)) 0
  if digits ≠ [] ∧ digits.all (·.isDigit) ∧ n < 2 ^ 64 then some n else none

/-- `BASE64_STANDARD.decode`: the canonical encoding and no other. -/
def decodeStandard (text : String) : Option Bytes :=
  (Base64.decode text).filter fun bytes => Base64.encode bytes = text

def absDiff (a b : Nat) : Nat := (a - b) + (b - a)

/-- `from_request` up to its first await. -/
def fromHead (head : Head) (time : Nat) : Except ApiError Claimed := do
  let deviceId ← head.deviceId.elim (.error .unauthorized) .ok
  let timestamp ← (head.timestamp.bind parseU64).elim (.error .unauthorized) .ok
  let signature ← head.signature.elim (.error .unauthorized) .ok
  let nonce ← head.nonce.elim (.error .unauthorized) .ok
  let nonce ← ((decodeStandard nonce).filter (·.length = NONCE_LEN)).elim (.error .unauthorized) .ok
  if absDiff (asSecs time) timestamp > MAX_CLOCK_SKEW then .error .unauthorized
  else .ok ⟨deviceId, timestamp, signature, nonce, head.method, head.path⟩

def newline : Bytes := asBytes "\n"

def signingPayload (C : Crypto) (r : Claimed) (body : Bytes) : Bytes :=
  asBytes r.method ++ newline ++ asBytes r.path ++ newline ++ asBytes (toString r.timestamp) ++
    newline ++ r.nonce ++ newline ++ C.sha256 body

/-- The checks between the answer about the device's key and the insertion of the nonce. -/
def authenticate (C : Crypto) (authKey : Option Bytes) (r : Claimed) (body : Bytes) :
    Except ApiError Unit := do
  let key ← authKey.elim (.error .unauthorized) .ok
  if key.length ≠ 32 ∨ C.isVerifyingKey key = false then .error .unauthorized
  let signature ← ((decodeStandard r.signature).filter (·.length = 64)).elim (.error .unauthorized) .ok
  if C.verifyStrict key (signingPayload C r body) signature then .ok () else .error .unauthorized

/-! ## The server -/

/-- A row of `request_nonces`. -/
structure NonceRow where
  deviceId : String
  nonce : Bytes
  seenAt : Nat
  deriving DecidableEq

/-- `PRIMARY KEY (device_id, nonce)`. -/
def NonceRow.key (row : NonceRow) : String × Bytes := (row.deviceId, row.nonce)

/-- What a request waits for. -/
inductive Phase where
  /-- Its body. -/
  | reading (request : Claimed)
  /-- The key of its device. -/
  | authenticating (request : Claimed) (body : Bytes)
  /-- The insertion of its nonce, asked for at a time. -/
  | remembering (request : Claimed) (body : Bytes) (asked : Nat)
  | accepted (deviceId : String) (body : Bytes)
  | refused (error : ApiError)
  deriving DecidableEq

/-- A request that went through: the row it inserted and the time it claims. -/
structure Acceptance where
  row : NonceRow
  timestamp : Nat
  deriving DecidableEq

structure State where
  /-- The one clock of the process and the database. -/
  time : Nat
  /-- `SELECT auth_key FROM devices WHERE id = $1`. -/
  authKey : String → Option Bytes
  requestNonces : List NonceRow
  requests : List Phase
  accepted : List Acceptance

inductive Action where
  | pass (time : Nat)
  /-- A device is registered, or its row goes with its account. -/
  | setKey (deviceId : String) (key : Option Bytes)
  | receive (head : Head)
  /-- The body has arrived, or is unreadable. -/
  | body (request : Nat) (body : Option Bytes)
  /-- The database answers about the key. -/
  | answer (request : Nat)
  /-- The insertion that began at a time takes effect and is answered. -/
  | insert (request began : Nat)
  /-- It takes effect, and the answer is lost. -/
  | lose (request began : Nat)
  /-- A query of the request fails. -/
  | fail (request : Nat)
  /-- The deletion of a pass of `purge_once` that began at a time takes effect. -/
  | purge (began : Nat)

/-- How long `purge_once` leaves a nonce. -/
def RETENTION : Nat := seconds (MAX_CLOCK_SKEW * 2)

namespace State

def setPhase (s : State) (i : Nat) (phase : Phase) : State :=
  { s with requests := s.requests.set i phase }

/-- `INSERT INTO request_nonces … ON CONFLICT DO NOTHING`: the row, unless the key is there. -/
def insertable (s : State) (r : Claimed) (began : Nat) : Option NonceRow :=
  let row : NonceRow := ⟨r.deviceId, r.nonce, timestamptz began⟩
  if row.key ∈ s.requestNonces.map NonceRow.key then none else some row

def step (C : Crypto) (s : State) : Action → Option State
  | .pass time => if s.time ≤ time then some { s with time } else none
  | .setKey deviceId key => some { s with authKey := Function.update s.authKey deviceId key }
  | .receive head =>
    let phase := match fromHead head s.time with
      | .ok r => .reading r
      | .error e => .refused e
    some { s with requests := s.requests ++ [phase] }
  | .body i body =>
    match s.requests[i]? with
    | some (.reading r) =>
      some (s.setPhase i (match body with
        | some body => .authenticating r body
        | none => .refused (.badRequest "unreadable body")))
    | _ => none
  | .answer i =>
    match s.requests[i]? with
    | some (.authenticating r body) =>
      some (s.setPhase i (match authenticate C (s.authKey r.deviceId) r body with
        | .ok () => .remembering r body s.time
        | .error e => .refused e))
    | _ => none
  | .insert i began =>
    match s.requests[i]? with
    | some (.remembering r body asked) =>
      if asked ≤ began ∧ began ≤ s.time then
        match s.insertable r began with
        | some row =>
          some { s.setPhase i (.accepted r.deviceId body) with
            requestNonces := s.requestNonces ++ [row]
            accepted := s.accepted ++ [⟨row, r.timestamp⟩] }
        | none => some (s.setPhase i (.refused .unauthorized))
      else none
    | _ => none
  | .lose i began =>
    match s.requests[i]? with
    | some (.remembering r _ asked) =>
      if asked ≤ began ∧ began ≤ s.time then
        some { s.setPhase i (.refused .database) with
          requestNonces := s.requestNonces ++ (s.insertable r began).toList }
      else none
    | _ => none
  | .fail i =>
    match s.requests[i]? with
    | some (.authenticating ..) | some (.remembering ..) =>
      some (s.setPhase i (.refused .database))
    | _ => none
  | .purge began =>
    if began ≤ s.time then
      some { s with requestNonces :=
        s.requestNonces.filter fun row => timestamptz began ≤ row.seenAt + RETENTION }
    else none

/-- The server before any request: no nonce is remembered. -/
structure Initial (s : State) : Prop where
  requestNonces : s.requestNonces = []
  requests : s.requests = []
  accepted : s.accepted = []

/-- A nonce is inserted while the rows of earlier acceptances of it are still kept. -/
def withinRetention (s : State) : Action → Bool
  | .insert i _ =>
    match s.requests[i]? with
    | some (.remembering r ..) => s.accepted.all fun a =>
        a.row.key ≠ (r.deviceId, r.nonce) || timestamptz s.time ≤ a.row.seenAt + RETENTION
    | _ => true
  | _ => true

/-- A nonce is inserted no later than the skew tolerates of the time the request claims, which no
other request with this nonce has claimed differently. -/
def prompt (s : State) : Action → Bool
  | .insert i _ =>
    match s.requests[i]? with
    | some (.remembering r ..) =>
      s.time ≤ (r.timestamp + MAX_CLOCK_SKEW) * 1000000000 && s.accepted.all fun a =>
        a.row.key ≠ (r.deviceId, r.nonce) || a.timestamp = r.timestamp
    | _ => true
  | _ => true

end State

/-! ## No pair is accepted twice -/

theorem timestamptz_le (h : t ≤ t') : timestamptz t ≤ timestamptz t' := Nat.div_le_div_right h

/-- The row of an acceptance is there until it has outlived its retention. -/
structure Inv (s : State) : Prop where
  kept : ∀ a ∈ s.accepted,
    a.row ∈ s.requestNonces ∨ a.row.seenAt + RETENTION < timestamptz s.time
  once : (s.accepted.map (·.row.key)).Nodup

variable {C : Crypto} {s s' : State}

theorem State.insertable_eq_some (h : s.insertable r began = some row) :
    row = ⟨r.deviceId, r.nonce, timestamptz began⟩ ∧
      row.key ∉ s.requestNonces.map NonceRow.key := by
  obtain ⟨hnot, h⟩ := Option.ite_none_left_eq_some.1 h
  cases h
  exact ⟨rfl, hnot⟩

namespace Inv

/-- Nothing is accepted, and no row goes before its time. -/
theorem later (h : Inv s) (le : s.time ≤ s'.time) (accepted : s'.accepted = s.accepted)
    (rows : ∀ row ∈ s.requestNonces,
      row ∈ s'.requestNonces ∨ row.seenAt + RETENTION < timestamptz s'.time) : Inv s' where
  kept a ha := by
    rcases h.kept a (accepted ▸ ha) with hrow | expired
    · exact rows a.row hrow
    · exact .inr (Nat.lt_of_lt_of_le expired (timestamptz_le le))
  once := accepted ▸ h.once

/-- A request moves on. -/
theorem setPhase (h : Inv s) : Inv (s.setPhase i phase) :=
  h.later (Nat.le_refl _) rfl fun _ => .inl

theorem insert (h : Inv s) (hrow : s.insertable r began = some row)
    (within : ∀ a ∈ s.accepted, a.row.key = (r.deviceId, r.nonce) →
      timestamptz s.time ≤ a.row.seenAt + RETENTION) :
    Inv { s with
      requestNonces := s.requestNonces ++ [row], accepted := s.accepted ++ [⟨row, timestamp⟩] } := by
  obtain ⟨rfl, fresh⟩ := State.insertable_eq_some hrow
  refine ⟨Tasks.forall_mem_concat (fun a ha => ?_) (.inl ?_), ?_⟩
  · exact (h.kept a ha).imp_left (List.mem_append_left _)
  · exact List.mem_append_right _ (List.mem_singleton_self _)
  · rw [List.map_append, List.map_singleton]
    refine List.Nodup.append h.once (List.nodup_singleton _) (List.disjoint_singleton.2 fun hmem => ?_)
    obtain ⟨a, ha, hkey⟩ := List.mem_map.1 hmem
    -- The earlier row of the pair is still there, so that there is nothing to insert.
    rcases h.kept a ha with hold | expired
    · exact fresh (hkey ▸ List.mem_map_of_mem hold)
    · exact Nat.not_lt.2 (within a ha hkey) expired

theorem step (h : Inv s) (hg : s.withinRetention a) (hs : s.step C a = some s') : Inv s' := by
  cases a with
  | pass time =>
    obtain ⟨le, hs⟩ := Option.ite_none_right_eq_some.1 hs
    cases hs
    exact h.later le rfl fun _ => .inl
  | setKey | receive =>
    cases hs
    exact h.later (Nat.le_refl _) rfl fun _ => .inl
  | body i body =>
    rw [State.step] at hs
    split at hs
    · cases hs
      exact h.setPhase
    · cases hs
  | answer i =>
    rw [State.step] at hs
    split at hs
    · cases hs
      exact h.setPhase
    · cases hs
  | fail i =>
    rw [State.step] at hs
    split at hs
    · cases hs
      exact h.setPhase
    · cases hs
      exact h.setPhase
    · cases hs
  | insert i began =>
    rw [State.step] at hs
    split at hs
    next r body asked at_ =>
      obtain ⟨_, hs⟩ := Option.ite_none_right_eq_some.1 hs
      split at hs
      next row hrow =>
        cases hs
        refine (h.insert hrow fun a ha hkey => ?_).later (Nat.le_refl _) rfl fun _ => .inl
        rw [State.withinRetention, at_] at hg
        exact of_decide_eq_true ((Bool.or_eq_true_iff.1 (List.all_eq_true.1 hg a ha)).resolve_left
          fun hne => of_decide_eq_true hne hkey)
      · cases hs
        exact h.setPhase
    · cases hs
  | lose i began =>
    rw [State.step] at hs
    split at hs
    next =>
      obtain ⟨_, hs⟩ := Option.ite_none_right_eq_some.1 hs
      cases hs
      exact h.later (Nat.le_refl _) rfl fun _ hrow => .inl (List.mem_append_left _ hrow)
    · cases hs
  | purge began =>
    obtain ⟨le, hs⟩ := Option.ite_none_right_eq_some.1 hs
    cases hs
    refine h.later (Nat.le_refl _) rfl fun row hrow => ?_
    rcases Nat.lt_or_ge (row.seenAt + RETENTION) (timestamptz began) with expired | kept
    · exact .inr (Nat.lt_of_lt_of_le expired (timestamptz_le le))
    · exact .inl (List.mem_filter.2 ⟨hrow, decide_eq_true kept⟩)

end Inv

theorem Inv.of_initial (initial : s.Initial) : Inv s := by
  refine ⟨fun a ha => ?_, ?_⟩ <;> rw [initial.accepted] at *
  · cases ha
  · exact List.nodup_nil

/-- No pair of a device and a nonce is accepted twice where no nonce is inserted after the row of an
earlier acceptance of it has outlived its retention. -/
theorem accepted_once (initial : s.Initial)
    (run : Reach (State.step C) (fun s a => s.withinRetention a) s s') :
    (s'.accepted.map (·.row.key)).Nodup := by
  have inv : Inv s' := run.invariant (.of_initial initial) fun h hg hs => h.step hg hs
  exact inv.once

/-! ## One signed request, sent twice -/

/-- Signatures that are the first bytes of the key and the message. -/
def plainCrypto : Crypto where
  sha256 body := (body ++ List.replicate 32 0).take 32
  isVerifyingKey _ := true
  verifyStrict key message signature := (key ++ message ++ List.replicate 64 0).take 64 = signature

def aliceKey : Bytes := List.replicate 32 7

def aliceClaim : Claimed :=
  ⟨"alice:phone", 100, "", List.replicate 16 1, "GET", "/v1/groups"⟩

/-- A request without a body that claims the hundredth second. -/
def aliceHead : Head where
  deviceId := some "alice:phone"
  timestamp := some "100"
  signature := some (Base64.encode
    ((aliceKey ++ signingPayload plainCrypto aliceClaim [] ++ List.replicate 64 0).take 64))
  nonce := some (Base64.encode (List.replicate 16 1))
  method := "GET"
  path := "/v1/groups"

/-- The fortieth second, and one device. -/
def aliceRegistered : State where
  time := 40000000000
  authKey := Function.update (fun _ => none) "alice:phone" (some aliceKey)
  requestNonces := []
  requests := []
  accepted := []

theorem aliceRegistered_initial : aliceRegistered.Initial := ⟨rfl, rfl, rfl⟩

/-- The request is sent again at once, and once more when its nonce is forgotten and its time too
old. -/
def sentAtOnce : List Action :=
  [.receive aliceHead, .body 0 (some []), .answer 0, .insert 0 40000000000, .receive aliceHead,
    .body 1 (some []), .answer 1, .insert 1 40000000000, .pass 161000000000, .purge 161000000000,
    .receive aliceHead]

theorem accepted_once_sentAtOnce : ∃ s,
    Reach (State.step plainCrypto) (fun s a => s.withinRetention a) aliceRegistered s ∧
      s.accepted ≠ [] ∧ (s.accepted.map (·.row.key)).Nodup := by
  have executed : ∃ s, run (fun s a => if s.withinRetention a then s.step plainCrypto a else none)
      aliceRegistered sentAtOnce = some s ∧ s.accepted ≠ [] := ⟨_, rfl, List.cons_ne_nil _ _⟩
  obtain ⟨s, h, some_⟩ := executed
  have reached : Reach (State.step plainCrypto) (fun s a => s.withinRetention a) aliceRegistered s :=
    reach_of_run_guarded h
  exact ⟨s, reached, some_, accepted_once aliceRegistered_initial reached⟩

/-- The skew ahead, and half a second less than a second past the skew behind. -/
def sentOnTheEdges : List Action :=
  [.receive aliceHead, .body 0 (some []), .answer 0, .insert 0 40000000000, .pass 160000001000,
    .purge 160000001000, .pass 160500000000, .receive aliceHead, .body 1 (some []), .answer 1,
    .insert 1 160500000000]

/-- The body comes after the nonce has been forgotten. -/
def slowBody : List Action :=
  [.receive aliceHead, .body 0 (some []), .answer 0, .insert 0 40000000000, .receive aliceHead,
    .pass 170000000000, .purge 170000000000, .body 1 (some []), .answer 1, .insert 1 170000000000]

/-- The same request goes through twice, each time. -/
theorem forgotten_nonce_replayed : aliceRegistered.Initial ∧
    ∀ actions ∈ [sentOnTheEdges, slowBody], ∃ s,
      run (State.step plainCrypto) aliceRegistered actions = some s ∧
        s.accepted.map (·.row.key) =
          [("alice:phone", List.replicate 16 1), ("alice:phone", List.replicate 16 1)] := by
  refine ⟨aliceRegistered_initial, fun actions hactions => ?_⟩
  simp only [List.mem_cons, List.not_mem_nil, or_false] at hactions
  rcases hactions with rfl | rfl <;> exact ⟨_, rfl, rfl⟩

/-! ## Requests that are served in time -/

/-- The time a request under way claims was at most the skew ahead when it was checked. -/
def Phase.Timely (time : Nat) : Phase → Prop
  | .reading r | .authenticating r _ => r.timestamp ≤ asSecs time + MAX_CLOCK_SKEW
  | .remembering r _ asked => r.timestamp ≤ asSecs asked + MAX_CLOCK_SKEW
  | .accepted .. | .refused _ => True

structure Timely (s : State) : Prop where
  requests : ∀ phase ∈ s.requests, phase.Timely s.time
  accepted : ∀ a ∈ s.accepted, seconds a.timestamp ≤ a.row.seenAt + seconds MAX_CLOCK_SKEW

theorem asSecs_le (h : t ≤ t') : asSecs t ≤ asSecs t' := Nat.div_le_div_right h

theorem seconds_asSecs_le (t : Nat) : seconds (asSecs t) ≤ timestamptz t := by
  rw [seconds, asSecs, timestamptz]
  omega

theorem Phase.Timely.mono (h : Phase.Timely t phase) (le : t ≤ t') : phase.Timely t' := by
  cases phase with
  | reading | authenticating => exact Nat.le_trans h (Nat.add_le_add_right (asSecs_le le) _)
  | remembering | accepted | refused => exact h

theorem le_of_absDiff_le (h : absDiff a b ≤ c) : b ≤ a + c := by
  rw [absDiff] at h
  omega

theorem timestamp_le_of_fromHead (h : fromHead head time = .ok r) :
    r.timestamp ≤ asSecs time + MAX_CLOCK_SKEW := by
  simp only [fromHead, Fallible.bind_eq_ok_iff] at h
  obtain ⟨_, _, timestamp, _, _, _, _, _, _, _, h⟩ := h
  split at h
  · cases h
  next skewed =>
    cases h
    exact le_of_absDiff_le (Nat.not_lt.1 skewed)

namespace Timely

theorem setPhase (h : Timely s) (ok : phase.Timely s.time) : Timely (s.setPhase i phase) :=
  ⟨Tasks.forall_mem_set h.requests ok, h.accepted⟩

theorem step (h : Timely s) (hs : s.step C a = some s') : Timely s' := by
  cases a with
  | pass time =>
    obtain ⟨le, hs⟩ := Option.ite_none_right_eq_some.1 hs
    cases hs
    exact ⟨fun phase hphase => (h.requests phase hphase).mono le, h.accepted⟩
  | setKey =>
    cases hs
    exact ⟨h.requests, h.accepted⟩
  | receive head =>
    cases hs
    refine ⟨Tasks.forall_mem_concat h.requests ?_, h.accepted⟩
    split
    next hok => exact timestamp_le_of_fromHead hok
    · trivial
  | body i body =>
    rw [State.step] at hs
    split at hs
    next r at_ =>
      cases hs
      have ok : Phase.Timely s.time (.reading r) := h.requests _ (List.mem_of_getElem? at_)
      refine h.setPhase ?_
      split
      · exact ok
      · trivial
    · cases hs
  | answer i =>
    rw [State.step] at hs
    split at hs
    next r body at_ =>
      cases hs
      have ok : Phase.Timely s.time (.authenticating r body) :=
        h.requests _ (List.mem_of_getElem? at_)
      refine h.setPhase ?_
      split
      · exact ok
      · trivial
    · cases hs
  | fail i =>
    rw [State.step] at hs
    split at hs
    · cases hs
      exact h.setPhase trivial
    · cases hs
      exact h.setPhase trivial
    · cases hs
  | insert i began =>
    rw [State.step] at hs
    split at hs
    next r body asked at_ =>
      obtain ⟨⟨le, _⟩, hs⟩ := Option.ite_none_right_eq_some.1 hs
      split at hs
      next row hrow =>
        cases hs
        obtain ⟨rfl, _⟩ := State.insertable_eq_some hrow
        have done : Phase.Timely s.time (.accepted r.deviceId body) := trivial
        refine ⟨(h.setPhase done).requests, Tasks.forall_mem_concat h.accepted ?_⟩
        have claimed : r.timestamp ≤ asSecs began + MAX_CLOCK_SKEW :=
          Nat.le_trans (h.requests _ (List.mem_of_getElem? at_))
            (Nat.add_le_add_right (asSecs_le le) _)
        calc
          seconds r.timestamp ≤ seconds (asSecs began + MAX_CLOCK_SKEW) :=
            Nat.mul_le_mul_right _ claimed
          _ = seconds (asSecs began) + seconds MAX_CLOCK_SKEW := Nat.add_mul ..
          _ ≤ timestamptz began + seconds MAX_CLOCK_SKEW :=
            Nat.add_le_add_right (seconds_asSecs_le began) _
      · cases hs
        exact h.setPhase trivial
    · cases hs
  | lose i began =>
    rw [State.step] at hs
    split at hs
    next =>
      obtain ⟨_, hs⟩ := Option.ite_none_right_eq_some.1 hs
      cases hs
      have refused : Phase.Timely s.time (.refused .database) := trivial
      exact ⟨(h.setPhase refused).requests, h.accepted⟩
    · cases hs
  | purge began =>
    obtain ⟨_, hs⟩ := Option.ite_none_right_eq_some.1 hs
    cases hs
    exact ⟨h.requests, h.accepted⟩

/-- The retention covers the two skews, before and after the time claimed. -/
theorem withinRetention (h : Timely s) (hg : s.prompt a) : s.withinRetention a := by
  cases a with
  | insert i began =>
    rw [State.prompt] at hg
    rw [State.withinRetention]
    split at hg
    next r _ _ at_ =>
      obtain ⟨le, same⟩ := Bool.and_eq_true_iff.1 hg
      refine List.all_eq_true.2 fun a ha => Bool.or_eq_true_iff.2 ?_
      refine (Bool.or_eq_true_iff.1 (List.all_eq_true.1 same a ha)).imp_right fun hsame => ?_
      refine decide_eq_true ?_
      calc
        timestamptz s.time ≤ timestamptz ((r.timestamp + MAX_CLOCK_SKEW) * 1000000000) :=
          timestamptz_le (of_decide_eq_true le)
        _ = seconds r.timestamp + seconds MAX_CLOCK_SKEW := by
          rw [timestamptz, seconds, seconds]
          omega
        _ = seconds a.timestamp + seconds MAX_CLOCK_SKEW := by rw [of_decide_eq_true hsame]
        _ ≤ a.row.seenAt + seconds MAX_CLOCK_SKEW + seconds MAX_CLOCK_SKEW :=
          Nat.add_le_add_right (h.accepted a ha) _
        _ = a.row.seenAt + RETENTION := by rw [Nat.add_assoc]; rfl
    · rfl
  | pass | setKey | receive | body | answer | lose | fail | purge => rfl

end Timely

/-- A signed request is accepted once where each nonce is inserted by the end of the second after
which its request is refused for its age. -/
theorem accepted_once_of_prompt (initial : s.Initial)
    (run : Reach (State.step C) (fun s a => s.prompt a) s s') :
    (s'.accepted.map (·.row.key)).Nodup := by
  have start : Timely s := by
    refine ⟨fun phase hphase => ?_, fun a ha => ?_⟩
    · rw [initial.requests] at hphase
      cases hphase
    · rw [initial.accepted] at ha
      cases ha
  have both : Inv s' ∧ Timely s' := by
    induction run with
    | refl => exact ⟨.of_initial initial, start⟩
    | tail _ hg hs ih => exact ⟨ih.1.step (ih.2.withinRetention hg) hs, ih.2.step hs⟩
  exact both.1.once

end Whispee.Server.Auth
