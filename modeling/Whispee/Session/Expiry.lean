import Whispee.Bytes
import Whispee.Lib.Tasks
import Whispee.Lib.Transition
import Mathlib.Data.List.Sort

/-!
# Deadlines

`apps/web/src/lib/expiry.ts`, and the places of `apps/web/src/lib/session.ts` that stamp a message
or drop one: `absorb`, `sendContent`, `dropExpired` and `Session.open`. One conversation of one
device; its session is written down in three steps, as `composeStored` reads the history two awaits
after the cursor and the MLS state, and may end at any moment. The clock says what it likes.
-/

namespace Whispee.Session.Expiry

open Tasks Transition

structure Message where
  seq : Nat
  sender : Option String
  content : Bytes
  mine : Bool
  sentAt : Option Nat
  expiresAt : Option Nat
  deriving DecidableEq, Repr

/-- The deadline of a message, if anything expires it. -/
def expiryOf (sentAt : Option Nat) (seenAt lifetimeSeconds : Nat) : Option Nat :=
  if lifetimeSeconds = 0 then none
  else sentAt.map fun sentAt => min sentAt seenAt + lifetimeSeconds * 1000

def isExpired (message : Message) (now : Nat) : Bool :=
  match message.expiresAt with
  | some expiresAt => expiresAt ≤ now
  | none => false

def prune (messages : List Message) (now : Nat) : List Message :=
  messages.filter fun message => !isExpired message now

def RECENT_PER_CONVERSATION : Nat := 200

/-- What `encodeHistory` keeps of a thread. -/
def encodeHistory (messages : List Message) : List Message :=
  let sorted := messages.insertionSort (·.seq ≤ ·.seq)
  sorted.drop (sorted.length - RECENT_PER_CONVERSATION)

/-- `Session.open`: a message of the cache that has no deadline gets one. -/
def restamp (lifetimeSeconds now : Nat) (message : Message) : Message :=
  match message.expiresAt with
  | some _ => message
  | none => { message with expiresAt := expiryOf message.sentAt now lifetimeSeconds }

/-- The thread as a session opens it. -/
def reopened (lifetimeSeconds now : Nat) (history : List Message) : List Message :=
  if lifetimeSeconds = 0 then history
  else prune (history.map (restamp lifetimeSeconds now)) now

theorem expiryOf_zero (sentAt : Option Nat) (seenAt : Nat) : expiryOf sentAt seenAt 0 = none := rfl

theorem expiryOf_le (h : expiryOf sentAt seenAt lifetimeSeconds = some expiresAt) :
    expiresAt ≤ seenAt + lifetimeSeconds * 1000 := by
  obtain ⟨_, h⟩ := Option.ite_none_left_eq_some.1 h
  obtain ⟨sentAt, _, rfl⟩ := Option.map_eq_some_iff.1 h
  exact Nat.add_le_add_right (Nat.min_le_right _ _) _

theorem mem_prune_iff : message ∈ prune messages now ↔
    message ∈ messages ∧ isExpired message now = false := by
  rw [prune, List.mem_filter, Bool.not_eq_true']

theorem isExpired_of_none {message : Message} (h : message.expiresAt = none) (now : Nat) :
    isExpired message now = false := by
  rw [isExpired, h]

theorem mem_of_mem_encodeHistory (h : message ∈ encodeHistory messages) : message ∈ messages :=
  (List.mem_insertionSort _).1 (List.mem_of_mem_drop h)

/-! ## The session -/

/-- What is stored of the conversation: the MLS state's lifetime, the cursor and the cache. -/
structure Stored where
  lifetime : Nat
  cursor : Nat
  history : List Message
  deriving DecidableEq

/-- A `persist` under way. -/
inductive Call where
  /-- It has read the cursor and the MLS state. -/
  | sealing (lifetime cursor : Nat)
  | saving (stored : Stored)

/-- A `sendContent` that waits for the server. -/
structure Sending where
  content : Bytes
  sentAt : Nat
  /-- The lifetime in force as it was encrypted. -/
  lifetime : Nat

structure Live where
  lifetime : Nat
  cursor : Nat
  messages : List Message
  sends : List Sending
  persists : List Call

/-- What an envelope of another member opens to. -/
structure Envelope where
  sender : Option String
  content : Bytes
  sentAt : Option Nat

/-- How a message came into this device's hands. -/
structure Entry where
  seq : Nat
  received : Bool
  seenAt : Nat
  /-- The lifetime then in force; for a message sent, as it was encrypted. -/
  lifetime : Nat
  expiresAt : Option Nat
  deriving DecidableEq

structure World where
  session : Option Live
  stored : Stored
  /-- Every message that was received or sent, each time it was. -/
  log : List Entry
  /-- The messages that expiry has taken away. -/
  dropped : List Nat

inductive Action where
  | reopen (now : Nat)
  | close
  /-- A commit of another member. -/
  | commit (seq lifetime : Nat)
  | setLifetime (lifetime : Nat)
  | absorb (seq now : Nat)
  | send (content : Bytes) (sentAt : Nat)
  /-- The server accepts the message. -/
  | posted (i seq now : Nat)
  | failed (i : Nat)
  | dropExpired (now : Nat)
  | persist
  /-- A `persist` goes on past its await. -/
  | resume (i : Nat)

variable (deviceId : String) (envelopes : Nat → Envelope)

namespace Live

variable (s : Live)

def persist : Live := { s with persists := s.persists ++ [.sealing s.lifetime s.cursor] }

/-- What a message that arrives is stamped with. -/
def stamp (seq now : Nat) : Option Nat := expiryOf (envelopes seq).sentAt now s.lifetime

def received (seq now : Nat) : Message where
  seq
  sender := (envelopes seq).sender
  content := (envelopes seq).content
  mine := false
  sentAt := (envelopes seq).sentAt
  expiresAt := s.stamp envelopes seq now

def sent (sending : Sending) (seq now : Nat) : Message where
  seq
  sender := some deviceId
  content := sending.content
  mine := true
  sentAt := some sending.sentAt
  expiresAt := expiryOf (some sending.sentAt) now s.lifetime

end Live

namespace World

variable (w : World)

def put (s : Live) : World := { w with session := some s }

def record (entry : Entry) : World := { w with log := w.log ++ [entry] }

def drop (messages : List Message) (now : Nat) : World :=
  { w with dropped := w.dropped ++ (messages.filter (isExpired · now)).map Message.seq }

def reopen (now : Nat) : World :=
  (if w.stored.lifetime = 0 then w
    else w.drop (w.stored.history.map (restamp w.stored.lifetime now)) now).put {
      lifetime := w.stored.lifetime
      cursor := w.stored.cursor
      messages := reopened w.stored.lifetime now w.stored.history
      sends := []
      persists := [] }

/-- `absorb`: a message that is past its deadline as it arrives is not inserted. -/
def absorb (s : Live) (seq now : Nat) : World :=
  let message := s.received envelopes seq now
  let w := w.record ⟨seq, true, now, s.lifetime, message.expiresAt⟩
  if isExpired message now then
    (w.drop [message] now).put { s with cursor := max s.cursor seq }
  else w.put { s with cursor := max s.cursor seq, messages := s.messages ++ [message] }

def posted (s : Live) (i : Nat) (sending : Sending) (seq now : Nat) : World :=
  let message := s.sent deviceId sending seq now
  (w.record ⟨seq, false, now, sending.lifetime, message.expiresAt⟩).put
    ({ s with sends := s.sends.eraseIdx i, messages := s.messages ++ [message] } : Live).persist

def dropExpired (s : Live) (now : Nat) : World :=
  let kept := prune s.messages now
  if kept.length = s.messages.length then w
  else (w.drop s.messages now).put ({ s with messages := kept } : Live).persist

def resume (s : Live) (i : Nat) : Call → World
  | .sealing lifetime cursor => w.put { s with
      persists := s.persists.set i (.saving ⟨lifetime, cursor, encodeHistory s.messages⟩) }
  | .saving stored => { w with
      session := some { s with persists := s.persists.eraseIdx i }
      stored }

/-- The server numbers every envelope once, and a device cannot read its own. -/
def mine (seq : Nat) : Bool := w.log.any fun e => e.seq = seq ∧ !e.received

def known (seq : Nat) : Bool := w.log.any (·.seq = seq)

def stepLive (s : Live) : Action → Option World
  | .reopen _ => none
  | .close => some { w with session := none }
  | .commit seq lifetime =>
    if s.cursor < seq then some (w.put { s with lifetime, cursor := max s.cursor seq }) else none
  | .setLifetime lifetime => some (w.put ({ s with lifetime } : Live).persist)
  | .absorb seq now =>
    if s.cursor < seq ∧ !w.mine seq then some (w.absorb envelopes s seq now) else none
  | .send content sentAt =>
    some (w.put { s with sends := s.sends ++ [⟨content, sentAt, s.lifetime⟩] })
  | .posted i seq now =>
    s.sends[i]?.bind fun sending =>
      if w.known seq then none else some (w.posted deviceId s i sending seq now)
  | .failed i => s.sends[i]?.map fun _ => w.put { s with sends := s.sends.eraseIdx i }
  | .dropExpired now => some (w.dropExpired s now)
  | .persist => some (w.put s.persist)
  | .resume i => s.persists[i]?.map (w.resume s i)

def step (a : Action) : Option World :=
  match w.session with
  | some s => w.stepLive deviceId envelopes s a
  | none =>
    match a with
    | .reopen now => some (w.reopen now)
    | _ => none

/-- A conversation in which nothing has been said. -/
def start (lifetime : Nat) : World where
  session := none
  stored := ⟨lifetime, 0, []⟩
  log := []
  dropped := []

/-! ## What has to be the case -/

/-- The thread on the screen. -/
def thread : List Message := (w.session.map Live.messages).getD []

structure StampedOnce : Prop where
  /-- Every message in the thread has come in. -/
  accounted : ∀ message ∈ w.thread, ∃ e ∈ w.log, e.seq = message.seq
  /-- It has the deadline it was given, or none if it was given none. -/
  same : ∀ message ∈ w.thread, ∀ e ∈ w.log, e.seq = message.seq → message.expiresAt = e.expiresAt
  /-- However often it is received, the deadline is the same. -/
  once : ∀ e ∈ w.log, ∀ e' ∈ w.log, e.seq = e'.seq → e.expiresAt = e'.expiresAt
  untimed : ∀ e ∈ w.log, e.lifetime = 0 → e.expiresAt = none
  bounded : ∀ e ∈ w.log, e.received → ∀ expiresAt, e.expiresAt = some expiresAt →
    expiresAt ≤ e.seenAt + e.lifetime * 1000
  kept : ∀ e ∈ w.log, e.expiresAt = none → e.seq ∉ w.dropped

/-- No message of the cache is stamped as a session opens; an envelope that is read again gets the
deadline it was given before; and no lifetime is turned on between the encryption of a message and
the answer of the server. -/
def guard (a : Action) : Bool :=
  match w.session, a with
  | none, .reopen now => w.stored.history.all fun message =>
      message.expiresAt.isSome ∨ expiryOf message.sentAt now w.stored.lifetime = none
  | some s, .absorb seq now => w.log.all fun e =>
      e.seq = seq → e.expiresAt = s.stamp envelopes seq now
  | some s, .posted i _ _ => s.sends[i]?.all fun sending => sending.lifetime = 0 → s.lifetime = 0
  | _, _ => true

variable {deviceId envelopes} {w w' : World} {s : Live} {log : List Entry} {message : Message}
  {entry : Entry}

/-- A message has come in, and has the deadline it was given each time. -/
structure Accounted (log : List Entry) (message : Message) : Prop where
  known : ∃ e ∈ log, e.seq = message.seq
  same : ∀ e ∈ log, e.seq = message.seq → message.expiresAt = e.expiresAt

/-- What comes in now agrees with what has come in before. -/
def Agrees (log : List Entry) (entry : Entry) : Prop :=
  ∀ e ∈ log, e.seq = entry.seq → e.expiresAt = entry.expiresAt

structure LogInv (log : List Entry) (dropped : List Nat) : Prop where
  once : ∀ e ∈ log, ∀ e' ∈ log, e.seq = e'.seq → e.expiresAt = e'.expiresAt
  untimed : ∀ e ∈ log, e.lifetime = 0 → e.expiresAt = none
  bounded : ∀ e ∈ log, e.received → ∀ expiresAt, e.expiresAt = some expiresAt →
    expiresAt ≤ e.seenAt + e.lifetime * 1000
  /-- What was dropped had come in, and had a deadline. -/
  dropped : ∀ seq ∈ dropped, ∃ e ∈ log, e.seq = seq ∧ e.expiresAt ≠ none

/-- What is in memory, or in a `persist` under way. -/
structure LiveInv (log : List Entry) (s : Live) : Prop where
  messages : ∀ message ∈ s.messages, Accounted log message
  saving : ∀ {stored}, .saving stored ∈ s.persists →
    ∀ message ∈ stored.history, Accounted log message

structure Inv (w : World) : Prop where
  log : LogInv w.log w.dropped
  live : ∀ {s}, w.session = some s → LiveInv w.log s
  stored : ∀ message ∈ w.stored.history, Accounted w.log message

theorem Accounted.record (h : Accounted log message) (hentry : Agrees log entry) :
    Accounted (log ++ [entry]) message where
  known := by
    obtain ⟨e, he, hseq⟩ := h.known
    exact ⟨e, List.mem_append_left _ he, hseq⟩
  same e he hseq := by
    rcases List.mem_append.1 he with hold | hlast
    · exact h.same e hold hseq
    · obtain rfl := List.mem_singleton.1 hlast
      obtain ⟨e', he', hseq'⟩ := h.known
      exact (h.same e' he' hseq').trans (hentry e' he' (hseq'.trans hseq.symm))

/-- The message that has just come in. -/
theorem Agrees.accounted (h : Agrees log entry) (hseq : entry.seq = message.seq)
    (hsame : message.expiresAt = entry.expiresAt) : Accounted (log ++ [entry]) message where
  known := ⟨entry, List.mem_append_right _ (List.mem_singleton_self _), hseq⟩
  same e he hseq' := by
    rcases List.mem_append.1 he with hold | hlast
    · exact hsame.trans (h e hold (hseq'.trans hseq.symm)).symm
    · obtain rfl := List.mem_singleton.1 hlast
      exact hsame

theorem LogInv.record {dropped : List Nat} (h : LogInv log dropped) (hentry : Agrees log entry)
    (huntimed : entry.lifetime = 0 → entry.expiresAt = none)
    (hbounded : entry.received → ∀ expiresAt, entry.expiresAt = some expiresAt →
      expiresAt ≤ entry.seenAt + entry.lifetime * 1000) :
    LogInv (log ++ [entry]) dropped where
  once := by
    have agree : ∀ e ∈ log ++ [entry], e.seq = entry.seq → e.expiresAt = entry.expiresAt := by
      intro e he hseq
      rcases List.mem_append.1 he with hold | hlast
      · exact hentry e hold hseq
      · obtain rfl := List.mem_singleton.1 hlast
        rfl
    intro e he e' he' hseq
    rcases List.mem_append.1 he with hold | hlast
    · rcases List.mem_append.1 he' with hold' | hlast'
      · exact h.once e hold e' hold' hseq
      · obtain rfl := List.mem_singleton.1 hlast'
        exact hentry e hold hseq
    · obtain rfl := List.mem_singleton.1 hlast
      exact (agree e' he' hseq.symm).symm
  untimed := Tasks.forall_mem_concat h.untimed huntimed
  bounded := Tasks.forall_mem_concat h.bounded hbounded
  dropped seq hseq := by
    obtain ⟨e, he, hseq⟩ := h.dropped seq hseq
    exact ⟨e, List.mem_append_left _ he, hseq⟩

/-- Expiry drops only messages that have a deadline. -/
theorem LogInv.drop {dropped : List Nat} (h : LogInv log dropped) {messages : List Message}
    (haccounted : ∀ message ∈ messages, Accounted log message) (now : Nat) :
    LogInv log (dropped ++ (messages.filter (isExpired · now)).map Message.seq) where
  once := h.once
  untimed := h.untimed
  bounded := h.bounded
  dropped seq hseq := by
    rcases List.mem_append.1 hseq with hold | hnew
    · exact h.dropped seq hold
    · obtain ⟨message, hmem, rfl⟩ := List.mem_map.1 hnew
      obtain ⟨hmem, hexpired⟩ := List.mem_filter.1 hmem
      obtain ⟨e, he, hseq⟩ := (haccounted message hmem).known
      refine ⟨e, he, hseq, fun hnone => ?_⟩
      have hnone' := ((haccounted message hmem).same e he hseq).trans hnone
      rw [isExpired_of_none hnone' now] at hexpired
      cases hexpired

namespace LiveInv

/-- A session with the same thread, and a `persist` more or less that has saved nothing new. -/
theorem mono {s' : Live} (h : LiveInv log s) (hmessages : s'.messages ⊆ s.messages)
    (hsaving : ∀ {stored}, .saving stored ∈ s'.persists → .saving stored ∈ s.persists) :
    LiveInv log s' where
  messages message hmem := h.messages message (hmessages hmem)
  saving hmem := h.saving (hsaving hmem)

theorem persist (h : LiveInv log s) : LiveInv log s.persist :=
  h.mono (List.Subset.refl _) fun hmem => by
    rcases List.mem_append.1 hmem with hold | hlast
    · exact hold
    · cases List.mem_singleton.1 hlast

theorem record (h : LiveInv log s) (hentry : Agrees log entry) : LiveInv (log ++ [entry]) s where
  messages message hmem := (h.messages message hmem).record hentry
  saving hmem message hmem' := (h.saving hmem message hmem').record hentry

/-- A message joins the thread. -/
theorem concat (h : LiveInv log s) (hmessage : Accounted log message) {s' : Live}
    (hmessages : s'.messages = s.messages ++ [message]) (hpersists : s'.persists = s.persists) :
    LiveInv log s' where
  messages := hmessages ▸ Tasks.forall_mem_concat h.messages hmessage
  saving hmem := h.saving (hpersists ▸ hmem)

end LiveInv

namespace Inv

theorem put (h : Inv w) (hlive : LiveInv w.log s) : Inv (w.put s) where
  log := h.log
  live hs := by
    cases hs
    exact hlive
  stored := h.stored

theorem record (h : Inv w) (hentry : Agrees w.log entry)
    (huntimed : entry.lifetime = 0 → entry.expiresAt = none)
    (hbounded : entry.received → ∀ expiresAt, entry.expiresAt = some expiresAt →
      expiresAt ≤ entry.seenAt + entry.lifetime * 1000) : Inv (w.record entry) where
  log := h.log.record hentry huntimed hbounded
  live hs := (h.live hs).record hentry
  stored message hmem := (h.stored message hmem).record hentry

theorem drop (h : Inv w) {messages : List Message}
    (haccounted : ∀ message ∈ messages, Accounted w.log message) (now : Nat) :
    Inv (w.drop messages now) where
  log := h.log.drop haccounted now
  live := h.live
  stored := h.stored

/-- Opening stamps nothing. -/
theorem restamp_eq {lifetime now : Nat}
    (h : message.expiresAt.isSome ∨ expiryOf message.sentAt now lifetime = none) :
    restamp lifetime now message = message := by
  unfold restamp
  split
  · rfl
  next hnone =>
    rcases h with h | h
    · rw [hnone] at h
      cases h
    · rw [h, ← hnone]

theorem reopen (h : Inv w) (hguard : ∀ message ∈ w.stored.history, message.expiresAt.isSome ∨
    expiryOf message.sentAt now w.stored.lifetime = none) : Inv (w.reopen now) := by
  have same : w.stored.history.map (restamp w.stored.lifetime now) = w.stored.history :=
    (List.map_congr_left fun message hmem => restamp_eq (hguard message hmem)).trans
      (List.map_id _)
  unfold World.reopen reopened
  rw [same]
  split
  · exact h.put ⟨h.stored, nofun⟩
  · refine (h.drop h.stored now).put ⟨fun message hmem => ?_, nofun⟩
    exact h.stored message (mem_prune_iff.1 hmem).1

theorem absorb {envelopes : Nat → Envelope} (h : Inv w) (hlive : LiveInv w.log s)
    (hagrees : ∀ e ∈ w.log, e.seq = seq → e.expiresAt = s.stamp envelopes seq now) :
    Inv (w.absorb envelopes s seq now) := by
  let entry : Entry := ⟨seq, true, now, s.lifetime, s.stamp envelopes seq now⟩
  have agrees : Agrees w.log entry := hagrees
  have recorded : Inv (w.record entry) :=
    h.record agrees (fun hoff => by
      show s.stamp envelopes seq now = none
      rw [Live.stamp, show s.lifetime = 0 from hoff, expiryOf_zero])
      fun _ expiresAt hexpires => expiryOf_le hexpires
  have accounted : Accounted (w.record entry).log (s.received envelopes seq now) :=
    agrees.accounted rfl rfl
  have held := hlive.record agrees
  unfold World.absorb
  dsimp only
  split
  · exact (recorded.drop (List.forall_mem_singleton.2 accounted) now).put
      (held.mono (List.Subset.refl _) id)
  · exact recorded.put (held.concat accounted rfl rfl)

theorem posted {deviceId : String} (h : Inv w) (hlive : LiveInv w.log s)
    (hfresh : w.known seq = false) {sending : Sending}
    (hguard : sending.lifetime = 0 → s.lifetime = 0) :
    Inv (w.posted deviceId s i sending seq now) := by
  let message := s.sent deviceId sending seq now
  let entry : Entry := ⟨seq, false, now, sending.lifetime, message.expiresAt⟩
  have agrees : Agrees w.log entry := by
    intro e he hseq
    have known : w.known seq = true := List.any_eq_true.2 ⟨e, he, decide_eq_true hseq⟩
    rw [hfresh] at known
    cases known
  have recorded : Inv (w.record entry) :=
    h.record agrees (fun hoff => by
      show expiryOf (some sending.sentAt) now s.lifetime = none
      rw [hguard hoff, expiryOf_zero]) nofun
  have accounted : Accounted (w.record entry).log message := agrees.accounted rfl rfl
  have joined : LiveInv (w.record entry).log
      { s with sends := s.sends.eraseIdx i, messages := s.messages ++ [message] } :=
    (hlive.record agrees).concat accounted rfl rfl
  exact recorded.put joined.persist

theorem dropExpired (h : Inv w) (hlive : LiveInv w.log s) : Inv (w.dropExpired s now) := by
  unfold World.dropExpired
  dsimp only
  split
  · exact h
  · refine (h.drop hlive.messages now).put (LiveInv.persist ?_)
    exact hlive.mono (fun message hmem => (mem_prune_iff.1 hmem).1) id

theorem resume (h : Inv w) (hlive : LiveInv w.log s) (hcall : s.persists[i]? = some call) :
    Inv (w.resume s i call) := by
  cases call with
  | sealing lifetime cursor =>
    refine h.put ⟨hlive.messages, fun {stored} hmem => ?_⟩
    rcases List.mem_or_eq_of_mem_set hmem with hold | hnew
    · exact hlive.saving hold
    · injection hnew with hnew
      rw [hnew]
      intro message hmem
      dsimp only at hmem
      exact hlive.messages message (mem_of_mem_encodeHistory hmem)
  | saving stored =>
    refine ⟨h.log, fun hs => ?_, hlive.saving (List.mem_of_getElem? hcall)⟩
    cases hs
    exact hlive.mono (List.Subset.refl _) List.mem_of_mem_eraseIdx

theorem stepLive (h : Inv w) (hs : w.session = some s) (hguard : w.guard envelopes a)
    (hstep : w.stepLive deviceId envelopes s a = some w') : Inv w' := by
  have hlive := h.live hs
  cases a with
  | reopen => cases hstep
  | close =>
    cases hstep
    exact ⟨h.log, nofun, h.stored⟩
  | commit =>
    obtain ⟨_, hstep⟩ := Option.ite_none_right_eq_some.1 hstep
    cases hstep
    exact h.put (hlive.mono (List.Subset.refl _) id)
  | setLifetime lifetime =>
    cases hstep
    have held : LiveInv w.log { s with lifetime } := hlive.mono (List.Subset.refl _) id
    exact h.put held.persist
  | absorb seq now =>
    obtain ⟨_, hstep⟩ := Option.ite_none_right_eq_some.1 hstep
    cases hstep
    unfold World.guard at hguard
    rw [hs] at hguard
    exact h.absorb hlive fun e he => of_decide_eq_true (List.all_eq_true.1 hguard e he)
  | send =>
    cases hstep
    exact h.put (hlive.mono (List.Subset.refl _) id)
  | posted i seq now =>
    obtain ⟨sending, hsending, hstep⟩ := Option.bind_eq_some_iff.1 hstep
    obtain ⟨hfresh, hstep⟩ := Option.ite_none_left_eq_some.1 hstep
    cases hstep
    unfold World.guard at hguard
    rw [hs] at hguard
    dsimp only at hguard
    rw [hsending] at hguard
    have allowed := of_decide_eq_true hguard
    exact h.posted hlive (Bool.eq_false_of_not_eq_true hfresh) allowed
  | failed i =>
    obtain ⟨_, _, rfl⟩ := Option.map_eq_some_iff.1 hstep
    exact h.put (hlive.mono (List.Subset.refl _) id)
  | dropExpired now =>
    cases hstep
    exact h.dropExpired hlive
  | persist =>
    cases hstep
    exact h.put hlive.persist
  | resume i =>
    obtain ⟨call, hcall, rfl⟩ := Option.map_eq_some_iff.1 hstep
    exact h.resume hlive hcall

theorem step (h : Inv w) (hguard : w.guard envelopes a)
    (hstep : w.step deviceId envelopes a = some w') : Inv w' := by
  unfold World.step at hstep
  split at hstep
  next s hs => exact h.stepLive hs hguard hstep
  next hs =>
    split at hstep
    next now =>
      cases hstep
      unfold World.guard at hguard
      rw [hs] at hguard
      refine h.reopen fun message hmem => ?_
      have allowed := of_decide_eq_true (List.all_eq_true.1 hguard message hmem)
      exact allowed
    · cases hstep

end Inv

theorem inv_start {lifetime : Nat} : Inv (start lifetime) where
  log := ⟨nofun, nofun, nofun, nofun⟩
  live h := by cases h
  stored := nofun

/-- Whatever happens to the lifetime, and however the session is written down and opened again. -/
theorem stamped_once {lifetime : Nat}
    (h : Reach (step deviceId envelopes) (fun w a => w.guard envelopes a) (start lifetime) w) :
    w.StampedOnce := by
  have inv : Inv w := h.invariant inv_start fun h hguard hstep => h.step hguard hstep
  have accounted : ∀ message ∈ w.thread, Accounted w.log message := by
    unfold World.thread
    cases hs : w.session with
    | none => exact nofun
    | some s => exact (inv.live hs).messages
  refine ⟨fun m hm => (accounted m hm).known, fun m hm => (accounted m hm).same, inv.log.once,
    inv.log.untimed, inv.log.bounded, fun e he hnone hdropped => ?_⟩
  obtain ⟨e', he', hseq, hsome⟩ := inv.log.dropped _ hdropped
  exact hsome ((inv.log.once e' he' e he hseq).trans hnone)

/-- The others write once a second. -/
def everySecond (seq : Nat) : Envelope := ⟨some "bob", [UInt8.ofNat seq], some (seq * 1000)⟩

/-- A message without a lifetime, two with one; the session is closed and opened again after the
lifetime was turned off. -/
def onAndOff : List Action :=
  [.reopen 0, .absorb 1 1500, .setLifetime 60, .absorb 2 2500, .send [0] 3000, .posted 0 3 3100,
    .setLifetime 0, .resume 2, .resume 2, .close, .reopen 60000, .dropExpired 70000]

theorem stamped_once_onAndOff :
    ∃ w, Reach (step "alice:desktop" everySecond) (fun w a => w.guard everySecond a) (start 0) w ∧
      w.thread = [⟨1, some "bob", [1], false, some 1000, none⟩] ∧ w.dropped = [2, 3] ∧
      w.StampedOnce := by
  have evaluated : (run (fun w a => if w.guard everySecond a then
      w.step "alice:desktop" everySecond a else none) (start 0) onAndOff).map
        (fun w => (w.thread, w.dropped)) =
          some ([⟨1, some "bob", [1], false, some 1000, none⟩], [2, 3]) := by decide +kernel
  obtain ⟨w, hrun, hw⟩ := Option.map_eq_some_iff.1 evaluated
  obtain ⟨hthread, hdropped⟩ := Prod.mk.inj hw
  have reach := reach_of_run_guarded hrun
  exact ⟨w, reach, hthread, hdropped, stamped_once reach⟩

/-- A lifetime is turned on after the message came, and the session is opened again. -/
def turnedOn : List Action :=
  [.reopen 0, .absorb 1 1500, .setLifetime 60, .resume 0, .resume 0, .close, .reopen 100000]

/-- The message had no deadline, and expiry took it away. -/
theorem turned_on_takes_the_past_away :
    ∃ w, run (step "alice:desktop" everySecond) (start 0) turnedOn = some w ∧
      w.log = [⟨1, true, 1500, 0, none⟩] ∧ w.thread = [] ∧ w.dropped = [1] ∧ ¬ w.StampedOnce := by
  have evaluated : (run (step "alice:desktop" everySecond) (start 0) turnedOn).map
      (fun w => ((w.log, w.thread), w.dropped)) =
        some (([⟨1, true, 1500, 0, none⟩], []), [1]) := by decide +kernel
  obtain ⟨w, hrun, hw⟩ := Option.map_eq_some_iff.1 evaluated
  obtain ⟨hw, hdropped⟩ := Prod.mk.inj hw
  obtain ⟨hlog, hthread⟩ := Prod.mk.inj hw
  refine ⟨w, hrun, hlog, hthread, hdropped, fun h => ?_⟩
  refine h.kept ⟨1, true, 1500, 0, none⟩ ?_ rfl ?_
  · rw [hlog]
    exact List.mem_singleton_self _
  · rw [hdropped]
    exact List.mem_singleton_self _

end World

end Whispee.Session.Expiry
