import Whispee.Lib.Tasks
import Whispee.Lib.Transition
import Mathlib.Data.List.Nodup

/-!
# The outbox of a conversation

`send`, `flush`, `retry`, `discard` and `flushOutbox` of `apps/web/src/lib/session.ts`, with the part
of `sendContent` they wait for, one step for each of their awaits. Entries are shared objects: a
queue holds references to them, and so does every call under way. A failed post has stored nothing.
-/

namespace Whispee.Session.Outbox

open Transition

/-! ## The conversation and the calls on it -/

inductive SendState where
  | sending
  | failed
  deriving DecidableEq, Repr

/-- A message not posted yet; `localId` is its place among the entries, in the order they were
written. -/
structure Pending where
  text : String
  sentAt : Nat
  state : SendState
  deriving DecidableEq, Repr

/-- A message of ours in the thread. -/
structure Message where
  seq : Nat
  text : String
  sentAt : Nat
  deriving DecidableEq, Repr

/-- What the server has stored of the entry. -/
structure Posted where
  localId : Nat
  seq : Nat
  /-- The attempt began after the entry was discarded. -/
  late : Bool
  deriving DecidableEq, Repr

/-- How far a call has come with an entry: the await it stands at. -/
inductive Phase where
  /-- `send` has queued the entry, and waits for the first `persist`. -/
  | saving (localId : Nat)
  /-- The request of `sendContent` is under way. -/
  | posting (localId : Nat) (late : Bool)
  /-- The server has stored the envelope, and the answer is under way. -/
  | stored (localId seq : Nat)
  /-- The answer is in the thread, and `sendContent` waits for `persist` and `deposit`. -/
  | recording (localId : Nat)
  /-- `flush` waits for its last `persist`. -/
  | settling (localId : Nat)
  | done
  deriving DecidableEq, Repr

/-- A call under way, and the entries it goes on to: the rest of the queue as `flushOutbox` copied
it. -/
structure Call where
  phase : Phase
  rest : List Nat
  deriving DecidableEq, Repr

/-- The server may yet store what the call posts. -/
def Call.undecided (c : Call) : Bool :=
  match c.phase with
  | .posting .. => true
  | _ => false

structure World where
  entries : List Pending
  /-- `view.outbox`. -/
  outbox : List Nat
  /-- `view.messages`, those of ours. -/
  messages : List Message
  /-- `view.mine`. -/
  mine : List Nat
  discarded : List Nat
  calls : List Call
  /-- The last number the server has handed out in the group. -/
  nextSeq : Nat
  /-- The entries the server has stored, in the order it did. -/
  posted : List Posted

inductive Action where
  | send (text : String) (sentAt : Nat)
  | retry (localId : Nat)
  | discard (localId : Nat)
  | flushOutbox
  /-- What a call waits for on this device is done, and it goes on. -/
  | resume (call : Nat)
  /-- The server stores what a call posts. -/
  | store (call : Nat)
  /-- The answer to a stored post arrives. -/
  | answer (call : Nat)
  /-- A post fails; the server has stored nothing. -/
  | fail (call : Nat)
  /-- The server stores an envelope of somebody else, or one that is no message of the queue. -/
  | otherPost

namespace World

def setState (w : World) (localId : Nat) (state : SendState) : World :=
  { w with entries := w.entries.modify localId fun entry => { entry with state } }

/-- The start of `flush`, up to the request. -/
def flush (w : World) (localId : Nat) : World × Phase :=
  (w.setState localId .sending, .posting localId (localId ∈ w.discarded))

/-- A call starts with an attempt. -/
def startFlush (w : World) (localId : Nat) (rest : List Nat) : World :=
  let (w, phase) := w.flush localId
  { w with calls := w.calls ++ [⟨phase, rest⟩] }

def setCall (w : World) (i : Nat) (c : Call) : World := { w with calls := w.calls.set i c }

/-- A call goes on with an attempt. -/
def nextFlush (w : World) (i localId : Nat) (rest : List Nat) : World :=
  let (w, phase) := w.flush localId
  w.setCall i ⟨phase, rest⟩

/-- The entry the call attempts next once it goes on: the one `send` has queued, or the next of the
queue unless the last one has failed. -/
def nextAttempt (w : World) (c : Call) : Option (Nat × List Nat) :=
  match c.phase with
  | .saving localId => some (localId, c.rest)
  | .settling localId =>
    if (w.entries[localId]?.map (·.state)) = some .failed then none
    else match c.rest with
      | [] => none
      | next :: rest => some (next, rest)
  | _ => none

def resume (w : World) (i : Nat) (c : Call) : Option World :=
  match w.nextAttempt c with
  | some (localId, rest) => some (w.nextFlush i localId rest)
  | none =>
    match c.phase with
    | .recording localId =>
      let w : World := { w with outbox := w.outbox.filter (· ≠ localId) }
      some (w.setCall i ⟨.settling localId, c.rest⟩)
    | .settling _ => some (w.setCall i ⟨.done, []⟩)
    | _ => none

def step (w : World) : Action → Option World
  | .send text sentAt =>
    let localId := w.entries.length
    some { w with
      entries := w.entries ++ [⟨text, sentAt, .sending⟩]
      outbox := w.outbox ++ [localId]
      calls := w.calls ++ [⟨.saving localId, []⟩] }
  | .retry localId => if localId ∈ w.outbox then some (w.startFlush localId []) else none
  | .discard localId =>
    some { w with
      outbox := w.outbox.filter (· ≠ localId)
      discarded := if localId ∈ w.outbox then w.discarded ++ [localId] else w.discarded }
  | .flushOutbox =>
    match w.outbox with
    | [] => none
    | localId :: rest => some (w.startFlush localId rest)
  | .resume i =>
    match w.calls[i]? with
    | some c => w.resume i c
    | none => none
  | .store i =>
    match w.calls[i]? with
    | some ⟨.posting localId late, rest⟩ =>
      let seq := w.nextSeq + 1
      let w : World := { w with nextSeq := seq, posted := w.posted ++ [⟨localId, seq, late⟩] }
      some (w.setCall i ⟨.stored localId seq, rest⟩)
    | _ => none
  | .answer i =>
    match w.calls[i]? with
    | some ⟨.stored localId seq, rest⟩ =>
      match w.entries[localId]? with
      | some entry =>
        let w : World := { w with
          mine := w.mine ++ [seq]
          messages := w.messages ++ [⟨seq, entry.text, entry.sentAt⟩] }
        some (w.setCall i ⟨.recording localId, rest⟩)
      | none => none
    | _ => none
  | .fail i =>
    match w.calls[i]? with
    | some ⟨.posting localId _, rest⟩ =>
      some ((w.setState localId .failed).setCall i ⟨.settling localId, rest⟩)
    | _ => none
  | .otherPost => some { w with nextSeq := w.nextSeq + 1 }

/-- The entry of which a step begins an attempt. -/
def attempted (w : World) : Action → Option Nat
  | .retry localId => if localId ∈ w.outbox then some localId else none
  | .flushOutbox => w.outbox.head?
  | .resume i => (w.calls[i]?.bind w.nextAttempt).map (·.1)
  | _ => none

/-- An attempt begins only while no other post is undecided, on an entry that is still in the outbox
and was written after every entry posted so far. -/
def oneAtATime (w : World) (a : Action) : Bool :=
  match w.attempted a with
  | some localId => localId ∈ w.outbox ∧ (w.calls.all fun c => !c.undecided) ∧
      w.posted.all (·.localId < localId)
  | none => true

/-- Every entry is posted at most once, never by an attempt begun after it was discarded, leaves the
outbox only by being posted or discarded, and the numbers of those posted go up in the order they
were written. -/
structure ExactlyOnce (w : World) : Prop where
  once : (w.posted.map (·.localId)).Nodup
  timely : ∀ p ∈ w.posted, p.late = false
  kept : ∀ localId < w.entries.length,
    localId ∈ w.outbox ∨ localId ∈ w.posted.map (·.localId) ∨ localId ∈ w.discarded
  ordered : w.posted.Pairwise fun p q => p.localId < q.localId ∧ p.seq < q.seq

/-- A session just opened: the entries restored from the disk are queued, and nothing is under way. -/
structure Initial (w : World) : Prop where
  outbox : w.outbox = List.range w.entries.length
  discarded : w.discarded = []
  calls : w.calls = []
  posted : w.posted = []

end World

/-! ## The invariant -/

/-- What a call under way may yet post, or has posted. -/
def Phase.Ok (posted : List Posted) : Phase → Prop
  | .posting localId late => late = false ∧ ∀ p ∈ posted, p.localId < localId
  | .stored localId _ | .recording localId => localId ∈ posted.map (·.localId)
  | .saving _ | .settling _ | .done => True

structure Inv (w : World) : Prop where
  kept : ∀ localId < w.entries.length,
    localId ∈ w.outbox ∨ localId ∈ w.posted.map (·.localId) ∨ localId ∈ w.discarded
  queued : ∀ localId ∈ w.outbox, localId < w.entries.length ∧ localId ∉ w.discarded
  discarded : ∀ localId ∈ w.discarded, localId < w.entries.length
  timely : ∀ p ∈ w.posted, p.late = false
  ordered : w.posted.Pairwise fun p q => p.localId < q.localId ∧ p.seq < q.seq
  numbers : ∀ p ∈ w.posted, p.seq ≤ w.nextSeq
  calls : ∀ c ∈ w.calls, c.phase.Ok w.posted
  exclusive : Tasks.Exclusive (fun c : Call => c.undecided = true) w.calls

variable {w : World}

@[simp] theorem World.length_setState :
    (w.setState localId state).entries.length = w.entries.length := List.length_modify ..

/-- No other post is undecided, and the entry comes after all that are posted. -/
structure World.MayBegin (w : World) (localId : Nat) : Prop where
  queued : localId ∈ w.outbox
  alone : ∀ c ∈ w.calls, ¬ c.undecided = true
  latest : ∀ p ∈ w.posted, p.localId < localId

theorem World.mayBegin_of_oneAtATime (hg : w.oneAtATime a) (ha : w.attempted a = some localId) :
    w.MayBegin localId := by
  simp only [oneAtATime, ha, decide_eq_true_eq, List.all_eq_true, Bool.not_eq_true'] at hg
  obtain ⟨queued, alone, latest⟩ := hg
  exact ⟨queued, fun c hc => Bool.eq_false_iff.1 (alone c hc), latest⟩

namespace Inv

theorem setState (h : Inv w) : Inv (w.setState localId state) where
  kept id hid := h.kept id (World.length_setState ▸ hid)
  queued id hid := (h.queued id hid).imp_left (World.length_setState.symm ▸ ·)
  discarded id hid := World.length_setState.symm ▸ h.discarded id hid
  timely := h.timely
  ordered := h.ordered
  numbers := h.numbers
  calls := h.calls
  exclusive := h.exclusive

theorem setCall (h : Inv w) (at_ : w.calls[i]? = some old) (ok : new.phase.Ok w.posted)
    (hnew : new.undecided → old.undecided ∨ ∀ c ∈ w.calls, ¬ c.undecided = true) :
    Inv (w.setCall i new) :=
  { h with
    calls := Tasks.forall_mem_set h.calls ok
    exclusive := h.exclusive.set at_ hnew }

/-- An attempt begins as the guard has it. -/
theorem ok_flush (h : Inv w) (begins : w.MayBegin localId) :
    Phase.Ok w.posted (.posting localId (localId ∈ w.discarded)) :=
  ⟨decide_eq_false (h.queued localId begins.queued).2, begins.latest⟩

theorem startFlush (h : Inv w) (begins : w.MayBegin localId) : Inv (w.startFlush localId rest) :=
  { h.setState with
    calls := Tasks.forall_mem_concat h.calls (h.ok_flush begins)
    exclusive := h.exclusive.concat_of_free fun _ => begins.alone }

theorem nextFlush (h : Inv w) (at_ : w.calls[i]? = some c) (begins : w.MayBegin localId) :
    Inv (w.nextFlush i localId rest) :=
  h.setState.setCall at_ (h.ok_flush begins) fun _ => .inr begins.alone

theorem send (h : Inv w) : Inv { w with
    entries := w.entries ++ [entry]
    outbox := w.outbox ++ [w.entries.length]
    calls := w.calls ++ [⟨.saving w.entries.length, []⟩] } where
  kept localId hid := by
    rw [List.length_append] at hid
    rcases Nat.lt_succ_iff_lt_or_eq.1 hid with hid | rfl
    · exact (h.kept localId hid).imp_left (List.mem_append_left _)
    · exact .inl (List.mem_append_right _ (List.mem_singleton_self _))
  queued := by
    have length : (w.entries ++ [entry]).length = w.entries.length + 1 := List.length_append
    refine Tasks.forall_mem_concat (fun localId hid => ?_) ?_
    · exact (h.queued localId hid).imp_left fun hlt => length ▸ Nat.lt_succ_of_lt hlt
    · exact ⟨length ▸ Nat.lt_succ_self _, fun hid => Nat.lt_irrefl _ (h.discarded _ hid)⟩
  discarded localId hid := by
    rw [List.length_append]
    exact Nat.lt_add_right _ (h.discarded localId hid)
  timely := h.timely
  ordered := h.ordered
  numbers := h.numbers
  calls := Tasks.forall_mem_concat h.calls trivial
  exclusive := h.exclusive.concat Bool.false_ne_true

theorem discard (h : Inv w) (localId : Nat) : Inv { w with
    outbox := w.outbox.filter (· ≠ localId)
    discarded := if localId ∈ w.outbox then w.discarded ++ [localId] else w.discarded } := by
  have dropped : ∀ id, id ∈ (if localId ∈ w.outbox then w.discarded ++ [localId] else w.discarded) ↔
      id ∈ w.discarded ∨ (id = localId ∧ localId ∈ w.outbox) := by
    intro id
    split <;> simp [*]
  refine { h with kept := fun id hid => ?_, queued := fun id hid => ?_, discarded := fun id hid => ?_ }
  · rcases h.kept id hid with hq | hp | hd
    · by_cases heq : id = localId
      · exact .inr (.inr ((dropped id).2 (.inr ⟨heq, heq ▸ hq⟩)))
      · exact .inl (List.mem_filter.2 ⟨hq, decide_eq_true heq⟩)
    · exact .inr (.inl hp)
    · exact .inr (.inr ((dropped id).2 (.inl hd)))
  · obtain ⟨hid, hne⟩ := List.mem_filter.1 hid
    refine (h.queued id hid).imp_right fun hnot hd => ?_
    rcases (dropped id).1 hd with hd | ⟨heq, _⟩
    · exact hnot hd
    · exact of_decide_eq_true hne heq
  · rcases (dropped id).1 hid with hid | ⟨rfl, hq⟩
    · exact h.discarded id hid
    · exact (h.queued id hq).1

/-- What the server stores comes after everything it has stored before. -/
theorem store (h : Inv w) (at_ : w.calls[i]? = some ⟨.posting localId late, rest⟩) :
    Inv (World.setCall { w with
      nextSeq := w.nextSeq + 1
      posted := w.posted ++ [⟨localId, w.nextSeq + 1, late⟩] } i
        ⟨.stored localId (w.nextSeq + 1), rest⟩) := by
  let row : Posted := ⟨localId, w.nextSeq + 1, late⟩
  obtain ⟨timely, latest⟩ := h.calls _ (List.mem_of_getElem? at_)
  have more : ∀ id ∈ w.posted.map (·.localId), id ∈ (w.posted ++ [row]).map (·.localId) :=
    fun id hid => List.map_append ▸ List.mem_append_left _ hid
  refine ⟨fun id hid => ?_, h.queued, h.discarded, Tasks.forall_mem_concat h.timely timely,
    List.pairwise_append.2 ⟨h.ordered, List.pairwise_singleton _ _, ?_⟩,
    Tasks.forall_mem_concat (fun p hp => Nat.le_succ_of_le (h.numbers p hp)) (Nat.le_refl _),
    fun c hc => ?_, h.exclusive.set at_ fun hnew => nomatch hnew⟩
  · exact (h.kept id hid).imp_right (Or.imp_left (more id))
  · intro p hp q hq
    cases List.mem_singleton.1 hq
    exact ⟨latest p hp, Nat.lt_succ_of_le (h.numbers p hp)⟩
  · obtain ⟨j, hj⟩ := List.mem_iff_getElem?.1 hc
    rcases (Tasks.getElem?_set_eq_some_iff at_).1 hj with ⟨_, rfl⟩ | ⟨hne, hj⟩
    · exact List.mem_map.2 ⟨row, List.mem_append_right _ (List.mem_singleton_self _), rfl⟩
    · have ok := h.calls c (List.mem_of_getElem? hj)
      obtain ⟨phase, _⟩ := c
      cases phase with
      | posting id' late' => exact absurd (h.exclusive hj at_ rfl rfl) hne
      | stored | recording => exact more _ ok
      | saving | settling | done => trivial

theorem answer (h : Inv w) (at_ : w.calls[i]? = some ⟨.stored localId seq, rest⟩) :
    Inv (World.setCall { w with mine := w.mine ++ [seq], messages := w.messages ++ [message] } i
      ⟨.recording localId, rest⟩) := by
  have posted : localId ∈ w.posted.map (·.localId) := h.calls _ (List.mem_of_getElem? at_)
  have same : Inv { w with mine := w.mine ++ [seq], messages := w.messages ++ [message] } :=
    { h with }
  exact same.setCall at_ posted fun hnew => nomatch hnew

/-- An entry leaves the outbox once it is posted. -/
theorem recorded (h : Inv w) (at_ : w.calls[i]? = some ⟨.recording localId, rest⟩) :
    Inv (World.setCall { w with outbox := w.outbox.filter (· ≠ localId) } i
      ⟨.settling localId, rest⟩) := by
  have posted : localId ∈ w.posted.map (·.localId) := h.calls _ (List.mem_of_getElem? at_)
  have same : Inv { w with outbox := w.outbox.filter (· ≠ localId) } := { h with
    kept := fun id hid => by
      rcases h.kept id hid with hq | hrest
      · by_cases heq : id = localId
        · exact .inr (.inl (heq ▸ posted))
        · exact .inl (List.mem_filter.2 ⟨hq, decide_eq_true heq⟩)
      · exact .inr hrest
    queued := fun id hid => h.queued id (List.mem_filter.1 hid).1 }
  exact same.setCall at_ trivial fun hnew => nomatch hnew

theorem resume (h : Inv w) (at_ : w.calls[i]? = some c) (hg : w.oneAtATime (.resume i))
    (hs : w.resume i c = some w') : Inv w' := by
  have attempted : w.attempted (.resume i) = (w.nextAttempt c).map (·.1) := by
    simp only [World.attempted, at_, Option.bind_some]
  simp only [World.resume] at hs
  split at hs
  next localId rest hnext =>
    cases hs
    rw [hnext] at attempted
    exact h.nextFlush at_ (World.mayBegin_of_oneAtATime hg attempted)
  next =>
    obtain ⟨phase, rest⟩ := c
    split at hs
    next heq =>
      cases hs
      cases heq
      exact h.recorded at_
    next =>
      cases hs
      exact h.setCall at_ trivial fun hnew => nomatch hnew
    next => cases hs

theorem step (h : Inv w) (hg : w.oneAtATime a) (hs : w.step a = some w') : Inv w' := by
  cases a with
  | send text sentAt =>
    cases hs
    exact h.send
  | retry localId =>
    obtain ⟨hqueued, hs⟩ := Option.ite_none_right_eq_some.1 hs
    cases hs
    exact h.startFlush (World.mayBegin_of_oneAtATime hg (if_pos hqueued))
  | discard localId =>
    cases hs
    exact h.discard localId
  | flushOutbox =>
    simp only [World.step] at hs
    split at hs
    · cases hs
    next localId rest hqueue =>
      cases hs
      exact h.startFlush (World.mayBegin_of_oneAtATime hg (congrArg List.head? hqueue))
  | resume i =>
    simp only [World.step] at hs
    split at hs
    next at_ => exact h.resume at_ hg hs
    next => cases hs
  | store i =>
    simp only [World.step] at hs
    split at hs
    next at_ =>
      cases hs
      exact h.store at_
    next => cases hs
  | answer i =>
    simp only [World.step] at hs
    split at hs
    next at_ =>
      split at hs
      · cases hs
        exact h.answer at_
      · cases hs
    next => cases hs
  | fail i =>
    simp only [World.step] at hs
    split at hs
    next at_ =>
      cases hs
      exact h.setState.setCall at_ trivial fun hnew => nomatch hnew
    next => cases hs
  | otherPost =>
    cases hs
    exact { h with numbers := fun p hp => Nat.le_succ_of_le (h.numbers p hp) }

theorem exactlyOnce (h : Inv w) : w.ExactlyOnce where
  once := List.pairwise_map.2 (h.ordered.imp fun hlt => Nat.ne_of_lt hlt.1)
  timely := h.timely
  kept := h.kept
  ordered := h.ordered

end Inv

theorem World.Initial.inv (h : w.Initial) : Inv w where
  kept localId hid := .inl (h.outbox ▸ List.mem_range.2 hid)
  queued localId hid := by
    rw [h.discarded]
    exact ⟨List.mem_range.1 (h.outbox ▸ hid), List.not_mem_nil⟩
  discarded _ hid := by
    rw [h.discarded] at hid
    cases hid
  timely _ hp := by
    rw [h.posted] at hp
    cases hp
  ordered := h.posted ▸ .nil
  numbers _ hp := by
    rw [h.posted] at hp
    cases hp
  calls _ hc := by
    rw [h.calls] at hc
    cases hc
  exclusive := h.calls ▸ .of_none fun _ hc => nomatch hc

/-- In every run in which attempts are made one at a time, in the order the entries were written and
on those still queued, every message is posted at most once and in order, and none is lost. -/
theorem exactlyOnce_of_oneAtATime {s t : World} (start : s.Initial)
    (h : Reach World.step (fun w a => w.oneAtATime a) s t) : t.ExactlyOnce :=
  (h.invariant start.inv fun hi hg hs => hi.step hg hs : Inv t).exactlyOnce

/-! ## Two messages, one after the other -/

def emptyOutbox : World where
  entries := []
  outbox := []
  messages := []
  mine := []
  discarded := []
  calls := []
  nextSeq := 0
  posted := []

theorem emptyOutbox_initial : emptyOutbox.Initial := ⟨rfl, rfl, rfl, rfl⟩

/-- The first message fails and is posted by `flushOutbox`, and so is the second, written
meanwhile. -/
def failThenFlush : List Action :=
  [.send "hi" 10, .resume 0, .fail 0, .resume 0, .flushOutbox, .store 1, .otherPost, .answer 1,
    .resume 1, .resume 1, .send "there" 20, .resume 2, .store 2, .answer 2, .resume 2, .resume 2]

theorem exactlyOnce_of_oneAtATime_failThenFlush : ∃ t,
    Reach World.step (fun w a => w.oneAtATime a) emptyOutbox t ∧
    t.messages = [⟨1, "hi", 10⟩, ⟨3, "there", 20⟩] ∧ t.outbox = [] ∧ t.ExactlyOnce := by
  have posted : ∃ t, run (fun w a => if w.oneAtATime a then w.step a else none) emptyOutbox
      failThenFlush = some t ∧ t.messages = [⟨1, "hi", 10⟩, ⟨3, "there", 20⟩] ∧ t.outbox = [] :=
    ⟨_, rfl, rfl, rfl⟩
  obtain ⟨t, h, messages, outbox⟩ := posted
  have reached : Reach _ (fun w a => w.oneAtATime a) emptyOutbox t :=
    Transition.reach_of_run_guarded h
  exact ⟨t, reached, messages, outbox, exactlyOnce_of_oneAtATime emptyOutbox_initial reached⟩

/-! ## A message in flight when the network comes back -/

/-- The queue is flushed while the only message in it is being sent. -/
def flushInFlight : List Action :=
  [.send "hi" 10, .resume 0, .flushOutbox, .store 0, .store 1]

/-- The message is posted twice. -/
theorem flush_in_flight_posts_twice : ∃ t, emptyOutbox.Initial ∧
    run World.step emptyOutbox flushInFlight = some t ∧
    t.posted = [⟨0, 1, false⟩, ⟨0, 2, false⟩] ∧ ¬ t.ExactlyOnce := by
  have posted : ∃ t, run World.step emptyOutbox flushInFlight = some t ∧
      t.posted = [⟨0, 1, false⟩, ⟨0, 2, false⟩] := ⟨_, rfl, rfl⟩
  obtain ⟨t, h, posted⟩ := posted
  refine ⟨t, emptyOutbox_initial, h, posted, fun exactly => ?_⟩
  have once := exactly.once
  rw [posted] at once
  exact absurd once (by decide)

end Whispee.Session.Outbox
