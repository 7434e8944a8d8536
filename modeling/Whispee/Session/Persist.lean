import Whispee.Bytes
import Whispee.Lib.Tasks
import Whispee.Lib.Transition
import Mathlib.Data.List.Sort

/-!
# Writing the session down

`persist` and `forget` of `apps/web/src/lib/session.ts`, `composeStored` of
`apps/web/src/lib/session-persist.ts` and `encodeHistory` of `apps/web/src/lib/history.ts`, one step
for each of their awaits. A sealed field is held as what it opens to. `composeStored` reads most of
the session when it is called; the posting keys and the history it reads after two awaits.
-/

namespace Whispee.Session.Persist

open Transition

/-! ## What is written -/

/-- Messages of a conversation that are kept. -/
def RECENT_PER_CONVERSATION : Nat := 200

structure Message where
  seq : Nat
  sender : String
  mine : Bool
  /-- The content and the time it was sent, encoded. -/
  body : Bytes
  expiresAt : Option Nat
  deriving DecidableEq, Repr

structure Pending where
  localId : String
  text : String
  sentAt : Nat
  deriving DecidableEq, Repr

/-- What a conversation contributes to the stored session. -/
structure View where
  cursor : Nat
  postingKey : Option Bytes
  messages : List Message
  outbox : List Pending
  readCursor : Nat
  deriving DecidableEq, Repr

structure StoredHistory where
  conversations : List (String × List Message)
  outbox : List (String × List Pending)
  read : List (String × Nat)
  deriving DecidableEq, Repr

def encodeHistory (conversations : List (String × View)) : StoredHistory where
  conversations := conversations.filterMap fun (key, view) =>
    let sorted := view.messages.insertionSort (·.seq ≤ ·.seq)
    let recent := sorted.drop (sorted.length - RECENT_PER_CONVERSATION)
    if recent = [] then none else some (key, recent)
  outbox := conversations.filterMap fun (key, view) =>
    if view.outbox = [] then none else some (key, view.outbox)
  read := conversations.filterMap fun (key, view) =>
    if view.readCursor > 0 then some (key, view.readCursor) else none

/-- The session in memory; `settings` is all that is read with the MLS state and no step looks
into: account, names, trust, preferences. -/
structure Live (Settings : Type) where
  settings : Settings
  mlsState : Bytes
  groupIds : List Bytes
  conversations : List (String × View)

/-- What `composeStored` is handed or reads before its first await. -/
structure Early (Settings : Type) where
  settings : Settings
  mlsState : Bytes
  groupIds : List Bytes
  cursors : List (String × Nat)
  deriving DecidableEq, Repr

/-- What it reads once the MLS state is sealed. -/
structure Late where
  postingKeys : List (String × Bytes)
  history : StoredHistory
  deriving DecidableEq, Repr

/-- The record: what its sealed fields open to. -/
structure StoredSession (Settings : Type) extends Early Settings, Late
  deriving DecidableEq, Repr

variable {Settings : Type}

def Live.early (l : Live Settings) : Early Settings where
  settings := l.settings
  mlsState := l.mlsState
  groupIds := l.groupIds
  cursors := l.conversations.map fun (key, view) => (key, view.cursor)

/-- The posting keys of the conversations there were at the call, and the history of those there
are. -/
def Live.late (l : Live Settings) (early : Early Settings) : Late where
  postingKeys := l.conversations.filterMap fun (key, view) =>
    if key ∈ early.cursors.map (·.1) then view.postingKey.map (key, ·) else none
  history := encodeHistory l.conversations

/-- `composeStored` without its awaits: the record of one instant. -/
def composeStored (l : Live Settings) : StoredSession Settings := ⟨l.early, l.late l.early⟩

/-! ## Calls under way -/

/-- How far a `persist` has come: the await it stands at and what it remembers. -/
inductive Phase (Settings : Type) where
  | sealingSeed (early : Early Settings)
  | sealingState (early : Early Settings)
  | sealingHistory (stored : StoredSession Settings)
  | saving (stored : StoredSession Settings)
  | written (stored : StoredSession Settings)
  | failed

structure Call (Settings : Type) where
  phase : Phase Settings
  /-- The states the session has been in from the call until the last of it was read. -/
  instants : List (Live Settings)

/-- The record is yet to be written. -/
def Call.running (c : Call Settings) : Bool :=
  match c.phase with
  | .written _ | .failed => false
  | _ => true

structure World (Settings : Type) where
  live : Live Settings
  forgotten : Bool
  store : Option (StoredSession Settings)
  /-- The `persist` calls, in the order they started. -/
  persists : List (Call Settings)
  /-- The `forget` calls, and whether their `clear` has taken effect. -/
  clears : List Bool

inductive Action (Settings : Type) where
  /-- The session changes, in whatever way and between two awaits. -/
  | change (live : Live Settings)
  | persist
  /-- A `persist` goes on to its next await; the last one is the write. -/
  | resume (call : Nat)
  | fail (call : Nat)
  | forget
  /-- The `clear` of a `forget` takes effect. -/
  | clear (call : Nat)

namespace World

/-- Between its first reading and its last, a call sees the session change. -/
def observe (live : Live Settings) (c : Call Settings) : Call Settings :=
  match c.phase with
  | .sealingSeed _ | .sealingState _ => { c with instants := c.instants ++ [live] }
  | _ => c

def setPhase (w : World Settings) (i : Nat) (c : Call Settings) (phase : Phase Settings) :
    World Settings :=
  { w with persists := w.persists.set i { c with phase } }

def resume (w : World Settings) (i : Nat) (c : Call Settings) : Option (World Settings) :=
  match c.phase with
  | .sealingSeed early => some (w.setPhase i c (.sealingState early))
  | .sealingState early => some (w.setPhase i c (.sealingHistory ⟨early, w.live.late early⟩))
  | .sealingHistory stored => some (w.setPhase i c (.saving stored))
  | .saving stored => some { w.setPhase i c (.written stored) with store := some stored }
  | .written _ | .failed => none

def step (w : World Settings) : Action Settings → Option (World Settings)
  | .change live => some { w with live, persists := w.persists.map (observe live) }
  | .persist =>
    if w.forgotten then none
    else some { w with persists := w.persists ++ [⟨.sealingSeed w.live.early, [w.live]⟩] }
  | .resume i =>
    match w.persists[i]? with
    | some c => w.resume i c
    | none => none
  | .fail i =>
    match w.persists[i]? with
    | some c => if c.running then some (w.setPhase i c .failed) else none
    | none => none
  | .forget => some { w with forgotten := true, clears := w.clears ++ [false] }
  | .clear j =>
    match w.clears[j]? with
    | some false => some { w with store := none, clears := w.clears.set j true }
    | _ => none

/-- Every operation started has finished. -/
def quiet (w : World Settings) : Bool := (w.persists.all fun c => !c.running) ∧ w.clears.all id

/-- A session just opened, over the record it was opened from. -/
structure Initial (w : World Settings) : Prop where
  forgotten : w.forgotten = false
  persists : w.persists = []
  clears : w.clears = []

end World

/-! ## Forgetting -/

namespace World

/-- A `clear` takes effect while no `persist` that has passed its check is still running, or another
`clear` is still to come. -/
def clearsLast (w : World Settings) : Action Settings → Bool
  | .clear j => (w.persists.all fun c => !c.running) ∨ ∃ k ∈ List.range w.clears.length,
      k ≠ j ∧ w.clears[k]? = some false
  | _ => true

/-- Once a `forget` has resolved and every operation has finished, the store is empty. -/
def Final (w : World Settings) : Prop := w.quiet → true ∈ w.clears → w.store = none

end World

/-- Once a `clear` has taken effect, nothing is left to undo it, or another is to come. -/
structure Forgotten (w : World Settings) : Prop where
  forgotten : w.clears ≠ [] → w.forgotten = true
  empty : true ∈ w.clears → false ∈ w.clears ∨ (w.store = none ∧ ∀ c ∈ w.persists, c.running = false)

variable {w : World Settings}

theorem running_observe (live : Live Settings) (c : Call Settings) :
    (World.observe live c).running = c.running := by
  obtain ⟨phase, instants⟩ := c
  cases phase <;> rfl

theorem not_running_of_resume (hs : w.resume i c = some w') : c.running = true := by
  obtain ⟨phase, instants⟩ := c
  cases phase with
  | written | failed => cases hs
  | _ => rfl

/-- What a step of a `persist` leaves alone. -/
theorem resume_eq (hs : w.resume i c = some w') :
    w'.clears = w.clears ∧ w'.forgotten = w.forgotten ∧ w'.live = w.live := by
  obtain ⟨phase, instants⟩ := c
  cases phase with
  | written | failed => cases hs
  | _ =>
    cases hs
    exact ⟨rfl, rfl, rfl⟩

namespace Forgotten

/-- A call that is still running has nothing behind it that it could undo. -/
theorem of_running (h : Forgotten w) (hc : c ∈ w.persists) (running : c.running = true)
    (clears : w'.clears = w.clears) (forgotten : w'.forgotten = w.forgotten) : Forgotten w' where
  forgotten hne := forgotten ▸ h.forgotten (clears ▸ hne)
  empty htrue := by
    rw [clears] at htrue ⊢
    refine .inl ((h.empty htrue).resolve_right fun ⟨_, finished⟩ => ?_)
    exact Bool.noConfusion ((finished c hc).symm.trans running)

theorem step (h : Forgotten w) (hg : w.clearsLast a) (hs : w.step a = some w') : Forgotten w' := by
  cases a with
  | change live =>
    cases hs
    refine ⟨h.forgotten, fun htrue => (h.empty htrue).imp_right (And.imp_right fun finished c hc => ?_)⟩
    obtain ⟨c, hold, rfl⟩ := List.mem_map.1 hc
    exact (running_observe live c).trans (finished c hold)
  | persist =>
    simp only [World.step] at hs
    split at hs
    · cases hs
    next hnot =>
      cases hs
      have clears : w.clears = [] := by
        by_contra hne
        exact hnot (h.forgotten hne)
      refine ⟨h.forgotten, fun htrue => ?_⟩
      rw [clears] at htrue
      cases htrue
  | resume i =>
    simp only [World.step] at hs
    split at hs
    next at_ =>
      obtain ⟨clears, forgotten, _⟩ := resume_eq hs
      exact h.of_running (List.mem_of_getElem? at_) (not_running_of_resume hs) clears forgotten
    next => cases hs
  | fail i =>
    simp only [World.step] at hs
    split at hs
    next c at_ =>
      obtain ⟨running, hs⟩ := Option.ite_none_right_eq_some.1 hs
      cases hs
      exact h.of_running (List.mem_of_getElem? at_) running rfl rfl
    next => cases hs
  | forget =>
    cases hs
    exact ⟨fun _ => rfl, fun _ => .inl (List.mem_append_right _ (List.mem_singleton_self _))⟩
  | clear j =>
    simp only [World.step] at hs
    split at hs
    next at_ =>
      cases hs
      have some_clear : w.clears ≠ [] := by
        intro hnil
        rw [hnil] at at_
        cases at_
      refine ⟨fun _ => h.forgotten some_clear, fun _ => ?_⟩
      rcases of_decide_eq_true hg with finished | ⟨k, _, hne, hk⟩
      · refine .inr ⟨rfl, fun c hc => ?_⟩
        simpa using List.all_eq_true.1 finished c hc
      · refine .inl (List.mem_of_getElem? (i := k) ?_)
        rw [List.getElem?_set_ne (Ne.symm hne)]
        exact hk
    next => cases hs

theorem final (h : Forgotten w) : w.Final := by
  intro quiet htrue
  obtain ⟨_, cleared⟩ := of_decide_eq_true quiet
  rcases h.empty htrue with hfalse | ⟨empty, _⟩
  · exact absurd (List.all_eq_true.1 cleared false hfalse) Bool.false_ne_true
  · exact empty

end Forgotten

/-- In every run in which the last `clear` to take effect finds no `persist` running, forgetting is
final. -/
theorem final_of_clearsLast {s t : World Settings} (start : s.Initial)
    (h : Reach World.step (fun w a => w.clearsLast a) s t) : t.Final := by
  have initial : Forgotten s :=
    ⟨fun hne => absurd start.clears hne, fun htrue => by rw [start.clears] at htrue; cases htrue⟩
  exact (h.invariant initial fun hi hg hs => hi.step hg hs : Forgotten t).final

/-! ## A session that is written and forgotten -/

/-- A session of one conversation, over an empty store; only its settings are named. -/
def oneConversation : World String where
  live := ⟨"alice", [1], [[0xab]], [("ab", ⟨3, none, [], [], 0⟩)]⟩
  forgotten := false
  store := none
  persists := []
  clears := []

theorem oneConversation_initial : oneConversation.Initial := ⟨rfl, rfl, rfl⟩

/-- The session is forgotten while two calls of `persist` seal the state. One of them writes after
that, the other fails, and then the store is cleared. -/
def forgetMeanwhile : List (Action String) :=
  [.persist, .resume 0, .persist, .resume 1, .forget, .resume 0, .resume 0, .resume 0, .fail 1,
    .clear 0]

theorem final_of_clearsLast_forgetMeanwhile : ∃ t,
    Reach World.step (fun w a => w.clearsLast a) oneConversation t ∧ t.quiet ∧
    t.persists.length = 2 ∧ true ∈ t.clears ∧ t.store = none := by
  have cleared : ∃ t, run (fun w a => if w.clearsLast a then w.step a else none) oneConversation
      forgetMeanwhile = some t ∧ t.quiet ∧ t.persists.length = 2 ∧ true ∈ t.clears :=
    ⟨_, rfl, by decide, rfl, by decide⟩
  obtain ⟨t, h, quiet, persisted, resolved⟩ := cleared
  have reached : Reach _ (fun w a => w.clearsLast a) oneConversation t :=
    Transition.reach_of_run_guarded h
  exact ⟨t, reached, quiet, persisted, resolved,
    final_of_clearsLast oneConversation_initial reached quiet resolved⟩

/-- The session is forgotten while a `persist` that has passed its check seals the state. -/
def forgetWhileSealing : List (Action String) :=
  [.persist, .resume 0, .forget, .clear 0, .resume 0, .resume 0, .resume 0]

/-- The identity is written back. -/
theorem forget_while_sealing_writes_back : ∃ t, oneConversation.Initial ∧
    run World.step oneConversation forgetWhileSealing = some t ∧ t.quiet ∧ true ∈ t.clears ∧
    t.store = some (composeStored oneConversation.live) ∧ ¬ t.Final := by
  have written : ∃ t, run World.step oneConversation forgetWhileSealing = some t ∧ t.quiet ∧
      true ∈ t.clears ∧ t.store = some (composeStored oneConversation.live) :=
    ⟨_, rfl, by decide, by decide, rfl⟩
  obtain ⟨t, h, quiet, resolved, store⟩ := written
  refine ⟨t, oneConversation_initial, h, quiet, resolved, store, fun final => ?_⟩
  exact Option.some_ne_none _ (store.symm.trans (final quiet resolved))

end Whispee.Session.Persist
