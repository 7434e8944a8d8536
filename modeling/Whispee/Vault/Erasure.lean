import Whispee.Lib.Tasks
import Whispee.Lib.Transition

/-!
# The archive of a conversation that expires

`setLifetime`, `sendContent`, `pollOnce`, `dropArchive` and `deposit` of
`apps/web/src/lib/session.ts`, with `Archive.store` and the batches of `vault.ts`. One conversation
of one device and what the server keeps of it for the account. A deletion that is owed is only in
memory; the cursor and the lifetime are written down. The server may still carry out what a session
asked for that has gone.
-/

namespace Whispee.Vault.Erasure

open Transition

inductive Body where
  | message
  /-- A commit that sets the lifetime. -/
  | lifetime (seconds : Nat)
  deriving DecidableEq

structure Envelope where
  /-- This device posted it, and cannot read it. -/
  mine : Bool
  body : Body
  deriving DecidableEq

structure Stored where
  lifetime : Nat
  cursor : Nat
  deriving DecidableEq

/-- A `dropVault` that has not been answered. -/
structure Drop where
  /-- The server has carried it out. -/
  executed : Bool
  /-- The lifetime was turned on after it was sent. -/
  old : Bool

/-- A deposit under way. -/
structure Deposit where
  entries : List Nat
  /-- The archive was deleted in the meantime. -/
  overtaken : Bool

inductive Task where
  /-- `pollOnce` waits for its page. -/
  | fetching
  /-- It waits for `persist`. -/
  | persisting (stored : Stored) (lifetimeBefore before : Nat)
  /-- `setLifetime` waits for the server to take its commit. -/
  | posting (seconds : Nat)
  | recording (stored : Stored)
  /-- `dropArchive`; `pollOnce` deposits the messages from `before` on afterwards. -/
  | dropping (drop : Drop) (before : Option Nat)
  /-- `sendContent` waits for `persist`. -/
  | keeping (stored : Stored) (seq : Nat)
  | saving (stored : Stored)

structure Live where
  lifetime : Nat
  cursor : Nat
  /-- The conversation is among `archiveDropsOwed`. -/
  owed : Bool
  stale : Bool
  /-- The thread, as far as this session has added to it. -/
  messages : List Nat
  tasks : List Task

structure World where
  session : Option Live
  stored : Stored
  log : List Envelope
  vault : List Nat
  deposits : List Deposit
  /-- The deletions nobody waits for any more. -/
  lost : Nat

inductive Action where
  | reopen
  | close
  /-- Another member posts. -/
  | post (body : Body)
  | poll
  /-- The server answers with so many envelopes. -/
  | fetched (i n : Nat)
  | fetchFailed (i : Nat)
  /-- The server no longer holds what follows the cursor. -/
  | interrupted (i : Nat)
  | setLifetime (seconds : Nat)
  | posted (i : Nat)
  | postFailed (i : Nat) (stored : Bool)
  | send
  | persist
  /-- The session is written down; a deposit that follows is one the settings allow, or not. -/
  | persisted (i : Nat) (archives : Bool)
  | persistFailed (i : Nat)
  /-- The server carries out a deletion. -/
  | erased (i : Nat)
  | dropped (i : Nat) (archives : Bool)
  | dropFailed (i : Nat) (archives : Bool)
  | erasedLate
  /-- The server takes the next batch of a deposit. -/
  | deposited (j : Nat)
  | depositFailed (j : Nat)

/-- The batch size of `vault.store`. -/
def PAGE : Nat := 200

namespace Task

def isPoll : Task → Bool
  | .fetching => true
  | .persisting _ _ _ => true
  | .dropping _ before => before.isSome
  | _ => false

/-- What it waits for to be written down. -/
def snapshot : Task → Option Stored
  | .persisting stored _ _ => some stored
  | .recording stored => some stored
  | .keeping stored _ => some stored
  | .saving stored => some stored
  | _ => none

/-- A session that is told to forget, and has yet to write it down. -/
def turning : Task → Bool
  | .persisting stored lifetimeBefore _ => lifetimeBefore = 0 ∧ 0 < stored.lifetime
  | .recording stored => 0 < stored.lifetime
  | _ => false

def unsent : Task → Bool
  | .dropping drop _ => !drop.executed
  | _ => false

def old : Task → Bool
  | .dropping drop _ => drop.old
  | _ => false

/-- The lifetime is turned on. -/
def age : Task → Task
  | .dropping drop before => .dropping { drop with old := true } before
  | task => task

end Task

def lifetimeAfter (lifetime : Nat) (page : List (Envelope × Nat)) : Nat :=
  page.foldl (fun lifetime row =>
    match row.1 with
    | ⟨false, .lifetime seconds⟩ => seconds
    | _ => lifetime) lifetime

def messagesOf (page : List (Envelope × Nat)) : List Nat :=
  (page.filter fun row => row.1 = ⟨false, .message⟩).map Prod.snd

namespace Live

variable (s : Live)

def snapshot : Stored := ⟨s.lifetime, s.cursor⟩

/-- Another lifetime is in force. -/
def turn (seconds : Nat) : Live :=
  { s with
    lifetime := seconds
    tasks := if s.lifetime = 0 ∧ 0 < seconds then s.tasks.map Task.age else s.tasks }

def start (task : Task) : Live := { s with tasks := s.tasks ++ [task] }

def finish (i : Nat) : Live := { s with tasks := s.tasks.eraseIdx i }

def next (i : Nat) (task : Task) : Live := { s with tasks := s.tasks.set i task }

/-- `dropArchive`. -/
def dropArchive (i : Nat) (before : Option Nat) : Live :=
  ({ s with owed := true } : Live).next i (.dropping ⟨false, false⟩ before)

/-- `pollOnce` absorbs its page. -/
def fetched (i : Nat) (page : List (Envelope × Nat)) : Live :=
  let cursor := page.foldl (fun cursor row => max cursor row.2) s.cursor
  let lifetime := lifetimeAfter s.lifetime page
  let messages := s.messages ++ messagesOf page
  (({ s with cursor, messages } : Live).next i
    (.persisting ⟨lifetime, cursor⟩ s.lifetime s.messages.length)).turn lifetime

/-- `sendContent`, once the server has taken the message. -/
def sent (seq : Nat) : Live :=
  ({ s with messages := s.messages ++ [seq] } : Live).start (.keeping s.snapshot seq)

/-- A deletion is owed, or about to be. -/
def owing : Bool := s.owed || s.tasks.any Task.turning

/-- What `pollOnce` has to deposit. -/
def since (before : Option Nat) : List Nat :=
  match before with
  | some before => s.messages.drop before
  | none => []

end Live

namespace World

variable (w : World)

def put (s : Live) : World := { w with session := some s }

def post (mine : Bool) (body : Body) : World := { w with log := w.log ++ [⟨mine, body⟩] }

def page (cursor n : Nat) : List (Envelope × Nat) := ((w.log.zipIdx 1).drop cursor).take n

/-- `deposit`. -/
def deposit (s : Live) (messages : List Nat) (archives : Bool) : World :=
  if archives ∧ messages ≠ [] ∧ s.lifetime = 0 then
    { w with deposits := w.deposits ++ [⟨messages, false⟩] }
  else w

/-- `drop_vault`. -/
def erase : World :=
  { w with vault := [], deposits := w.deposits.map fun d => { d with overtaken := true } }

/-- `store_vault`; what is there already is not stored again. -/
def store (j : Nat) (d : Deposit) : World :=
  { w with
    vault := w.vault ++ (d.entries.take PAGE).filter (· ∉ w.vault)
    deposits :=
      if d.entries.length ≤ PAGE then w.deposits.eraseIdx j
      else w.deposits.set j { d with entries := d.entries.drop PAGE } }

/-- At most the requests that were sent outlive the session. -/
def close (s : Live) : World :=
  { w with
    session := none
    deposits := w.deposits.map fun d => { d with entries := d.entries.take PAGE }
    lost := w.lost + s.tasks.countP Task.unsent }

/-- What was waiting for `persist` goes on. -/
def persisted (s : Live) (i : Nat) (archives : Bool) : Task → World
  | .persisting _ lifetimeBefore before =>
    if s.owed || lifetimeBefore = 0 && 0 < s.lifetime then w.put (s.dropArchive i (some before))
    else (w.deposit s (s.since before) archives).put (s.finish i)
  | .recording stored =>
    if 0 < stored.lifetime then w.put (s.dropArchive i none) else w.put (s.finish i)
  | .keeping _ seq => (w.deposit s [seq] archives).put (s.finish i)
  | _ => w.put (s.finish i)

def stepLive (s : Live) : Action → Option World
  | .close => some (w.close s)
  | .poll =>
    if s.stale ∨ s.tasks.any Task.isPoll then none else some (w.put (s.start .fetching))
  | .fetched i n =>
    match s.tasks[i]? with
    | some .fetching => some (w.put (s.fetched i (w.page s.cursor n)))
    | _ => none
  | .fetchFailed i =>
    match s.tasks[i]? with
    | some .fetching => some (w.put (s.finish i))
    | _ => none
  | .interrupted i =>
    match s.tasks[i]? with
    | some .fetching => some (w.put { s.finish i with stale := true })
    | _ => none
  | .setLifetime seconds => some (w.put (s.start (.posting seconds)))
  | .posted i =>
    match s.tasks[i]? with
    | some (.posting seconds) => some ((w.post true (.lifetime seconds)).put
        ((s.next i (.recording ⟨seconds, s.cursor⟩)).turn seconds))
    | _ => none
  | .postFailed i stored =>
    match s.tasks[i]? with
    | some (.posting seconds) =>
      some ((if stored then w.post true (.lifetime seconds) else w).put (s.finish i))
    | _ => none
  | .send =>
    some ((w.post true .message).put (s.sent (w.log.length + 1)))
  | .persist => some (w.put (s.start (.saving s.snapshot)))
  | .persisted i archives =>
    s.tasks[i]?.bind fun task => task.snapshot.map fun stored =>
      { w with stored }.persisted s i archives task
  | .persistFailed i =>
    s.tasks[i]?.bind fun task => task.snapshot.map fun _ => w.put (s.finish i)
  | .erased i =>
    match s.tasks[i]? with
    | some (.dropping ⟨false, old⟩ before) =>
      some (w.erase.put (s.next i (.dropping ⟨true, old⟩ before)))
    | _ => none
  | .dropped i archives =>
    match s.tasks[i]? with
    | some (.dropping ⟨true, _⟩ before) =>
      some ((w.deposit s (s.since before) archives).put { s.finish i with owed := false })
    | _ => none
  | .dropFailed i archives =>
    match s.tasks[i]? with
    | some (.dropping drop before) =>
      some ({ w.deposit s (s.since before) archives with
        lost := if drop.executed then w.lost else w.lost + 1 }.put (s.finish i))
    | _ => none
  | _ => none

/-- What the server and the other members do by themselves. -/
def stepServer : Action → Option World
  | .post body => some (w.post false body)
  | .erasedLate => if 0 < w.lost then some { w.erase with lost := w.lost - 1 } else none
  | .deposited j => w.deposits[j]?.map (w.store j)
  | .depositFailed j => w.deposits[j]?.map fun _ => { w with deposits := w.deposits.eraseIdx j }
  | _ => none

def reopen : World :=
  w.put {
    lifetime := w.stored.lifetime
    cursor := w.stored.cursor
    owed := false
    stale := false
    messages := []
    tasks := [] }

def stepDevice (a : Action) : Option World :=
  match w.session with
  | some s => w.stepLive s a
  | none =>
    match a with
    | .reopen => some w.reopen
    | _ => none

def step (a : Action) : Option World := (w.stepServer a).or (w.stepDevice a)

/-- A conversation of which nothing is archived. -/
def start (lifetime : Nat) : World where
  session := none
  stored := ⟨lifetime, 0⟩
  log := []
  vault := []
  deposits := []
  lost := 0

end World

/-! ## What has to be the case -/

namespace World

variable (w : World)

def lifetime : Nat :=
  match w.session with
  | some s => s.lifetime
  | none => w.stored.lifetime

def owing : Bool := w.session.any Live.owing

/-- The archive is empty, and no deposit that may still get through will add to it. -/
def Erased : Prop := w.vault = [] ∧ ∀ d ∈ w.deposits, d.overtaken = true

/-- A session does not end while it owes a deletion of an archive and has written the lifetime down,
nor with one written down that it has turned off; what turns the lifetime on is written down; a
deletion that was sent before the lifetime was last turned on is not answered; and a deposit under
way as the archive is deleted does not get through. -/
def guard : Action → Bool
  | .close => w.stored.lifetime = 0 ∨ 0 < w.lifetime ∧ !w.owing
  | .persistFailed i => !(w.session.any fun s => s.tasks[i]?.any Task.turning)
  | .dropped i _ => !(w.session.any fun s => s.tasks[i]?.any Task.old)
  | .deposited j => !(w.deposits[j]?.any Deposit.overtaken)
  | _ => true

/-- The steps of the conversation that meet the condition. -/
def guarded (w : World) (a : Action) : Option World := if w.guard a then w.step a else none

/-- A poll whose calls succeed: the `i`-th task. -/
def poll (i n : Nat) (archives owed : Bool) : List Action :=
  [.poll, .fetched i n, .persisted i archives] ++
    if owed then [.erased i, .dropped i archives] else []

structure Erases : Prop where
  /-- What expires is not archived, unless its deletion is still owed. -/
  erased : 0 < w.lifetime → w.owing = false → w.Erased
  /-- Nothing is archived afterwards. -/
  kept : ∀ a w', w.Erased → 0 < w.lifetime → w.guarded a = some w' → w'.Erased
  /-- What is owed is carried out by the next poll that goes through. -/
  retried : ∀ s, w.session = some s → s.stale = false → (∀ task ∈ s.tasks, task.isPoll = false) →
    (∀ task ∈ s.tasks, task.turning = false) → ∀ n archives,
      ∃ owed w', run guarded w (poll s.tasks.length n archives owed) = some w' ∧
        w'.lifetime = lifetimeAfter s.lifetime (w.page s.cursor n) ∧
        (0 < w'.lifetime → w'.Erased)

end World

variable {s s' : Live} {w w' : World} {e e' : Prop}

/-- What is to be the case while the lifetime is on, where `e` says that the archive is erased. -/
structure LiveInv (e : Prop) (s : Live) : Prop where
  erased : 0 < s.lifetime → s.owing = true ∨ e
  /-- A deletion that was sent since, and that the server has carried out. -/
  executed : 0 < s.lifetime → ∀ before, .dropping ⟨true, false⟩ before ∈ s.tasks → e

structure Inv (w : World) : Prop where
  live : ∀ {s}, w.session = some s → LiveInv w.Erased s
  stored : w.session = none → 0 < w.stored.lifetime → w.Erased

theorem owing_iff : s.owing = true ↔ s.owed = true ∨ ∃ task ∈ s.tasks, task.turning = true := by
  rw [Live.owing, Bool.or_eq_true, List.any_eq_true]

/-- A debt that is left as it is, and what is about to be one. -/
theorem owing_of (howed : s.owed = s'.owed)
    (htasks : (∃ task ∈ s.tasks, task.turning = true) → ∃ task ∈ s'.tasks, task.turning = true)
    (h : s.owing = true) : s'.owing = true :=
  owing_iff.2 ((owing_iff.1 h).imp (fun hs => howed ▸ hs) htasks)

namespace Task

theorem turning_age (task : Task) : task.age.turning = task.turning := by
  cases task <;> rfl

theorem age_ne_executed (task : Task) : task.age ≠ .dropping ⟨true, false⟩ before := by
  intro h
  cases task with
  | dropping drop =>
    cases drop
    cases h
  | _ => cases h

end Task

namespace LiveInv

theorem of_imp (h : 0 < s.lifetime → e) : LiveInv e s :=
  ⟨fun hon => .inr (h hon), fun hon _ _ => h hon⟩

theorem mono (h : LiveInv e s) (himp : e → e') : LiveInv e' s :=
  ⟨fun hon => (h.erased hon).imp_right himp,
    fun hon before hmem => himp (h.executed hon before hmem)⟩

theorem start (h : LiveInv e s) (hnew : ∀ before, task ≠ .dropping ⟨true, false⟩ before) :
    LiveInv e (s.start task) where
  erased hon := by
    refine (h.erased hon).imp_left (owing_of (s := s) rfl ?_)
    rintro ⟨task, hmem, hturning⟩
    exact ⟨task, List.mem_append_left _ hmem, hturning⟩
  executed hon before hmem := by
    rcases List.mem_append.1 hmem with hold | hlast
    · exact h.executed hon before hold
    · exact absurd (List.mem_singleton.1 hlast).symm (hnew before)

theorem finish (h : LiveInv e s) (hat : s.tasks[i]? = some task) (hquiet : task.turning = false) :
    LiveInv e (s.finish i) where
  erased hon := by
    refine (h.erased hon).imp_left (owing_of (s := s) rfl (Tasks.exists_mem_eraseIdx hat ?_))
    exact hquiet ▸ Bool.false_ne_true
  executed hon before hmem := h.executed hon before (List.mem_of_mem_eraseIdx hmem)

theorem next (h : LiveInv e s) (hat : s.tasks[i]? = some old) (hquiet : old.turning = false)
    (hnew : ∀ before, task ≠ .dropping ⟨true, false⟩ before) : LiveInv e (s.next i task) where
  erased hon := by
    refine (h.erased hon).imp_left (owing_of (s := s) rfl fun hold => ?_)
    exact Tasks.exists_mem_set hat (hquiet ▸ Bool.false_ne_true) hold task
  executed hon before hmem := by
    rcases List.mem_or_eq_of_mem_set hmem with hold | hnew'
    · exact h.executed hon before hold
    · exact absurd hnew'.symm (hnew before)

/-- The lifetime changes: as it is turned on, the deletions under way are old. -/
theorem turn (h : LiveInv e s) (hnew : s.lifetime = 0 → 0 < seconds →
    ∃ task ∈ s.tasks, task.turning = true) : LiveInv e (s.turn seconds) := by
  by_cases hturned : s.lifetime = 0 ∧ 0 < seconds
  · have htasks : (s.turn seconds).tasks = s.tasks.map Task.age := if_pos hturned
    refine ⟨fun _ => .inl (owing_iff.2 (.inr ?_)), fun _ before hmem => ?_⟩
    · obtain ⟨task, hmem, hturning⟩ := hnew hturned.1 hturned.2
      rw [htasks]
      exact ⟨task.age, List.mem_map_of_mem hmem, (Task.turning_age task).trans hturning⟩
    · rw [htasks] at hmem
      obtain ⟨task, _, hage⟩ := List.mem_map.1 hmem
      exact absurd hage task.age_ne_executed
  · have htasks : (s.turn seconds).tasks = s.tasks := if_neg hturned
    have hon : 0 < seconds → 0 < s.lifetime := fun hseconds =>
      Nat.pos_of_ne_zero fun hoff => hturned ⟨hoff, hseconds⟩
    exact ⟨fun hseconds => (h.erased (hon hseconds)).imp_left (owing_of (s := s) rfl (htasks ▸ id)),
      fun hseconds before hmem => h.executed (hon hseconds) before (htasks ▸ hmem)⟩

/-- A task moves on to what turns the lifetime on. -/
theorem next_turn (h : LiveInv e s) (hat : s.tasks[i]? = some old) (hquiet : old.turning = false)
    (hnew : ∀ before, task ≠ .dropping ⟨true, false⟩ before)
    (hturning : s.lifetime = 0 → 0 < seconds → task.turning = true) :
    LiveInv e ((s.next i task).turn seconds) := by
  refine (h.next hat hquiet hnew).turn fun hoff hseconds => ⟨task, ?_, hturning hoff hseconds⟩
  exact List.mem_of_getElem? (List.getElem?_set_self (List.getElem?_eq_some_iff.1 hat).1)

theorem fetched (h : LiveInv e s) (hat : s.tasks[i]? = some .fetching)
    (page : List (Envelope × Nat)) : LiveInv e (s.fetched i page) := by
  have absorbed : LiveInv e { s with
      cursor := page.foldl (fun cursor row => max cursor row.2) s.cursor
      messages := s.messages ++ messagesOf page } := ⟨h.erased, h.executed⟩
  refine absorbed.next_turn hat rfl nofun fun hoff hseconds => ?_
  exact decide_eq_true ⟨hoff, hseconds⟩

/-- A deletion is asked for. -/
theorem dropArchive (h : LiveInv e s) (i : Nat) (before : Option Nat) :
    LiveInv e (s.dropArchive i before) where
  erased _ := .inl (owing_iff.2 (.inl rfl))
  executed hon before' hmem := by
    rcases List.mem_or_eq_of_mem_set hmem with hold | hnew
    · exact h.executed hon before' hold
    · cases hnew

end LiveInv

namespace World

theorem deposit_eq (hon : 0 < s.lifetime) (w : World) (messages : List Nat) (archives : Bool) :
    w.deposit s messages archives = w :=
  if_neg fun h => Nat.ne_of_gt hon h.2.2

theorem erased_erase (w : World) : w.erase.Erased := by
  refine ⟨rfl, fun d hd => ?_⟩
  obtain ⟨_, _, rfl⟩ := List.mem_map.1 hd
  rfl

theorem Erased.close (h : w.Erased) : (w.close s).Erased := by
  refine ⟨h.1, fun d hd => ?_⟩
  obtain ⟨d', hd', rfl⟩ := List.mem_map.1 hd
  exact h.2 d' hd'

/-- Nothing that may get through would add to the archive. -/
theorem Erased.not_late (h : w.Erased) {d : Deposit} (hd : w.deposits[j]? = some d)
    (hguard : w.guard (.deposited j)) : False := by
  unfold guard at hguard
  dsimp only at hguard
  rw [hd, Option.any_some, h.2 d (List.mem_of_getElem? hd)] at hguard
  cases hguard

end World

namespace Inv

theorem put (h : LiveInv w.Erased s) : Inv (w.put s) where
  live hs := by
    cases hs
    exact h
  stored hs := by cases hs

/-- Only a conversation without a lifetime is archived. -/
theorem put_deposit (h : LiveInv w.Erased s') (hlifetime : s'.lifetime = s.lifetime)
    (messages : List Nat) (archives : Bool) : Inv ((w.deposit s messages archives).put s') := by
  rcases Nat.eq_zero_or_pos s.lifetime with hoff | hon
  · exact put (.of_imp fun hon => absurd (hlifetime.trans hoff) (Nat.ne_of_gt hon))
  · rw [World.deposit_eq hon]
    exact put h

theorem of_erased (h : w.Erased) : Inv w where
  live _ := .of_imp fun _ => h
  stored _ _ := h

/-- The session and what is stored of it are as they were. -/
theorem server (h : Inv w) (hsession : w'.session = w.session) (hstored : w'.stored = w.stored)
    (himp : w.Erased → w'.Erased) : Inv w' where
  live hs := (h.live (hsession ▸ hs)).mono himp
  stored hs hon := himp (h.stored (hsession ▸ hs) (hstored ▸ hon))

theorem stepServer (h : Inv w) (hguard : w.guard a) (hstep : w.stepServer a = some w') :
    Inv w' := by
  unfold World.stepServer at hstep
  split at hstep
  next =>
    cases hstep
    exact h.server rfl rfl id
  next =>
    obtain ⟨_, hstep⟩ := Option.ite_none_right_eq_some.1 hstep
    cases hstep
    exact of_erased (World.erased_erase w)
  next j =>
    obtain ⟨d, hd, rfl⟩ := Option.map_eq_some_iff.1 hstep
    exact h.server rfl rfl fun herased => (herased.not_late hd hguard).elim
  next j =>
    obtain ⟨_, _, rfl⟩ := Option.map_eq_some_iff.1 hstep
    exact h.server rfl rfl fun herased =>
      ⟨herased.1, fun d hd => herased.2 d (List.mem_of_mem_eraseIdx hd)⟩
  next => cases hstep

theorem close (h : Inv w) (hs : w.session = some s) (hguard : w.guard .close) :
    Inv (w.close s) where
  live hs := by cases hs
  stored _ hon := by
    have erased : w.Erased := by
      rcases of_decide_eq_true hguard with hoff | ⟨hlifetime, howing⟩
      · exact absurd hoff (Nat.pos_iff_ne_zero.1 hon)
      · rw [World.lifetime, hs] at hlifetime
        rw [World.owing, hs, Option.any_some, Bool.not_eq_true'] at howing
        refine ((h.live hs).erased hlifetime).resolve_left ?_
        exact howing ▸ Bool.false_ne_true
    exact erased.close

theorem persisted {stored : Stored} (h : LiveInv w.Erased s) (hat : s.tasks[i]? = some task)
    (archives : Bool) (hsnapshot : task.snapshot = some stored) :
    Inv (w.persisted s i archives task) := by
  cases task with
  | persisting stored lifetimeBefore before =>
    unfold World.persisted
    dsimp only
    split
    · exact put (h.dropArchive i (some before))
    next hquiet =>
      rcases Nat.eq_zero_or_pos s.lifetime with hoff | hon
      · have finished : LiveInv w.Erased (s.finish i) :=
          .of_imp fun hon => absurd hoff (Nat.ne_of_gt hon)
        exact put_deposit finished rfl _ _
      · have hbefore : lifetimeBefore ≠ 0 := fun hzero => hquiet (by
          rw [hzero, decide_eq_true hon]
          exact Bool.or_true _)
        refine put_deposit (h.finish hat ?_) rfl _ _
        exact decide_eq_false fun hturning => hbefore hturning.1
  | recording stored =>
    unfold World.persisted
    dsimp only
    split
    · exact put (h.dropArchive i none)
    next hoff => exact put (h.finish hat (decide_eq_false hoff))
  | keeping stored seq => exact put_deposit (h.finish hat rfl) rfl _ _
  | saving stored => exact put (h.finish hat rfl)
  | fetching => cases hsnapshot
  | posting seconds => cases hsnapshot
  | dropping drop before => cases hsnapshot

theorem persistFailed (h : LiveInv w.Erased s) (hs : w.session = some s)
    (hat : s.tasks[i]? = some task) (hguard : w.guard (.persistFailed i)) :
    Inv (w.put (s.finish i)) := by
  unfold World.guard at hguard
  dsimp only at hguard
  rw [hs, Option.any_some, hat, Option.any_some, Bool.not_eq_true'] at hguard
  exact put (h.finish hat hguard)

/-- The server has deleted the archive since the lifetime was turned on. -/
theorem dropped (h : LiveInv w.Erased s) (hs : w.session = some s)
    (hat : s.tasks[i]? = some (.dropping ⟨true, old⟩ before))
    (hguard : w.guard (.dropped i archives)) :
    Inv ((w.deposit s (s.since before) archives).put { s.finish i with owed := false }) := by
  unfold World.guard at hguard
  dsimp only at hguard
  rw [hs, Option.any_some, hat, Option.any_some, Bool.not_eq_true'] at hguard
  have hold : old = false := hguard
  subst hold
  have finished : LiveInv w.Erased { s.finish i with owed := false } :=
    .of_imp fun hon => h.executed hon before (List.mem_of_getElem? hat)
  exact put_deposit finished rfl _ _

theorem stepLive (h : Inv w) (hs : w.session = some s) (hguard : w.guard a)
    (hstep : w.stepLive s a = some w') : Inv w' := by
  have hlive := h.live hs
  cases a with
  | close =>
    cases hstep
    exact h.close hs hguard
  | poll =>
    obtain ⟨_, hstep⟩ := Option.ite_none_left_eq_some.1 hstep
    cases hstep
    exact put (hlive.start nofun)
  | fetched i n =>
    simp only [World.stepLive] at hstep
    split at hstep
    next hat =>
      cases hstep
      exact put (hlive.fetched hat _)
    next => cases hstep
  | fetchFailed i =>
    simp only [World.stepLive] at hstep
    split at hstep
    next hat =>
      cases hstep
      exact put (hlive.finish hat rfl)
    next => cases hstep
  | interrupted i =>
    simp only [World.stepLive] at hstep
    split at hstep
    next hat =>
      cases hstep
      have hlive := hlive.finish hat rfl
      exact put ⟨hlive.erased, hlive.executed⟩
    next => cases hstep
  | setLifetime seconds =>
    cases hstep
    exact put (hlive.start nofun)
  | posted i =>
    simp only [World.stepLive] at hstep
    split at hstep
    next hat =>
      cases hstep
      exact put (hlive.next_turn hat rfl nofun fun _ hseconds => decide_eq_true hseconds)
    next => cases hstep
  | postFailed i stored =>
    simp only [World.stepLive] at hstep
    split at hstep
    next hat =>
      cases hstep
      cases stored <;> exact put (hlive.finish hat rfl)
    next => cases hstep
  | send =>
    cases hstep
    have sent : LiveInv w.Erased { s with messages := s.messages ++ [w.log.length + 1] } :=
      ⟨hlive.erased, hlive.executed⟩
    exact put (sent.start nofun)
  | persist =>
    cases hstep
    exact put (hlive.start nofun)
  | persisted i archives =>
    obtain ⟨task, hat, hstep⟩ := Option.bind_eq_some_iff.1 hstep
    obtain ⟨stored, hsnapshot, rfl⟩ := Option.map_eq_some_iff.1 hstep
    exact persisted (w := { w with stored }) hlive hat archives hsnapshot
  | persistFailed i =>
    obtain ⟨task, hat, hstep⟩ := Option.bind_eq_some_iff.1 hstep
    obtain ⟨_, _, rfl⟩ := Option.map_eq_some_iff.1 hstep
    exact persistFailed hlive hs hat hguard
  | erased i =>
    simp only [World.stepLive] at hstep
    split at hstep
    next =>
      cases hstep
      exact put (.of_imp fun _ => World.erased_erase w)
    next => cases hstep
  | dropped i archives =>
    simp only [World.stepLive] at hstep
    split at hstep
    next hat =>
      cases hstep
      exact dropped hlive hs hat hguard
    next => cases hstep
  | dropFailed i archives =>
    simp only [World.stepLive] at hstep
    split at hstep
    next drop before hat =>
      cases hstep
      exact (put_deposit (hlive.finish hat rfl) rfl (s.since before) archives).server rfl rfl id
    next => cases hstep
  | _ => cases hstep

theorem step (h : Inv w) (hguard : w.guard a) (hstep : w.step a = some w') : Inv w' := by
  rcases Option.or_eq_some_iff.1 hstep with hserver | ⟨_, hdevice⟩
  · exact h.stepServer hguard hserver
  · unfold World.stepDevice at hdevice
    split at hdevice
    next s hs => exact h.stepLive hs hguard hdevice
    next hs =>
      split at hdevice
      · cases hdevice
        exact put (.of_imp (h.stored hs))
      · cases hdevice

end Inv

theorem inv_start {lifetime : Nat} : Inv (World.start lifetime) where
  live h := by cases h
  stored _ _ := ⟨rfl, nofun⟩

/-! ## The erased archive -/

namespace World

theorem Erased.deposit (h : w.Erased) (hon : 0 < s.lifetime) (messages : List Nat)
    (archives : Bool) : (w.deposit s messages archives).Erased := by
  rw [deposit_eq hon]
  exact h

theorem Erased.persisted (h : w.Erased) (hon : 0 < s.lifetime) (i : Nat) (archives : Bool)
    (task : Task) : (w.persisted s i archives task).Erased := by
  cases task with
  | persisting stored lifetimeBefore before =>
    unfold World.persisted
    dsimp only
    split
    · exact h
    · exact h.deposit hon (s.since before) archives
  | recording stored =>
    unfold World.persisted
    dsimp only
    split <;> exact h
  | keeping stored seq => exact h.deposit hon [seq] archives
  | _ => exact h

theorem Erased.stepServer (h : w.Erased) (hguard : w.guard a) (hstep : w.stepServer a = some w') :
    w'.Erased := by
  unfold World.stepServer at hstep
  split at hstep
  next =>
    cases hstep
    exact h
  next =>
    obtain ⟨_, hstep⟩ := Option.ite_none_right_eq_some.1 hstep
    cases hstep
    exact erased_erase w
  next j =>
    obtain ⟨d, hd, rfl⟩ := Option.map_eq_some_iff.1 hstep
    exact (h.not_late hd hguard).elim
  next j =>
    obtain ⟨_, _, rfl⟩ := Option.map_eq_some_iff.1 hstep
    exact ⟨h.1, fun d hd => h.2 d (List.mem_of_mem_eraseIdx hd)⟩
  next => cases hstep

/-- A session with a lifetime adds nothing. -/
theorem Erased.stepLive (h : w.Erased) (hon : 0 < s.lifetime)
    (hstep : w.stepLive s a = some w') : w'.Erased := by
  cases a with
  | close =>
    cases hstep
    exact h.close
  | poll =>
    obtain ⟨_, hstep⟩ := Option.ite_none_left_eq_some.1 hstep
    cases hstep
    exact h
  | setLifetime | send | persist =>
    cases hstep
    exact h
  | fetched | fetchFailed | interrupted | posted =>
    simp only [World.stepLive] at hstep
    split at hstep
    · cases hstep
      exact h
    · cases hstep
  | postFailed i stored =>
    simp only [World.stepLive] at hstep
    split at hstep
    · cases hstep
      cases stored <;> exact h
    · cases hstep
  | persisted i archives =>
    obtain ⟨task, _, hstep⟩ := Option.bind_eq_some_iff.1 hstep
    obtain ⟨stored, _, rfl⟩ := Option.map_eq_some_iff.1 hstep
    exact Erased.persisted (w := { w with stored }) h hon i archives task
  | persistFailed i =>
    obtain ⟨task, _, hstep⟩ := Option.bind_eq_some_iff.1 hstep
    obtain ⟨_, _, rfl⟩ := Option.map_eq_some_iff.1 hstep
    exact h
  | erased =>
    simp only [World.stepLive] at hstep
    split at hstep
    · cases hstep
      exact erased_erase w
    · cases hstep
  | dropped i archives =>
    simp only [World.stepLive] at hstep
    split at hstep
    next before _ =>
      cases hstep
      exact h.deposit hon (s.since before) archives
    next => cases hstep
  | dropFailed i archives =>
    simp only [World.stepLive] at hstep
    split at hstep
    next before _ =>
      cases hstep
      exact h.deposit hon (s.since before) archives
    next => cases hstep
  | _ => cases hstep

theorem Erased.step (h : w.Erased) (hon : 0 < w.lifetime) (hguard : w.guard a)
    (hstep : w.step a = some w') : w'.Erased := by
  rcases Option.or_eq_some_iff.1 hstep with hserver | ⟨_, hdevice⟩
  · exact h.stepServer hguard hserver
  · unfold World.stepDevice at hdevice
    split at hdevice
    next s hs =>
      rw [lifetime, hs] at hon
      exact h.stepLive hon hdevice
    next =>
      split at hdevice
      · cases hdevice
        exact h
      · cases hdevice

end World

/-! ## A poll that goes through -/

namespace Task

theorem fetched_at (hat : s.tasks[i]? = some task) (page : List (Envelope × Nat)) :
    ∃ stored, (s.fetched i page).tasks[i]? =
      some (.persisting stored s.lifetime s.messages.length) := by
  have inRange : i < s.tasks.length := (List.getElem?_eq_some_iff.1 hat).1
  let cursor := page.foldl (fun cursor row => max cursor row.2) s.cursor
  refine ⟨⟨lifetimeAfter s.lifetime page, cursor⟩, ?_⟩
  unfold Live.fetched Live.turn Live.next
  dsimp only
  split
  · rw [List.getElem?_map, List.getElem?_set_self inRange]
    rfl
  · exact List.getElem?_set_self inRange

end Task

namespace World

theorem guarded_eq (hs : w.session = some s) (hguard : w.guard a)
    (hlive : w.stepLive s a = some w') (hserver : w.stepServer a = none) :
    w.guarded a = some w' := by
  have hdevice : w.stepDevice a = some w' := by
    unfold stepDevice
    rw [hs]
    exact hlive
  rw [guarded, if_pos hguard, step, hserver, hdevice]
  rfl

/-- The archive is deleted, and the deletion is answered. -/
theorem run_dropArchive (hs : w.session = some s)
    (hat : s.tasks[i]? = some (.dropping ⟨false, false⟩ before)) (archives : Bool) :
    ∃ w', run guarded w [.erased i, .dropped i archives] = some w' ∧
      w'.lifetime = s.lifetime ∧ (0 < w'.lifetime → w'.Erased) := by
  let s' := s.next i (.dropping ⟨true, false⟩ before)
  let done := ((w.erase.put s').deposit s' (s'.since before) archives).put
    { s'.finish i with owed := false }
  have hat' : s'.tasks[i]? = some (.dropping ⟨true, false⟩ before) :=
    List.getElem?_set_self (List.getElem?_eq_some_iff.1 hat).1
  have herased : w.guarded (.erased i) = some (w.erase.put s') := by
    refine guarded_eq hs rfl ?_ rfl
    dsimp only [stepLive]
    rw [hat]
  have hdropped : (w.erase.put s').guarded (.dropped i archives) = some done := by
    refine guarded_eq rfl ?_ ?_ rfl
    · unfold guard put
      dsimp only
      rw [Option.any_some, hat']
      rfl
    · dsimp only [stepLive]
      rw [hat']
  refine ⟨done, ?_, rfl, fun hon => ?_⟩
  · rw [run_cons_of_step herased, run_cons_of_step hdropped]
    rfl
  · have erased : (w.erase.put s').Erased := erased_erase w
    exact erased.deposit (s := s') hon (s'.since before) archives

/-- Nothing is owed, and the lifetime has not just been turned on. -/
theorem erased_of_not (h : Inv w) (hs : w.session = some s)
    (hturning : ∀ task ∈ s.tasks, task.turning = false) (hon : 0 < seconds)
    (hnot : ¬ (s.owed || s.lifetime = 0 && 0 < seconds) = true) : w.Erased := by
  rw [Bool.or_eq_true, Bool.and_eq_true, decide_eq_true_eq, decide_eq_true_eq, not_or] at hnot
  have hlifetime : 0 < s.lifetime := Nat.pos_of_ne_zero fun hoff => hnot.2 ⟨hoff, hon⟩
  refine ((h.live hs).erased hlifetime).resolve_left fun howing => ?_
  rcases owing_iff.1 howing with howed | ⟨task, hmem, hturns⟩
  · exact hnot.1 howed
  · rw [hturning task hmem] at hturns
    cases hturns

/-- Whatever the page says, the archive of a conversation that has a lifetime is erased. -/
theorem run_poll (h : Inv w) (hs : w.session = some s) (hstale : s.stale = false)
    (hpoll : ∀ task ∈ s.tasks, task.isPoll = false)
    (hturning : ∀ task ∈ s.tasks, task.turning = false) (n : Nat) (archives : Bool) :
    ∃ owed w', run guarded w (poll s.tasks.length n archives owed) = some w' ∧
      w'.lifetime = lifetimeAfter s.lifetime (w.page s.cursor n) ∧
      (0 < w'.lifetime → w'.Erased) := by
  let i := s.tasks.length
  let started := s.start .fetching
  let s' := started.fetched i (w.page s.cursor n)
  have hstarted : w.guarded .poll = some (w.put started) := by
    refine guarded_eq hs rfl (if_neg ?_) rfl
    rintro (hstale' | hpoll')
    · rw [hstale] at hstale'
      cases hstale'
    · obtain ⟨task, hmem, htask⟩ := List.any_eq_true.1 hpoll'
      rw [hpoll task hmem] at htask
      cases htask
  have hat : started.tasks[i]? = some .fetching := List.getElem?_concat_length
  have hfetched : (w.put started).guarded (.fetched i n) = some (w.put s') := by
    refine guarded_eq rfl rfl ?_ rfl
    dsimp only [stepLive]
    rw [hat]
    rfl
  obtain ⟨stored, hat'⟩ := Task.fetched_at hat (w.page s.cursor n)
  let recorded := { w.put s' with stored }.persisted s' i archives
    (.persisting stored s.lifetime s.messages.length)
  have hpersisted : (w.put s').guarded (.persisted i archives) = some recorded := by
    refine guarded_eq rfl rfl ?_ rfl
    dsimp only [stepLive]
    rw [hat']
    rfl
  have hrun : ∀ rest, run guarded w
      ([.poll, .fetched i n, .persisted i archives] ++ rest) = run guarded recorded rest := by
    intro rest
    rw [List.cons_append, run_cons_of_step hstarted, List.cons_append, run_cons_of_step hfetched,
      List.cons_append, run_cons_of_step hpersisted, List.nil_append]
  by_cases howed : s.owed || s.lifetime = 0 && 0 < s'.lifetime
  · have hrecorded : recorded = { w.put s' with stored }.put
        (s'.dropArchive i (some s.messages.length)) := if_pos howed
    have hat'' : (s'.dropArchive i (some s.messages.length)).tasks[i]? =
        some (.dropping ⟨false, false⟩ (some s.messages.length)) :=
      List.getElem?_set_self (List.getElem?_eq_some_iff.1 hat').1
    obtain ⟨w', hw', hlifetime, herased⟩ :=
      run_dropArchive (w := recorded) (hrecorded ▸ rfl) hat'' archives
    exact ⟨true, w', (hrun _).trans hw', hlifetime, herased⟩
  · have hrecorded : recorded = ({ w.put s' with stored }.deposit s'
        (s'.since (some s.messages.length)) archives).put (s'.finish i) := if_neg howed
    refine ⟨false, recorded, hrun [], ?_, fun hon => ?_⟩
    · rw [hrecorded]
      rfl
    · rw [hrecorded] at hon ⊢
      have erased : w.Erased := erased_of_not h hs hturning hon howed
      exact Erased.deposit (w := { w.put s' with stored }) erased hon _ archives

/-- A message is archived; another member turns a lifetime on, the deletion fails, and succeeds a
poll later. The session ends, and the next one sends. -/
def turnedOn : List Action :=
  [.reopen, .send, .persisted 0 true, .deposited 0, .post (.lifetime 60), .poll, .fetched 0 2,
    .persisted 0 true, .dropFailed 0 true, .send, .persisted 0 true, .poll, .fetched 0 2,
    .persisted 0 true, .erased 0, .dropped 0 true, .erasedLate, .close, .reopen, .send,
    .persisted 0 true]

/-- The session ends before the deletion is answered, and the next one polls. -/
def restarted : List Action :=
  [.reopen, .send, .persisted 0 true, .deposited 0, .post (.lifetime 60), .poll, .fetched 0 2,
    .persisted 0 true, .dropFailed 0 true, .close, .reopen, .poll, .fetched 0 2, .persisted 0 true]

end World

end Whispee.Vault.Erasure
