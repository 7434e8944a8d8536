import Whispee.Server.Stream
import Mathlib.Data.List.Sort

/-!
# A session of the gateway

`session`, `membership`, `subscribe`, `resume`, `revalidate` and `pump` of
`crates/server/src/gateway.rs`, one step for each of their awaits, over the hub of one instance,
while envelopes are posted. The device stays a member of the same groups, its connection holds, and
nothing is purged. A post is committed first and published afterwards.

Up to as many groups and cursors as the ceilings admit, everything that is posted is announced; past
them, groups that `ready` names are left out without a word (`complete_iff`).
-/

namespace Whispee.Server.Gateway

open Transition
open Whispee.Server.Stream (Notice CAPACITY)

/-- Ceiling on simultaneous subscriptions for one session. -/
def MAX_SUBSCRIPTIONS : Nat := 512

/-- Ceiling on cursors accepted in an `identify`. -/
def MAX_CURSORS : Nat := MAX_SUBSCRIPTIONS

/-- Ceiling on envelopes announced per group during catch-up. -/
def MAX_RESUME_PER_GROUP : Nat := 200

structure Cursor where
  groupId : String
  seq : Int
  deriving DecidableEq, Repr

inductive ServerFrame where
  | ready (groups : List String)
  | envelope (groupId : String) (seq : Int)
  | gap (groupId : String) (oldest : Int)
  | signal (groupId payload : String)
  | error (reason : String)
  deriving DecidableEq, Repr

inductive Phase where
  /-- The challenge has been answered. -/
  | identified
  | subscribing (groups left : List Bytes)
  /-- Before the next cursor, and between the two queries for one. -/
  | resuming (groups : List Bytes) (seen : List String) (left : List Cursor)
  | querying (groups : List Bytes) (seen : List String) (left : List Cursor) (cursor : Cursor)
    (groupId : Bytes)
  | pumping
  deriving DecidableEq, Repr

structure State where
  /-- The rows of `envelopes`. -/
  envelopes : List (Bytes × Int)
  nextSeq : Bytes → Int
  /-- Committed, and not yet published. -/
  posted : List (Bytes × Int)
  phase : Phase
  /-- The groups listened to, each with the queue of its receiver. -/
  subscriptions : List (Bytes × List Notice)
  /-- The groups whose queue was full when something was published. -/
  overflowed : List Bytes
  sent : List ServerFrame

/-- What a receiver that lags behind keeps is the end of its queue. -/
def receive (notice : Notice) (subscription : Bytes × List Notice) : Bytes × List Notice :=
  let (groupId, queue) := subscription
  if groupId = notice.groupId then
    (groupId, (queue ++ [notice]).drop (queue.length + 1 - CAPACITY))
  else (groupId, queue)

namespace State

variable (s : State)

/-- The number is drawn under the row of the group. -/
def post (groupId : Bytes) : State :=
  let seq := s.nextSeq groupId + 1
  { s with
    envelopes := s.envelopes ++ [(groupId, seq)]
    nextSeq := Function.update s.nextSeq groupId seq
    posted := s.posted ++ [(groupId, seq)] }

def push (notice : Notice) : State :=
  { s with
    subscriptions := s.subscriptions.map (receive notice)
    overflowed :=
      if s.subscriptions.any fun (groupId, queue) =>
          groupId = notice.groupId && CAPACITY ≤ queue.length then
        s.overflowed ++ [notice.groupId]
      else s.overflowed }

def publish (i : Nat) : Option State :=
  s.posted[i]?.map fun (groupId, seq) =>
    push { s with posted := s.posted.eraseIdx i } (.envelope groupId seq)

def send (frames : List ServerFrame) : State := { s with sent := s.sent ++ frames }

def subscribe (groupId : Bytes) : State :=
  if (s.subscriptions.any (·.1 = groupId)) || MAX_SUBSCRIPTIONS ≤ s.subscriptions.length then s
  else { s with subscriptions := s.subscriptions ++ [(groupId, [])] }

def rows (groupId : Bytes) : List Int :=
  (s.envelopes.filter (·.1 = groupId)).map (·.2)

def oldestSurviving (groupId : Bytes) : Int :=
  (s.rows groupId).min?.getD (s.nextSeq groupId + 1)

/-- `SELECT seq ... WHERE group_id = $1 AND seq > $2 ORDER BY seq LIMIT $3` -/
def missed (groupId : Bytes) (seq : Int) : List Int :=
  (((s.rows groupId).filter (seq < ·)).insertionSort (· ≤ ·)).take MAX_RESUME_PER_GROUP

/-- A step of the opening sequence. `members` are the groups of the device, as the table of members
has them. -/
def advance (members : List Bytes) (cursors : List Cursor) : Option State :=
  match s.phase with
  | .identified => some { s with phase := .subscribing members members }
  | .subscribing groups (groupId :: left) =>
    some { s.subscribe groupId with phase := .subscribing groups left }
  | .subscribing groups [] =>
    some { s.send [.ready (groups.map toHex)] with
      phase := .resuming groups [] (cursors.take MAX_CURSORS) }
  | .resuming groups seen (cursor :: left) =>
    if seen.contains cursor.groupId then some { s with phase := .resuming groups seen left }
    else
      let seen := cursor.groupId :: seen
      match fromHex cursor.groupId with
      | none => some { s with phase := .resuming groups seen left }
      | some groupId =>
        if groups.contains groupId then
          let oldest := s.oldestSurviving groupId
          some { s.send (if cursor.seq < oldest - 1 then [.gap cursor.groupId oldest] else []) with
            phase := .querying groups seen left cursor groupId }
        else some { s with phase := .resuming groups seen left }
  | .resuming _ _ [] => some { s with phase := .pumping }
  | .querying groups seen left cursor groupId =>
    some { s.send ((s.missed groupId cursor.seq).map (.envelope cursor.groupId ·)) with
      phase := .resuming groups seen left }
  | .pumping => none

def frameOf (groupId : Bytes) : Notice → ServerFrame
  | .envelope _ seq => .envelope (toHex groupId) seq
  | .signal _ payload => .signal (toHex groupId) (Base64.encode payload)

/-- `pump` takes the next notice of some subscription. -/
def take (i : Nat) : Option State :=
  match s.phase, s.subscriptions[i]? with
  | .pumping, some (groupId, notice :: queue) =>
    some { s.send [frameOf groupId notice] with
      subscriptions := s.subscriptions.set i (groupId, queue) }
  | _, _ => none

/-- Realigns the subscriptions on actual membership. -/
def revalidate (members : List Bytes) : State :=
  { s with subscriptions := s.subscriptions.filter fun (groupId, _) => members.contains groupId }

end State

inductive Action where
  | post (groupId : Bytes)
  | publish (i : Nat)
  /-- Somebody's signal. -/
  | signal (groupId payload : Bytes)
  | advance
  | take (i : Nat)
  /-- The client asks for a group. -/
  | claim (groupId : Bytes)
  /-- A heartbeat, of the client or of the server. -/
  | revalidate

section
variable (members : List Bytes) (cursors : List Cursor)

def step (s : State) : Action → Option State
  | .post groupId => some (s.post groupId)
  | .publish i => s.publish i
  | .signal groupId payload => some (s.push (.signal groupId payload))
  | .advance => s.advance members cursors
  | .take i => s.take i
  | .claim groupId =>
    if s.phase = .pumping then
      some (if members.contains groupId then s.subscribe groupId else s.send [.error "denied"])
    else none
  | .revalidate =>
    if s.phase = .pumping then some (s.revalidate members) else none

end

/-- A session that has answered its challenge, over a database. -/
def start (envelopes : List (Bytes × Int)) (nextSeq : Bytes → Int) : State where
  envelopes
  nextSeq
  posted := []
  phase := .identified
  subscriptions := []
  overflowed := []
  sent := []

/-! ## What is asked of it -/

/-- The cursor the client gave for a group. -/
def given (cursors : List Cursor) (groupId : Bytes) : Option Cursor :=
  cursors.find? (fromHex ·.groupId = some groupId)

def State.Subscribed (s : State) (groupId : Bytes) : Prop :=
  ∃ queue, (groupId, queue) ∈ s.subscriptions

/-- Something above `seq` was announced. -/
def State.Announced (s : State) (groupId : Bytes) (seq : Int) : Prop :=
  ∃ name n, .envelope name n ∈ s.sent ∧ fromHex name = some groupId ∧ seq < n

/-- Nothing is on its way any more. -/
structure State.Settled (s : State) : Prop where
  phase : s.phase = .pumping
  posted : s.posted = []
  queues : ∀ subscription ∈ s.subscriptions, subscription.2 = []

/-- The steps of the server itself. -/
def Action.own : Action → Bool
  | .publish _ | .advance | .take _ => true
  | _ => false

/-- Every group of a `ready` frame is listened to, and once everything posted has gone through, each
has been announced that has an envelope above its cursor: one from before the session, or one posted
to a queue that did not overflow. -/
structure Complete (members : List Bytes) (cursors : List Cursor) (before : List (Bytes × Int))
    (s : State) : Prop where
  subscribed : .ready groups ∈ s.sent → name ∈ groups →
    ∃ groupId, fromHex name = some groupId ∧ s.Subscribed groupId
  announced : s.Settled → .ready groups ∈ s.sent → name ∈ groups → fromHex name = some groupId →
    given cursors groupId = some cursor → (groupId, n) ∈ s.envelopes → cursor.seq < n →
    (groupId, n) ∈ before ∨ groupId ∉ s.overflowed → s.Announced groupId cursor.seq
  settles : ∃ t, Reach (step members cursors) (fun _ a => a.own = true) s t ∧ t.Settled

/-! ## What a step does -/

/-- The groups listened to. -/
def State.keys (s : State) : List Bytes := s.subscriptions.map (·.1)

/-- Committed, and published at most to a queue of the session. -/
def State.OnItsWay (s : State) (groupId : Bytes) (n : Int) : Prop :=
  (groupId, n) ∈ s.posted ∨ groupId ∈ s.overflowed ∨
    ∃ queue, (groupId, queue) ∈ s.subscriptions ∧ .envelope groupId n ∈ queue

/-- The groups the session has not got to yet. -/
def Phase.left (members : List Bytes) : Phase → List Bytes
  | .identified => members
  | .subscribing _ left => left
  | _ => []

def Phase.groups : Phase → Option (List Bytes)
  | .subscribing groups _ | .resuming groups _ _ | .querying groups _ _ _ _ => some groups
  | _ => none

/-- The cursor is the next one for its group. -/
structure Ahead (groupId : Bytes) (cursor : Cursor) (seen : List String) (left : List Cursor) :
    Prop where
  unseen : ∀ name ∈ seen, fromHex name ≠ some groupId
  found : given left groupId = some cursor

/-- The catch-up of the group is still to come. -/
def Phase.Awaits (groupId : Bytes) (cursor : Cursor) : Phase → Prop
  | .identified | .subscribing _ _ => True
  | .resuming _ seen left => Ahead groupId cursor seen left
  | .querying _ seen left cursor' groupId' =>
    groupId' = groupId ∧ cursor' = cursor ∧ fromHex cursor.groupId = some groupId ∨
      Ahead groupId cursor seen left
  | .pumping => False

section
variable {members : List Bytes} {cursors : List Cursor} {before : List (Bytes × Int)}
  {s t : State}

theorem mem_keys_iff : groupId ∈ s.keys ↔ s.Subscribed groupId := by
  rw [State.keys, List.mem_map]
  constructor
  · rintro ⟨⟨_, queue⟩, hmem, rfl⟩
    exact ⟨queue, hmem⟩
  · rintro ⟨queue, hmem⟩
    exact ⟨_, hmem, rfl⟩

theorem subscribe_cases (s : State) (groupId : Bytes) :
    (s.Subscribed groupId ∨ MAX_SUBSCRIPTIONS ≤ s.subscriptions.length) ∧
        s.subscribe groupId = s ∨
      ¬ s.Subscribed groupId ∧ s.subscriptions.length < MAX_SUBSCRIPTIONS ∧
        s.subscribe groupId = { s with subscriptions := s.subscriptions ++ [(groupId, [])] } := by
  have hany : (s.subscriptions.any (·.1 = groupId)) = true ↔ s.Subscribed groupId := by
    rw [← mem_keys_iff, State.keys, List.mem_map, List.any_eq_true]
    simp only [decide_eq_true_eq]
  unfold State.subscribe
  split
  · rename_i h
    rw [Bool.or_eq_true, hany, decide_eq_true_eq] at h
    exact .inl ⟨h, rfl⟩
  · rename_i h
    rw [Bool.or_eq_true, hany, decide_eq_true_eq, not_or, Nat.not_le] at h
    exact .inr ⟨h.1, h.2, rfl⟩

@[simp] theorem sent_subscribe : (s.subscribe groupId).sent = s.sent := by
  unfold State.subscribe
  split <;> rfl

theorem receive_fst : (receive notice subscription).1 = subscription.1 := by
  unfold receive
  dsimp only
  split <;> rfl

theorem length_receive_le (notice : Notice) (subscription : Bytes × List Notice) :
    (receive notice subscription).2.length ≤ subscription.2.length + 1 := by
  unfold receive
  dsimp only
  split
  · rw [List.length_drop, List.length_append, List.length_singleton]
    exact Nat.sub_le ..
  · exact Nat.le_succ _

theorem mem_push (h : (groupId, queue) ∈ s.subscriptions) :
    (groupId, (receive notice (groupId, queue)).2) ∈ (s.push notice).subscriptions :=
  List.mem_map.2 ⟨_, h, Prod.ext receive_fst rfl⟩

theorem keys_push : (s.push notice).keys = s.keys := by
  unfold State.keys State.push
  rw [List.map_map]
  exact List.map_congr_left fun _ _ => receive_fst

theorem overflowed_push (h : (groupId, queue) ∈ s.subscriptions) (hgroup : groupId = notice.groupId)
    (hfull : CAPACITY ≤ queue.length) : groupId ∈ (s.push notice).overflowed := by
  have hany : (s.subscriptions.any fun subscription =>
      decide (subscription.1 = notice.groupId) && decide (CAPACITY ≤ subscription.2.length)) =
      true :=
    List.any_eq_true.2 ⟨_, h, by rw [Bool.and_eq_true, decide_eq_true_eq, decide_eq_true_eq]
                                 exact ⟨hgroup, hfull⟩⟩
  unfold State.push
  dsimp only
  rw [if_pos hany, hgroup]
  exact List.mem_append_right _ List.mem_cons_self

theorem subset_overflowed_push : s.overflowed ⊆ (s.push notice).overflowed := by
  unfold State.push
  dsimp only
  split
  · exact List.subset_append_left ..
  · exact List.Subset.refl _

/-! ### Steps that lose nothing -/

/-- Nothing that is announced, listened to or on its way is lost. -/
structure Grows (members : List Bytes) (s t : State) : Prop where
  keys : t.keys.Nodup
  known : ∀ groupId ∈ t.keys, groupId ∈ members
  listens : ∀ groupId, s.Subscribed groupId → t.Subscribed groupId
  sent : ∃ frames, t.sent = s.sent ++ frames
  kept : s.envelopes ⊆ t.envelopes
  new : ∀ row ∈ t.envelopes, row ∈ s.envelopes ∨ row ∈ t.posted
  way : ∀ groupId n, s.Subscribed groupId → s.OnItsWay groupId n →
    t.OnItsWay groupId n ∨ .envelope (toHex groupId) n ∈ t.sent

/-- The subscriptions are to groups of the device, one for each. -/
structure Listening (members : List Bytes) (s : State) : Prop where
  keys : s.keys.Nodup
  known : ∀ groupId ∈ s.keys, groupId ∈ members

theorem Listening.same (h : Listening members s) (hsubs : t.subscriptions = s.subscriptions)
    (hsent : ∃ frames, t.sent = s.sent ++ frames) (henvelopes : t.envelopes = s.envelopes)
    (hposted : t.posted = s.posted) (hoverflowed : t.overflowed = s.overflowed) :
    Grows members s t where
  keys := by
    rw [State.keys, hsubs]
    exact h.keys
  known := by
    rw [State.keys, hsubs]
    exact h.known
  listens groupId := by
    unfold State.Subscribed
    rw [hsubs]
    exact id
  sent := hsent
  kept := henvelopes ▸ List.Subset.refl _
  new := fun row hrow => .inl (henvelopes ▸ hrow)
  way groupId n _ hway := by
    refine .inl ?_
    unfold State.OnItsWay
    rw [hposted, hoverflowed, hsubs]
    exact hway

theorem Listening.post (h : Listening members s) (groupId : Bytes) :
    Grows members s (s.post groupId) where
  keys := h.keys
  known := h.known
  listens _ := id
  sent := ⟨[], (List.append_nil _).symm⟩
  kept := List.subset_append_left ..
  new := fun row hrow => by
    rcases List.mem_append.1 hrow with hrow | hrow
    · exact .inl hrow
    · exact .inr (List.mem_append_right _ hrow)
  way := fun g n _ hway => by
    rcases hway with hposted | hway
    · exact .inl (.inl (List.mem_append_left _ hposted))
    · exact .inl (.inr hway)

/-- What was on its way still is after a publication, which is itself on its way to a group listened
to. -/
theorem onItsWay_push (h : s.OnItsWay groupId n) : (s.push notice).OnItsWay groupId n := by
  rcases h with hposted | hover | ⟨queue, hmem, hqueued⟩
  · exact .inl hposted
  · exact .inr (.inl (subset_overflowed_push hover))
  · by_cases hgroup : groupId = notice.groupId
    · by_cases hfull : CAPACITY ≤ queue.length
      · exact .inr (.inl (overflowed_push hmem hgroup hfull))
      · refine .inr (.inr ⟨_, mem_push hmem, ?_⟩)
        rw [receive, if_pos hgroup, Nat.sub_eq_zero_of_le (Nat.lt_of_not_le hfull),
          List.drop_zero]
        exact List.mem_append_left _ hqueued
    · refine .inr (.inr ⟨_, mem_push hmem, ?_⟩)
      rw [receive, if_neg hgroup]
      exact hqueued

theorem onItsWay_of_push (h : s.Subscribed groupId) :
    (s.push (.envelope groupId n)).OnItsWay groupId n := by
  obtain ⟨queue, hmem⟩ := h
  refine .inr (.inr ⟨_, mem_push hmem, ?_⟩)
  rw [receive, if_pos (show groupId = (Notice.envelope groupId n).groupId from rfl),
    List.drop_append_of_le_length (by unfold CAPACITY; omega)]
  exact List.mem_append_right _ List.mem_cons_self

theorem subscribed_push (h : s.Subscribed groupId) : (s.push notice).Subscribed groupId := by
  obtain ⟨queue, hmem⟩ := h
  exact ⟨_, mem_push hmem⟩

theorem Listening.push (h : Listening members s) (notice : Notice) :
    Grows members s (s.push notice) where
  keys := by
    rw [keys_push]
    exact h.keys
  known := by
    rw [keys_push]
    exact h.known
  listens _ := subscribed_push
  sent := ⟨[], (List.append_nil _).symm⟩
  kept := List.Subset.refl _
  new := fun _ hrow => .inl hrow
  way := fun _ _ _ hway => .inl (onItsWay_push hway)

theorem Listening.publish (h : Listening members s) (hstep : s.publish i = some t) :
    Grows members s t := by
  unfold State.publish at hstep
  obtain ⟨⟨g, m⟩, hposted, rfl⟩ := Option.map_eq_some_iff.1 hstep
  set u : State := { s with posted := s.posted.eraseIdx i }
  have hu : Listening members u := ⟨h.keys, h.known⟩
  refine { hu.push (.envelope g m) with way := fun groupId n hsub hway => .inl ?_ }
  rcases hway with hmem | hway
  · by_cases hthis : (groupId, n) = (g, m)
    · cases hthis
      exact onItsWay_of_push (s := u) hsub
    · refine onItsWay_push (s := u) (.inl ?_)
      obtain ⟨hi, hget⟩ := List.getElem?_eq_some_iff.1 hposted
      have hperm := (List.getElem_cons_eraseIdx_perm hi).mem_iff.2 hmem
      rw [hget] at hperm
      exact (List.mem_cons.1 hperm).resolve_left hthis
  · exact onItsWay_push (s := u) (.inr hway)

theorem Listening.subscribe (h : Listening members s) (hmember : groupId ∈ members) :
    Grows members s (s.subscribe groupId) := by
  rcases subscribe_cases s groupId with ⟨-, heq⟩ | ⟨hnew, -, heq⟩
  · rw [heq]
    exact h.same rfl ⟨[], (List.append_nil _).symm⟩ rfl rfl rfl
  · rw [heq]
    have hkeys : State.keys { s with subscriptions := s.subscriptions ++ [(groupId, [])] } =
        s.keys ++ [groupId] := by
      rw [State.keys, List.map_append]
      rfl
    refine ⟨?_, fun g hg => ?_, fun g hsub => ?_, ⟨[], (List.append_nil _).symm⟩,
      List.Subset.refl _, fun _ hrow => .inl hrow, fun g n _ hway => .inl ?_⟩
    · rw [hkeys]
      refine List.nodup_append.2 ⟨h.keys, List.nodup_singleton _, fun a ha b hb hab => ?_⟩
      rw [hab, List.mem_singleton.1 hb] at ha
      exact hnew (mem_keys_iff.1 ha)
    · rw [hkeys] at hg
      rcases List.mem_append.1 hg with hg | hg
      · exact h.known g hg
      · rw [List.mem_singleton.1 hg]
        exact hmember
    · obtain ⟨queue, hmem⟩ := hsub
      exact ⟨queue, List.mem_append_left _ hmem⟩
    · rcases hway with hposted | hover | ⟨queue, hmem, hqueued⟩
      · exact .inl hposted
      · exact .inr (.inl hover)
      · exact .inr (.inr ⟨queue, List.mem_append_left _ hmem, hqueued⟩)

/-- What `take` does: the head of some queue is sent. -/
theorem take_eq_some (hstep : s.take i = some t) :
    s.phase = .pumping ∧ ∃ before groupId notice queue after,
      s.subscriptions = before ++ (groupId, notice :: queue) :: after ∧
      t = { s.send [State.frameOf groupId notice] with
        subscriptions := before ++ (groupId, queue) :: after } := by
  unfold State.take at hstep
  split at hstep
  · rename_i groupId notice queue hphase hget
    cases hstep
    obtain ⟨hi, hget⟩ := List.getElem?_eq_some_iff.1 hget
    refine ⟨hphase, s.subscriptions.take i, groupId, notice, queue, s.subscriptions.drop (i + 1),
      ?_, ?_⟩
    · rw [← hget, List.getElem_cons_drop, List.take_append_drop]
    · rw [List.set_eq_take_append_cons_drop, if_pos hi]
  · cases hstep

theorem Listening.take (h : Listening members s) (hstep : s.take i = some t) :
    Grows members s t := by
  obtain ⟨-, before, groupId, notice, queue, after, hsubs, rfl⟩ := take_eq_some hstep
  have hkeys : s.keys = before.map (·.1) ++ groupId :: after.map (·.1) := by
    rw [State.keys, hsubs, List.map_append, List.map_cons]
  have hkeys' : State.keys { s.send [State.frameOf groupId notice] with
      subscriptions := before ++ (groupId, queue) :: after } = s.keys := by
    rw [hkeys, State.keys, List.map_append, List.map_cons]
  refine ⟨hkeys' ▸ h.keys, hkeys' ▸ h.known, fun g hsub => ?_, ⟨_, rfl⟩, List.Subset.refl _,
    fun _ hrow => .inl hrow, fun g n _ hway => ?_⟩
  · rw [← mem_keys_iff] at hsub ⊢
    rwa [hkeys']
  · rcases hway with hposted | hover | ⟨queue', hmem, hqueued⟩
    · exact .inl (.inl hposted)
    · exact .inl (.inr (.inl hover))
    · rw [hsubs] at hmem
      rcases List.mem_append.1 hmem with hmem | hmem
      · exact .inl (.inr (.inr ⟨queue', List.mem_append_left _ hmem, hqueued⟩))
      · rcases List.mem_cons.1 hmem with heq | hmem
        · cases heq
          rcases List.mem_cons.1 hqueued with heq | hqueued
          · cases heq
            exact .inr (List.mem_append_right _ List.mem_cons_self)
          · refine .inl (.inr (.inr ⟨queue, ?_, hqueued⟩))
            exact List.mem_append_right _ List.mem_cons_self
        · refine .inl (.inr (.inr ⟨queue', ?_, hqueued⟩))
          exact List.mem_append_right _ (List.mem_cons_of_mem _ hmem)

theorem Listening.revalidate (h : Listening members s) :
    Grows members s (s.revalidate members) := by
  refine h.same (List.filter_eq_self.2 fun subscription hmem => ?_) ⟨[], (List.append_nil _).symm⟩
    rfl rfl rfl
  exact List.contains_iff_mem.2 (h.known _ (List.mem_map_of_mem hmem))

/-! ### The invariant -/

/-- Whatever is above the cursor of a group is announced, or on its way to a queue, once the
catch-up of the group is done. -/
def State.Covers (before : List (Bytes × Int)) (groupId : Bytes) (seq : Int) (s : State) : Prop :=
  s.Announced groupId seq ∨ ∀ n, (groupId, n) ∈ s.envelopes → seq < n →
    (groupId, n) ∉ before ∧ s.OnItsWay groupId n

structure Inv (members : List Bytes) (cursors : List Cursor) (before : List (Bytes × Int))
    (s : State) : Prop extends Listening members s where
  groups : ∀ groups ∈ s.phase.groups, groups = members
  left : s.phase.left members ⊆ members
  listens : ∀ groupId ∈ members, groupId ∈ s.phase.left members ∨ s.Subscribed groupId
  ready : ∀ names, .ready names ∈ s.sent → names = members.map toHex ∧
    s.phase.left members = []
  kept : before ⊆ s.envelopes
  covers : ∀ groupId ∈ members, ∀ cursor,
    given (cursors.take MAX_CURSORS) groupId = some cursor →
      s.phase.Awaits groupId cursor ∨
        s.phase.left members = [] ∧ s.Covers before groupId cursor.seq

theorem State.Covers.grow (h : s.Covers before groupId seq) (hgrow : Grows members s t)
    (hsub : s.Subscribed groupId) (hkept : before ⊆ s.envelopes) :
    t.Covers before groupId seq := by
  obtain ⟨frames, hsent⟩ := hgrow.sent
  rcases h with ⟨name, n, hmem, hname, hlt⟩ | hway
  · exact .inl ⟨name, n, hsent ▸ List.mem_append_left _ hmem, hname, hlt⟩
  · by_cases hannounced : t.Announced groupId seq
    · exact .inl hannounced
    · refine .inr fun n hrow hlt => ?_
      have hnew : (groupId, n) ∉ before := fun hbefore => (hway n (hkept hbefore) hlt).1 hbefore
      refine ⟨hnew, ?_⟩
      rcases hgrow.new _ hrow with hold | hposted
      · refine (hgrow.way groupId n hsub (hway n hold hlt).2).resolve_right fun hframe => ?_
        exact hannounced ⟨_, n, hframe, fromHex_toHex groupId, hlt⟩
      · exact .inl hposted

theorem Inv.next (h : Inv members cursors before s) (hgrow : Grows members s t)
    (hgroups : ∀ groups ∈ t.phase.groups, groups = members)
    (hleft : t.phase.left members ⊆ s.phase.left members)
    (hlistens : ∀ groupId ∈ s.phase.left members,
      groupId ∈ t.phase.left members ∨ t.Subscribed groupId)
    (hready : ∀ names, .ready names ∈ t.sent → .ready names ∈ s.sent ∨
      names = members.map toHex ∧ t.phase.left members = [])
    (hawaits : ∀ groupId ∈ members, ∀ cursor,
      given (cursors.take MAX_CURSORS) groupId = some cursor → s.phase.Awaits groupId cursor →
      t.phase.Awaits groupId cursor ∨
        t.phase.left members = [] ∧ t.Covers before groupId cursor.seq) :
    Inv members cursors before t where
  keys := hgrow.keys
  known := hgrow.known
  groups := hgroups
  left := fun _ hg => h.left (hleft hg)
  listens groupId hmember := by
    rcases h.listens groupId hmember with hg | hsub
    · exact hlistens groupId hg
    · exact .inr (hgrow.listens groupId hsub)
  ready names hmem := by
    rcases hready names hmem with hold | hnew
    · obtain ⟨hnames, hnil⟩ := h.ready names hold
      exact ⟨hnames, List.subset_nil.1 (hnil ▸ hleft)⟩
    · exact hnew
  kept := fun _ hrow => hgrow.kept (h.kept hrow)
  covers groupId hmember cursor hcursor := by
    rcases h.covers groupId hmember cursor hcursor with hawait | ⟨hnil, hcovers⟩
    · exact hawaits groupId hmember cursor hcursor hawait
    · refine .inr ⟨List.subset_nil.1 (hnil ▸ hleft), hcovers.grow hgrow ?_ h.kept⟩
      refine (h.listens groupId hmember).resolve_left fun hg => ?_
      rw [hnil] at hg
      cases hg

/-- A step outside the opening sequence. -/
theorem Inv.grow (h : Inv members cursors before s) (hgrow : Grows members s t)
    (hphase : t.phase = s.phase)
    (hready : ∀ names, .ready names ∈ t.sent → .ready names ∈ s.sent) :
    Inv members cursors before t := by
  refine h.next hgrow ?_ ?_ ?_ (fun names hmem => .inl (hready names hmem)) ?_
  · rw [hphase]
    exact h.groups
  · rw [hphase]
    exact List.Subset.refl _
  · rw [hphase]
    exact fun _ hg => .inl hg
  · rw [hphase]
    exact fun _ _ _ _ hawait => .inl hawait

/-! ### The opening sequence -/

/-- What the catch-up of a group announces, if there is something above its cursor. -/
theorem covers_of_missed (hname : fromHex name = some groupId)
    (hsent : ∀ n ∈ s.missed groupId seq, .envelope name n ∈ t.sent)
    (henvelopes : t.envelopes = s.envelopes) : t.Covers before groupId seq := by
  cases hmissed : s.missed groupId seq with
  | cons n missed =>
    have hn : n ∈ s.missed groupId seq := hmissed ▸ List.mem_cons_self
    refine .inl ⟨name, n, hsent n hn, hname, ?_⟩
    have hmem := List.mem_of_mem_take hn
    rw [List.mem_insertionSort, List.mem_filter] at hmem
    exact of_decide_eq_true hmem.2
  | nil =>
    refine .inr fun n hrow hlt => ?_
    rw [henvelopes] at hrow
    have hmem : n ∈ (s.rows groupId).filter (seq < ·) := by
      refine List.mem_filter.2 ⟨?_, decide_eq_true hlt⟩
      exact List.mem_map.2 ⟨_, List.mem_filter.2 ⟨hrow, decide_eq_true rfl⟩, rfl⟩
    have hpos : 0 < (s.missed groupId seq).length := by
      unfold State.missed
      rw [List.length_take, List.length_insertionSort]
      exact Nat.lt_min.2 ⟨by decide, List.length_pos_of_mem hmem⟩
    rw [hmissed] at hpos
    cases hpos

/-- There is room for every group of the device. -/
theorem Listening.subscribed_subscribe (h : Listening members s)
    (hroom : members.length ≤ MAX_SUBSCRIPTIONS) (hmember : groupId ∈ members) :
    (s.subscribe groupId).Subscribed groupId := by
  rcases subscribe_cases s groupId with ⟨hfull, heq⟩ | ⟨-, -, heq⟩
  · rw [heq]
    by_contra hnew
    have hcons : (groupId :: s.keys).Nodup :=
      List.nodup_cons.2 ⟨fun hmem => hnew (mem_keys_iff.1 hmem), h.keys⟩
    have hsubset : groupId :: s.keys ⊆ members :=
      List.cons_subset.2 ⟨hmember, fun g hg => h.known g hg⟩
    have hlength := (List.subperm_of_subset hcons hsubset).length_le
    rw [List.length_cons, State.keys, List.length_map] at hlength
    have := hfull.resolve_left hnew
    omega
  · rw [heq]
    exact ⟨[], List.mem_append_right _ List.mem_cons_self⟩

theorem Ahead.next (h : Ahead groupId cursor seen (first :: left)) :
    fromHex first.groupId = some groupId ∧ first.groupId ∉ seen ∧ cursor = first ∨
      fromHex first.groupId ≠ some groupId ∧ Ahead groupId cursor (first.groupId :: seen) left ∧
        Ahead groupId cursor seen left := by
  obtain ⟨hunseen, hgiven⟩ := h
  by_cases hname : fromHex first.groupId = some groupId
  · have hfirst : given (first :: left) groupId = some first :=
      List.find?_cons_of_pos (decide_eq_true hname)
    exact .inl ⟨hname, fun hmem => hunseen _ hmem hname,
      Option.some.inj (hgiven.symm.trans hfirst)⟩
  · have hrest : given (first :: left) groupId = given left groupId :=
      List.find?_cons_of_neg (by rwa [decide_eq_true_eq])
    rw [hrest] at hgiven
    refine .inr ⟨hname, ⟨fun name hmem => ?_, hgiven⟩, hunseen, hgiven⟩
    rcases List.mem_cons.1 hmem with rfl | hmem
    · exact hname
    · exact hunseen name hmem

/-- What a turn to the next cursor comes to: it is passed over, or its first query is made. -/
theorem resuming_cases (hphase : s.phase = .resuming groups seen (first :: left))
    (hstep : s.advance members cursors = some t) :
    ∃ frames : List ServerFrame, t.sent = s.sent ++ frames ∧
      t = { s with sent := t.sent, phase := t.phase } ∧
      (∀ frame ∈ frames, ∃ name oldest, frame = .gap name oldest) ∧
      (first.groupId ∈ seen ∧ t.phase = .resuming groups seen left ∨
        (∀ groupId ∈ groups, fromHex first.groupId ≠ some groupId) ∧
          t.phase = .resuming groups (first.groupId :: seen) left ∨
        ∃ groupId, fromHex first.groupId = some groupId ∧
          t.phase = .querying groups (first.groupId :: seen) left first groupId) := by
  unfold State.advance at hstep
  rw [hphase] at hstep
  dsimp only at hstep
  split at hstep
  · rename_i hseen
    cases hstep
    exact ⟨[], (List.append_nil _).symm, rfl, fun _ hmem => absurd hmem List.not_mem_nil,
      .inl ⟨List.contains_iff_mem.1 hseen, rfl⟩⟩
  · split at hstep
    · rename_i hnone
      cases hstep
      refine ⟨[], (List.append_nil _).symm, rfl, fun _ hmem => absurd hmem List.not_mem_nil,
        .inr (.inl ⟨fun groupId _ hname => ?_, rfl⟩)⟩
      rw [hnone] at hname
      cases hname
    · rename_i groupId hname
      split at hstep
      · cases hstep
        refine ⟨_, rfl, rfl, fun frame hmem => ?_, .inr (.inr ⟨groupId, hname, rfl⟩)⟩
        split at hmem
        · exact ⟨_, _, List.mem_singleton.1 hmem⟩
        · exact absurd hmem List.not_mem_nil
      · rename_i hmember
        cases hstep
        refine ⟨[], (List.append_nil _).symm, rfl, fun _ hmem => absurd hmem List.not_mem_nil,
          .inr (.inl ⟨fun g hg hname' => hmember (List.contains_iff_mem.2 ?_), rfl⟩)⟩
        cases Option.some.inj (hname.symm.trans hname')
        exact hg

/-- A step of the opening sequence that only turns to the next phase, or sends something. -/
theorem Inv.turn (h : Inv members cursors before s) (hsent : t.sent = s.sent ++ frames)
    (hrest : t = { s with sent := t.sent, phase := t.phase })
    (hgroups : ∀ groups ∈ t.phase.groups, groups = members)
    (hleft : t.phase.left members = s.phase.left members)
    (hready : ∀ names, .ready names ∈ frames → names = members.map toHex ∧
      t.phase.left members = [])
    (hawaits : ∀ groupId ∈ members, ∀ cursor,
      given (cursors.take MAX_CURSORS) groupId = some cursor → s.phase.Awaits groupId cursor →
      t.phase.Awaits groupId cursor ∨ t.phase.left members = [] ∧
        t.Covers before groupId cursor.seq) :
    Inv members cursors before t := by
  have hgrow : Grows members s t := by
    refine h.same ?_ ⟨frames, hsent⟩ ?_ ?_ ?_ <;> rw [hrest]
  refine h.next hgrow hgroups ?_ ?_ ?_ hawaits
  · exact hleft ▸ List.Subset.refl _
  · exact fun _ hg => .inl (hleft ▸ hg)
  · intro names hmem
    rw [hsent] at hmem
    rcases List.mem_append.1 hmem with hold | hnew
    · exact .inl hold
    · exact .inr (hready names hnew)

theorem Inv.advance (h : Inv members cursors before s)
    (hroom : members.length ≤ MAX_SUBSCRIPTIONS) (hstep : s.advance members cursors = some t) :
    Inv members cursors before t := by
  have hadvance := hstep
  unfold State.advance at hstep
  have hgroups := h.groups
  split at hstep
  · rename_i hphase
    cases hstep
    refine h.turn (List.append_nil _).symm rfl ?_ ?_ (fun _ hmem => nomatch hmem) ?_
    · rintro groups ⟨⟩
      rfl
    · rw [hphase]
      rfl
    · exact fun _ _ _ _ _ => .inl trivial
  · rename_i groups groupId left hphase
    cases hstep
    have hmember : groupId ∈ members := h.left (hphase ▸ List.mem_cons_self)
    have hgrow := h.toListening.subscribe hmember
    have hsub := h.toListening.subscribed_subscribe hroom hmember
    rw [hphase] at hgroups
    refine h.next (t := { s.subscribe groupId with phase := .subscribing groups left })
      ⟨hgrow.keys, hgrow.known, hgrow.listens, hgrow.sent, hgrow.kept, hgrow.new, hgrow.way⟩
      hgroups ?_ ?_ (fun names hmem => .inl (sent_subscribe (s := s) ▸ hmem)) ?_
    · rw [hphase]
      exact List.subset_cons_self ..
    · intro g hg
      rw [hphase] at hg
      rcases List.mem_cons.1 hg with rfl | hg
      · exact .inr hsub
      · exact .inl hg
    · exact fun _ _ _ _ _ => .inl trivial
  · rename_i groups hphase
    cases hstep
    rw [hphase] at hgroups
    refine h.turn rfl rfl ?_ ?_ ?_ ?_
    · exact hgroups
    · rw [hphase]
      rfl
    · intro names hmem
      cases List.mem_singleton.1 hmem
      rw [hgroups _ rfl]
      exact ⟨rfl, rfl⟩
    · intro groupId _ cursor hcursor _
      exact .inl ⟨fun _ hmem => absurd hmem List.not_mem_nil, hcursor⟩
  · rename_i groups seen first left hphase
    rw [hphase] at hgroups
    have hsame := hgroups _ rfl
    obtain ⟨frames, hsent, hrest, hgaps, hcases⟩ := resuming_cases hphase hadvance
    have hshape : t.phase.groups = some groups ∧ t.phase.left members = [] := by
      rcases hcases with ⟨-, hnext⟩ | ⟨-, hnext⟩ | ⟨_, -, hnext⟩ <;> rw [hnext] <;> exact ⟨rfl, rfl⟩
    refine h.turn hsent hrest (fun g hg => ?_) ?_ (fun names hmem => ?_)
      fun groupId hmember cursor _ hawait => .inl ?_
    · cases hshape.1.symm.trans hg
      exact hsame
    · rw [hshape.2, hphase]
      rfl
    · obtain ⟨_, _, hframe⟩ := hgaps _ hmem
      cases hframe
    · rw [hphase] at hawait
      rcases hcases with ⟨hseen, hnext⟩ | ⟨hother, hnext⟩ | ⟨g, hg, hnext⟩
      all_goals
        rw [hnext]
        rcases Ahead.next hawait with ⟨hname, hnew, rfl⟩ | ⟨-, hahead, hahead'⟩
      · exact absurd hseen hnew
      · exact hahead'
      · exact absurd hname (hother groupId (hsame ▸ hmember))
      · exact hahead
      · exact .inl ⟨Option.some.inj (hg.symm.trans hname), rfl, hname⟩
      · exact .inr hahead
  · rename_i groups seen hphase
    cases hstep
    refine h.turn (List.append_nil _).symm rfl ?_ ?_ (fun _ hmem => nomatch hmem) ?_
    · rintro groups ⟨⟩
    · rw [hphase]
      rfl
    · intro groupId _ cursor _ hawait
      rw [hphase] at hawait
      cases hawait.found
  · rename_i groups seen left first groupId hphase
    cases hstep
    rw [hphase] at hgroups
    refine h.turn rfl rfl hgroups ?_ ?_ ?_
    · rw [hphase]
      rfl
    · intro names hmem
      obtain ⟨_, -, hframe⟩ := List.mem_map.1 hmem
      cases hframe
    · intro g _ cursor _ hawait
      rw [hphase] at hawait
      rcases hawait with ⟨rfl, rfl, hname⟩ | hahead
      · refine .inr ⟨rfl, covers_of_missed hname (fun n hn => ?_) rfl⟩
        exact List.mem_append_right _ (List.mem_map_of_mem hn)
      · exact .inl hahead
  · cases hstep

theorem Inv.step {a : Action} (h : Inv members cursors before s)
    (hroom : members.length ≤ MAX_SUBSCRIPTIONS) (hstep : step members cursors s a = some t) :
    Inv members cursors before t := by
  have hlistening := h.toListening
  cases a with
  | post groupId =>
    cases hstep
    exact h.grow (hlistening.post groupId) rfl fun _ => id
  | publish i =>
    have hgrow := hlistening.publish hstep
    obtain ⟨row, -, rfl⟩ := Option.map_eq_some_iff.1 hstep
    exact h.grow hgrow rfl fun _ => id
  | signal groupId payload =>
    cases hstep
    exact h.grow (hlistening.push _) rfl fun _ => id
  | advance => exact h.advance hroom hstep
  | take i =>
    have hgrow := hlistening.take hstep
    obtain ⟨-, first, groupId, notice, queue, rest, -, rfl⟩ := take_eq_some hstep
    refine h.grow hgrow rfl fun names hmem => ?_
    refine (List.mem_append.1 hmem).resolve_right fun hmem => ?_
    cases notice <;> cases List.mem_singleton.1 hmem
  | claim groupId =>
    unfold Gateway.step at hstep
    dsimp only at hstep
    split at hstep
    · cases hstep
      split
      · rename_i hmember
        have hmember := List.contains_iff_mem.1 hmember
        refine h.grow (hlistening.subscribe hmember) ?_ fun _ hmem => sent_subscribe (s := s) ▸ hmem
        unfold State.subscribe
        split <;> rfl
      · refine h.grow (hlistening.same rfl ⟨_, rfl⟩ rfl rfl rfl) rfl fun names hmem => ?_
        exact (List.mem_append.1 hmem).resolve_right fun hmem => nomatch List.mem_singleton.1 hmem
    · cases hstep
  | revalidate =>
    unfold Gateway.step at hstep
    dsimp only at hstep
    split at hstep
    · cases hstep
      exact h.grow hlistening.revalidate rfl fun _ => id
    · cases hstep

theorem inv_start : Inv members cursors before (start before nextSeq) where
  keys := List.nodup_nil
  known _ hg := absurd hg List.not_mem_nil
  groups _ hgroups := nomatch hgroups
  left := List.Subset.refl _
  listens _ hmember := .inl hmember
  ready _ hmem := absurd hmem List.not_mem_nil
  kept := List.Subset.refl _
  covers _ _ _ _ := .inl trivial

/-! ### The server comes to rest -/

/-- The notices in the queues. -/
def queued : List (Bytes × List Notice) → Nat
  | [] => 0
  | (_, queue) :: subscriptions => queue.length + queued subscriptions

/-- How many steps the opening sequence has left, at most. -/
def Phase.steps (members : List Bytes) (cursors : List Cursor) : Phase → Nat
  | .identified => members.length + 2 * cursors.length + 4
  | .subscribing _ left => left.length + 2 * cursors.length + 3
  | .resuming _ _ left => 2 * left.length + 1
  | .querying _ _ left _ _ => 2 * left.length + 2
  | .pumping => 0

/-- How many steps of its own the server has left, at most. -/
def State.remaining (members : List Bytes) (cursors : List Cursor) (s : State) : Nat :=
  s.phase.steps members cursors + (members.length + 1) * s.posted.length + queued s.subscriptions

theorem steps_advance (hstep : s.advance members cursors = some t) :
    t.phase.steps members cursors < s.phase.steps members cursors := by
  have hadvance := hstep
  unfold State.advance at hstep
  split at hstep <;> rename_i hphase
  · cases hstep
    rw [hphase]
    exact Nat.lt_succ_self _
  · cases hstep
    rw [hphase, Phase.steps, Phase.steps, List.length_cons]
    omega
  · cases hstep
    have := (List.take_sublist MAX_CURSORS cursors).length_le
    rw [hphase, Phase.steps, Phase.steps, List.length_nil]
    omega
  · rename_i groups seen first left
    obtain ⟨_, -, -, -, hcases⟩ := resuming_cases hphase hadvance
    rw [hphase]
    rcases hcases with ⟨-, hnext⟩ | ⟨-, hnext⟩ | ⟨_, -, hnext⟩
    all_goals
      rw [hnext, Phase.steps, Phase.steps, List.length_cons]
      omega
  · cases hstep
    rw [hphase]
    exact Nat.succ_pos _
  · cases hstep
    rw [hphase]
    exact Nat.lt_succ_self _
  · cases hstep

theorem queued_append {first rest : List (Bytes × List Notice)} :
    queued (first ++ rest) = queued first + queued rest := by
  induction first with
  | nil => exact (Nat.zero_add _).symm
  | cons subscription first ih =>
    rw [List.cons_append, queued, queued, ih, Nat.add_assoc]

theorem queued_map_receive_le {subscriptions : List (Bytes × List Notice)} :
    queued (subscriptions.map (receive notice)) ≤
      queued subscriptions + subscriptions.length := by
  induction subscriptions with
  | nil => exact Nat.le_refl _
  | cons subscription subscriptions ih =>
    have := length_receive_le notice subscription
    rw [List.map_cons, queued, queued, List.length_cons]
    omega

theorem Listening.length_le (h : Listening members s) :
    s.subscriptions.length ≤ members.length := by
  have hlength := (List.subperm_of_subset h.keys fun g hg => h.known g hg).length_le
  rwa [State.keys, List.length_map] at hlength

/-- The opening sequence takes nothing from the queues. -/
theorem advance_frame (hstep : s.advance members cursors = some t) :
    t.envelopes = s.envelopes ∧ t.posted = s.posted ∧ t.overflowed = s.overflowed ∧
      (t.subscriptions = s.subscriptions ∨
        ∃ groupId, t.subscriptions = s.subscriptions ++ [(groupId, [])] ∧
          s.subscriptions.length < MAX_SUBSCRIPTIONS) := by
  have hadvance := hstep
  unfold State.advance at hstep
  split at hstep <;> rename_i hphase
  · cases hstep
    exact ⟨rfl, rfl, rfl, .inl rfl⟩
  · rename_i groups groupId left
    cases hstep
    rcases subscribe_cases s groupId with ⟨-, heq⟩ | ⟨-, hroom, heq⟩
    · rw [heq]
      exact ⟨rfl, rfl, rfl, .inl rfl⟩
    · rw [heq]
      exact ⟨rfl, rfl, rfl, .inr ⟨groupId, rfl, hroom⟩⟩
  · cases hstep
    exact ⟨rfl, rfl, rfl, .inl rfl⟩
  · obtain ⟨_, -, hrest, -⟩ := resuming_cases hphase hadvance
    rw [hrest]
    exact ⟨rfl, rfl, rfl, .inl rfl⟩
  · cases hstep
    exact ⟨rfl, rfl, rfl, .inl rfl⟩
  · cases hstep
    exact ⟨rfl, rfl, rfl, .inl rfl⟩
  · cases hstep

theorem queued_advance (hstep : s.advance members cursors = some t) :
    queued t.subscriptions = queued s.subscriptions := by
  obtain ⟨-, -, -, hsubs | ⟨groupId, hsubs, -⟩⟩ := advance_frame hstep
  · rw [hsubs]
  · rw [hsubs, queued_append]
    rfl

theorem remaining_lt {a : Action} (h : Listening members s) (hown : a.own = true)
    (hstep : step members cursors s a = some t) :
    t.remaining members cursors < s.remaining members cursors := by
  unfold State.remaining
  cases a with
  | advance =>
    obtain ⟨-, hposted, -⟩ := advance_frame hstep
    have := steps_advance hstep
    rw [hposted, queued_advance hstep]
    omega
  | publish i =>
    obtain ⟨⟨groupId, n⟩, hrow, rfl⟩ := Option.map_eq_some_iff.1 hstep
    obtain ⟨hi, -⟩ := List.getElem?_eq_some_iff.1 hrow
    have hqueued : queued (s.subscriptions.map (receive (.envelope groupId n))) ≤
        queued s.subscriptions + s.subscriptions.length := queued_map_receive_le
    have hlength := h.length_le
    rw [← List.length_eraseIdx_add_one hi, Nat.mul_succ]
    dsimp only [State.push]
    omega
  | take i =>
    obtain ⟨-, before, groupId, notice, queue, after, hsubs, rfl⟩ := take_eq_some hstep
    rw [hsubs, queued_append]
    dsimp only
    rw [queued_append, queued, queued, List.length_cons]
    dsimp only [State.send]
    omega
  | post | signal | claim | revalidate => cases hown

theorem isSome_advance (members : List Bytes) (cursors : List Cursor) (h : s.phase ≠ .pumping) :
    (s.advance members cursors).isSome = true := by
  unfold State.advance
  split
  · rfl
  · rfl
  · rfl
  · split
    · rfl
    · dsimp only
      split
      · rfl
      · split <;> rfl
  · rfl
  · rfl
  · rename_i hphase
    exact absurd hphase h

/-- Unless nothing is on its way any more, the server has a step to make. -/
theorem exists_own_step (members : List Bytes) (cursors : List Cursor) (h : ¬ s.Settled) :
    ∃ a, Action.own a = true ∧ (step members cursors s a).isSome = true := by
  by_cases hphase : s.phase = .pumping
  · cases hposted : s.posted with
    | cons row posted =>
      refine ⟨.publish 0, rfl, ?_⟩
      rw [step, State.publish, hposted]
      rfl
    | nil =>
      have hqueue : ∃ subscription ∈ s.subscriptions, subscription.2 ≠ [] := by
        by_contra hnone
        refine h ⟨hphase, hposted, fun subscription hmem => ?_⟩
        by_contra hne
        exact hnone ⟨subscription, hmem, hne⟩
      obtain ⟨⟨groupId, queue⟩, hmem, hne⟩ := hqueue
      obtain ⟨i, hi, hget⟩ := List.mem_iff_getElem.1 hmem
      obtain ⟨notice, queue, rfl⟩ := List.exists_cons_of_ne_nil hne
      refine ⟨.take i, rfl, ?_⟩
      rw [step, State.take, hphase, List.getElem?_eq_some_iff.2 ⟨hi, hget⟩]
      rfl
  · exact ⟨.advance, rfl, isSome_advance members cursors hphase⟩

/-- Left to itself, the server comes to rest. -/
theorem Inv.settles (h : Inv members cursors before s)
    (hroom : members.length ≤ MAX_SUBSCRIPTIONS) :
    ∃ t, Reach (Gateway.step members cursors) (fun _ a => a.own = true) s t ∧ t.Settled := by
  induction hn : s.remaining members cursors using Nat.strongRecOn generalizing s with
  | ind n ih =>
    by_cases hsettled : s.Settled
    · exact ⟨s, .refl, hsettled⟩
    · obtain ⟨a, hown, hsome⟩ := exists_own_step members cursors hsettled
      obtain ⟨u, hu⟩ := Option.isSome_iff_exists.1 hsome
      have hlt := remaining_lt h.toListening hown hu
      obtain ⟨t, hreach, ht⟩ := ih _ (hn ▸ hlt) (h.step hroom hu) rfl
      have hfirst : Reach (Gateway.step members cursors) (fun _ a => a.own = true) s u :=
        .tail .refl hown hu
      exact ⟨t, hfirst.trans hreach, ht⟩

/-! ### Within the ceilings -/

theorem given_of_take (h : given (cursors.take MAX_CURSORS) groupId = some cursor) :
    given cursors groupId = some cursor := by
  unfold given at h ⊢
  rw [← List.take_append_drop MAX_CURSORS cursors, List.find?_append, h]
  rfl

theorem Inv.announced (h : Inv members cursors before s)
    (hnear : ∀ groupId ∈ members, ∃ cursor ∈ cursors.take MAX_CURSORS,
      fromHex cursor.groupId = some groupId)
    (hsettled : s.Settled) (hmember : groupId ∈ members)
    (hgiven : given cursors groupId = some cursor) (hrow : (groupId, n) ∈ s.envelopes)
    (hlt : cursor.seq < n) (hkept : (groupId, n) ∈ before ∨ groupId ∉ s.overflowed) :
    s.Announced groupId cursor.seq := by
  obtain ⟨first, hfirst, hdecodes⟩ := hnear groupId hmember
  obtain ⟨found, hfound⟩ : ∃ found, given (cursors.take MAX_CURSORS) groupId = some found :=
    Option.isSome_iff_exists.1 (List.find?_isSome.2 ⟨first, hfirst, decide_eq_true hdecodes⟩)
  obtain rfl : found = cursor := Option.some.inj ((given_of_take hfound).symm.trans hgiven)
  have hcovers := h.covers groupId hmember found hfound
  rw [hsettled.phase] at hcovers
  obtain ⟨-, hannounced | hway⟩ := hcovers.resolve_left id
  · exact hannounced
  · obtain ⟨hnew, hposted | hover | ⟨queue, hmem, hqueued⟩⟩ := hway n hrow hlt
    · rw [hsettled.posted] at hposted
      cases hposted
    · exact absurd hover (hkept.resolve_left hnew)
    · have hempty : queue = [] := hsettled.queues _ hmem
      rw [hempty] at hqueued
      cases hqueued

theorem Inv.complete (h : Inv members cursors before s)
    (hroom : members.length ≤ MAX_SUBSCRIPTIONS)
    (hnear : ∀ groupId ∈ members, ∃ cursor ∈ cursors.take MAX_CURSORS,
      fromHex cursor.groupId = some groupId) :
    Complete members cursors before s where
  subscribed hready hname := by
    obtain ⟨rfl, hnil⟩ := h.ready _ hready
    obtain ⟨groupId, hmember, rfl⟩ := List.mem_map.1 hname
    refine ⟨groupId, fromHex_toHex groupId, (h.listens groupId hmember).resolve_left ?_⟩
    rw [hnil]
    exact List.not_mem_nil
  announced hsettled hready hname hgroup := by
    obtain ⟨rfl, -⟩ := h.ready _ hready
    obtain ⟨g, hmember, rfl⟩ := List.mem_map.1 hname
    obtain rfl := Option.some.inj ((fromHex_toHex g).symm.trans hgroup)
    exact h.announced hnear hsettled hmember
  settles := h.settles hroom

/-! ### Past the ceilings -/

/-- The opening sequence keeps to what it was told, and ends. -/
theorem reaches_pumping {P : State → Prop}
    (kept : ∀ {s t : State}, P s → s.advance members cursors = some t → P t) (h : P s) :
    ∃ t, Reach (step members cursors) (fun _ _ => True) s t ∧ t.phase = .pumping ∧ P t := by
  induction hn : s.phase.steps members cursors using Nat.strongRecOn generalizing s with
  | ind n ih =>
    by_cases hphase : s.phase = .pumping
    · exact ⟨s, .refl, hphase, h⟩
    · obtain ⟨u, hu⟩ := Option.isSome_iff_exists.1 (isSome_advance members cursors hphase)
      obtain ⟨t, hreach, ht⟩ := ih _ (hn ▸ steps_advance hu) (kept h hu) rfl
      have hstep : step members cursors s .advance = some u := hu
      have hfirst : Reach (step members cursors) (fun _ _ => True) s u := .tail .refl trivial hstep
      exact ⟨t, hfirst.trans hreach, ht⟩

/-- What `ready` names are the groups of the device. -/
def Readied (members : List Bytes) (s : State) : Prop :=
  match s.phase with
  | .identified => True
  | .subscribing groups _ => groups = members
  | .resuming _ _ _ | .querying _ _ _ _ _ | .pumping => .ready (members.map toHex) ∈ s.sent

theorem Readied.advance (h : Readied members s) (hstep : s.advance members cursors = some t) :
    Readied members t := by
  have hadvance := hstep
  unfold State.advance at hstep
  unfold Readied at h
  split at hstep <;> rename_i hphase <;> rw [hphase] at h
  · cases hstep
    exact rfl
  · cases hstep
    exact h
  · cases hstep
    dsimp only at h
    subst h
    exact List.mem_append_right _ List.mem_cons_self
  · obtain ⟨_, hsent, -, -, hcases⟩ := resuming_cases hphase hadvance
    unfold Readied
    rcases hcases with ⟨-, hnext⟩ | ⟨-, hnext⟩ | ⟨_, -, hnext⟩
    all_goals
      rw [hnext, hsent]
      exact List.mem_append_left _ h
  · cases hstep
    exact h
  · cases hstep
    exact List.mem_append_left _ h
  · cases hstep

theorem length_advance_le (h : s.subscriptions.length ≤ MAX_SUBSCRIPTIONS)
    (hstep : s.advance members cursors = some t) :
    t.subscriptions.length ≤ MAX_SUBSCRIPTIONS := by
  obtain ⟨-, -, -, hsubs | ⟨groupId, hsubs, hroom⟩⟩ := advance_frame hstep
  · rw [hsubs]
    exact h
  · rw [hsubs, List.length_append]
    exact hroom

theorem ready_of_pumping (h : Readied members s) (hphase : s.phase = .pumping) :
    .ready (members.map toHex) ∈ s.sent := by
  unfold Readied at h
  rw [hphase] at h
  exact h

variable (cursors before) (nextSeq : Bytes → Int) in
/-- Groups past the ceiling are named, and not listened to. -/
theorem exists_unsubscribed (hnodup : members.Nodup)
    (hmany : MAX_SUBSCRIPTIONS < members.length) :
    ∃ s, Reach (step members cursors) (fun _ _ => True) (start before nextSeq) s ∧
      .ready (members.map toHex) ∈ s.sent ∧ ∃ groupId ∈ members, ¬ s.Subscribed groupId := by
  obtain ⟨s, hreach, hphase, hready, hlength⟩ :=
    reaches_pumping (P := fun s => Readied members s ∧
      s.subscriptions.length ≤ MAX_SUBSCRIPTIONS)
      (fun h hstep => ⟨h.1.advance hstep, length_advance_le h.2 hstep⟩)
      (show Readied members (start before nextSeq) ∧ _ from ⟨trivial, Nat.zero_le _⟩)
  refine ⟨s, hreach, ready_of_pumping hready hphase, ?_⟩
  by_contra hall
  have hsubset : members ⊆ s.keys := fun groupId hmember => by
    by_contra hnew
    exact hall ⟨groupId, hmember, fun hsub => hnew (mem_keys_iff.2 hsub)⟩
  have hle := (List.subperm_of_subset hnodup hsubset).length_le
  rw [State.keys, List.length_map] at hle
  exact Nat.lt_irrefl _ (hmany.trans_le (hle.trans hlength))

/-- None of the cursors still to be worked off is for the group. -/
def Phase.Spares (groupId : Bytes) : Phase → Prop
  | .identified | .subscribing _ _ | .pumping => True
  | .resuming _ _ left => ∀ cursor ∈ left, fromHex cursor.groupId ≠ some groupId
  | .querying _ _ left cursor _ => fromHex cursor.groupId ≠ some groupId ∧
    ∀ cursor ∈ left, fromHex cursor.groupId ≠ some groupId

def Silent (groupId : Bytes) (s : State) : Prop :=
  ∀ name n, .envelope name n ∈ s.sent → fromHex name ≠ some groupId

/-- Nothing of a group was sent, and nothing will be. -/
structure Unheard (members : List Bytes) (groupId : Bytes) (s : State) : Prop where
  readied : Readied members s
  posted : s.posted = []
  overflowed : s.overflowed = []
  queues : ∀ subscription ∈ s.subscriptions, subscription.2 = []
  silent : Silent groupId s
  spared : s.phase.Spares groupId

theorem Silent.append (h : Silent groupId s) (hsent : t.sent = s.sent ++ frames)
    (hframes : ∀ name n, .envelope name n ∈ frames → fromHex name ≠ some groupId) :
    Silent groupId t := fun name n hmem => by
  rw [hsent] at hmem
  exact (List.mem_append.1 hmem).elim (h name n) (hframes name n)

theorem Silent.advance (h : Silent groupId s) (hspared : s.phase.Spares groupId)
    (hfar : ∀ cursor ∈ cursors.take MAX_CURSORS, fromHex cursor.groupId ≠ some groupId)
    (hstep : s.advance members cursors = some t) :
    Silent groupId t ∧ t.phase.Spares groupId := by
  have hadvance := hstep
  unfold State.advance at hstep
  split at hstep <;> rename_i hphase <;> rw [hphase] at hspared
  · cases hstep
    exact ⟨h, trivial⟩
  · cases hstep
    exact ⟨fun name n hmem => h name n (sent_subscribe (s := s) ▸ hmem), trivial⟩
  · cases hstep
    refine ⟨h.append rfl fun name n hmem => ?_, hfar⟩
    cases List.mem_singleton.1 hmem
  · obtain ⟨frames, hsent, -, hgaps, hcases⟩ := resuming_cases hphase hadvance
    obtain ⟨hfirst, hleft⟩ := List.forall_mem_cons.1 hspared
    refine ⟨h.append hsent fun name n hmem => ?_, ?_⟩
    · obtain ⟨_, _, hframe⟩ := hgaps _ hmem
      cases hframe
    · rcases hcases with ⟨-, hnext⟩ | ⟨-, hnext⟩ | ⟨_, -, hnext⟩ <;> rw [hnext]
      · exact hleft
      · exact hleft
      · exact ⟨hfirst, hleft⟩
  · cases hstep
    exact ⟨h, trivial⟩
  · cases hstep
    refine ⟨h.append rfl fun name n hmem => ?_, hspared.2⟩
    obtain ⟨_, -, hframe⟩ := List.mem_map.1 hmem
    cases hframe
    exact hspared.1
  · cases hstep

theorem Unheard.advance (h : Unheard members groupId s)
    (hfar : ∀ cursor ∈ cursors.take MAX_CURSORS, fromHex cursor.groupId ≠ some groupId)
    (hstep : s.advance members cursors = some t) : Unheard members groupId t := by
  obtain ⟨-, hposted, hover, hsubs⟩ := advance_frame hstep
  obtain ⟨hsilent, hspared⟩ := h.silent.advance h.spared hfar hstep
  refine ⟨h.readied.advance hstep, hposted.trans h.posted, hover.trans h.overflowed, ?_, hsilent,
    hspared⟩
  rcases hsubs with hsubs | ⟨g, hsubs, -⟩
  · rw [hsubs]
    exact h.queues
  · rw [hsubs]
    refine List.forall_mem_append.2 ⟨h.queues, fun subscription hmem => ?_⟩
    rw [List.mem_singleton.1 hmem]

variable (members cursors before) (nextSeq : Bytes → Int) in
/-- Before the session has listened to anything, posts go by unheard. -/
theorem exists_posted (groupId : Bytes) (k : Nat) :
    ∃ s, Reach (step members cursors) (fun _ _ => True) (start before nextSeq) s ∧
      s.phase = .identified ∧ s.subscriptions = [] ∧ Unheard members groupId s ∧
      s.nextSeq groupId = nextSeq groupId + k ∧
      (0 < k → (groupId, nextSeq groupId + k) ∈ s.envelopes) := by
  induction k with
  | zero =>
    refine ⟨_, .refl, rfl, rfl, ⟨trivial, rfl, rfl, ?_, ?_, trivial⟩, ?_, ?_⟩
    · exact fun _ hmem => absurd hmem List.not_mem_nil
    · exact fun _ _ hmem => absurd hmem List.not_mem_nil
    · exact (Int.add_zero _).symm
    · exact fun h => absurd h (Nat.lt_irrefl 0)
  | succ k ih =>
    obtain ⟨s, hreach, hphase, hsubs, hunheard, hnext, -⟩ := ih
    have hpost : step members cursors s (.post groupId) = some (s.post groupId) := rfl
    have hpublish : step members cursors (s.post groupId) (.publish 0) =
        some { s.post groupId with posted := [] } := by
      simp [step, State.publish, State.post, State.push, hunheard.posted, hsubs]
    refine ⟨_, .tail (.tail hreach trivial hpost) trivial hpublish, hphase, hsubs,
      ⟨?_, rfl, hunheard.overflowed, hunheard.queues, hunheard.silent, hunheard.spared⟩, ?_,
      fun _ => ?_⟩
    · unfold Readied
      dsimp only [State.post]
      rw [hphase]
      trivial
    · change Function.update s.nextSeq groupId (s.nextSeq groupId + 1) groupId = _
      rw [Function.update_self, hnext, Int.natCast_succ, Int.add_assoc]
    · rw [Int.natCast_succ, ← Int.add_assoc, ← hnext]
      exact List.mem_append_right _ List.mem_cons_self

variable (members before) (nextSeq : Bytes → Int) in
/-- A group whose cursor is past the ceiling can be left without an announcement. -/
theorem exists_unannounced
    (hfar : ∀ cursor ∈ cursors.take MAX_CURSORS, fromHex cursor.groupId ≠ some groupId)
    (seq : Int) :
    ∃ s n, Reach (step members cursors) (fun _ _ => True) (start before nextSeq) s ∧
      s.Settled ∧ .ready (members.map toHex) ∈ s.sent ∧ (groupId, n) ∈ s.envelopes ∧ seq < n ∧
      s.overflowed = [] ∧ ¬ s.Announced groupId seq := by
  obtain ⟨u, hposts, -, -, hunheard, -, hrow⟩ := exists_posted members cursors before nextSeq
    groupId ((seq - nextSeq groupId).toNat + 1)
  obtain ⟨s, hopens, hphase, hunheard, henvelopes⟩ :=
    reaches_pumping (P := fun s => Unheard members groupId s ∧ s.envelopes = u.envelopes)
      (fun h hstep => ⟨h.1.advance hfar hstep, (advance_frame hstep).1.trans h.2⟩)
      (show Unheard members groupId u ∧ _ from ⟨hunheard, rfl⟩)
  refine ⟨s, _, hposts.trans hopens, ⟨hphase, hunheard.posted, hunheard.queues⟩,
    ready_of_pumping hunheard.readied hphase, henvelopes ▸ hrow (Nat.succ_pos _), ?_,
    hunheard.overflowed, ?_⟩
  · omega
  · rintro ⟨name, n, hmem, hname, -⟩
    exact hunheard.silent name n hmem hname

end

/-- Whatever is posted during the opening sequence and after it, every group that `ready` names is
listened to, and what is above its cursor is announced, if and only if there are no more groups than
a session may listen to and the cursor of each is among those that are read. -/
theorem complete_iff {members : List Bytes} {cursors : List Cursor} (hnodup : members.Nodup)
    (hcover : ∀ groupId ∈ members, ∃ cursor ∈ cursors, fromHex cursor.groupId = some groupId)
    (before : List (Bytes × Int)) (nextSeq : Bytes → Int) :
    (∀ s, Reach (step members cursors) (fun _ _ => True) (start before nextSeq) s →
      Complete members cursors before s) ↔
    members.length ≤ MAX_SUBSCRIPTIONS ∧
      ∀ groupId ∈ members, ∃ cursor ∈ cursors.take MAX_CURSORS,
        fromHex cursor.groupId = some groupId := by
  constructor
  · intro hcomplete
    refine ⟨?_, fun groupId hmember => ?_⟩
    · by_contra hmany
      obtain ⟨s, hreach, hready, groupId, hmember, hnot⟩ :=
        exists_unsubscribed cursors before nextSeq hnodup (Nat.lt_of_not_le hmany)
      obtain ⟨g, hg, hsub⟩ := (hcomplete s hreach).subscribed hready (List.mem_map_of_mem hmember)
      cases Option.some.inj ((fromHex_toHex groupId).symm.trans hg)
      exact hnot hsub
    · by_contra hnone
      have hfar : ∀ cursor ∈ cursors.take MAX_CURSORS, fromHex cursor.groupId ≠ some groupId :=
        fun cursor hmem hname => hnone ⟨cursor, hmem, hname⟩
      obtain ⟨first, hfirst, hdecodes⟩ := hcover groupId hmember
      obtain ⟨cursor, hcursor⟩ : ∃ cursor, given cursors groupId = some cursor :=
        Option.isSome_iff_exists.1 (List.find?_isSome.2 ⟨first, hfirst, decide_eq_true hdecodes⟩)
      obtain ⟨s, n, hreach, hsettled, hready, hrow, hlt, hover, hnot⟩ :=
        exists_unannounced members before nextSeq hfar cursor.seq
      refine hnot ((hcomplete s hreach).announced hsettled hready (List.mem_map_of_mem hmember)
        (fromHex_toHex groupId) hcursor hrow hlt (.inr ?_))
      rw [hover]
      exact List.not_mem_nil
  · rintro ⟨hroom, hnear⟩ s hreach
    have hinv : Inv members cursors before s :=
      hreach.invariant inv_start fun h _ hstep => h.step hroom hstep
    exact hinv.complete hroom hnear

/-! ## A device of many groups -/

/-- The groups of a device in so many of them, and a cursor for each. -/
def groupsOf (n : Nat) : List Bytes := (List.range n).map (toBeBytes 2)

def cursorsOf (n : Nat) : List Cursor := (groupsOf n).map fun groupId => ⟨toHex groupId, 0⟩

theorem nodup_groupsOf (h : n ≤ 65536) : (groupsOf n).Nodup := by
  refine List.Nodup.map_on (fun i hi j hj hsame => ?_) List.nodup_range
  have hi := List.mem_range.1 hi
  have hj := List.mem_range.1 hj
  have hvalue := congrArg fromBeBytes hsame
  rwa [fromBeBytes_toBeBytes (by omega), fromBeBytes_toBeBytes (by omega)] at hvalue

theorem covered_groupsOf (n : Nat) : ∀ groupId ∈ groupsOf n, ∃ cursor ∈ cursorsOf n,
    fromHex cursor.groupId = some groupId :=
  fun groupId hmember => ⟨_, List.mem_map_of_mem hmember, fromHex_toHex groupId⟩

theorem length_groupsOf : (groupsOf n).length = n := by
  rw [groupsOf, List.length_map, List.length_range]

theorem complete_of_two :
    (groupsOf 2).length ≤ MAX_SUBSCRIPTIONS ∧
      ∀ s, Reach (step (groupsOf 2) (cursorsOf 2)) (fun _ _ => True) (start [] fun _ => 0) s →
        Complete (groupsOf 2) (cursorsOf 2) [] s :=
  ⟨by decide, (complete_iff (nodup_groupsOf (by decide)) (covered_groupsOf 2) [] _).2
    ⟨by decide, covered_groupsOf 2⟩⟩

/-- One group too many. -/
theorem past_the_ceiling :
    ¬ ∀ s, Reach (step (groupsOf 513) (cursorsOf 513)) (fun _ _ => True) (start [] fun _ => 0) s →
      Complete (groupsOf 513) (cursorsOf 513) [] s := by
  intro hcomplete
  have hmany : MAX_SUBSCRIPTIONS < (groupsOf 513).length := by
    rw [length_groupsOf]
    decide
  obtain ⟨s, hreach, hready, groupId, hmember, hnot⟩ :=
    exists_unsubscribed (cursorsOf 513) [] (fun _ => 0) (nodup_groupsOf (by decide)) hmany
  obtain ⟨g, hg, hsub⟩ := (hcomplete s hreach).subscribed hready (List.mem_map_of_mem hmember)
  cases Option.some.inj ((fromHex_toHex groupId).symm.trans hg)
  exact hnot hsub

end Whispee.Server.Gateway
