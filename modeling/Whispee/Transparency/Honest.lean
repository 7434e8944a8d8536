import Whispee.Transparency.Client
import Whispee.Transparency.Served

/-!
# Checks of an honest server

A check begins after its anchor was accepted, so the head it is served is no smaller than the
anchor, under the same key, and relates to it. The proof of that relation comes from another
request, and the client verifies it against the head of the first: nothing in the code sees to it
that both are of one tree (`append_between_accuses`). `never_refused` is what holds when they are.
-/

namespace Whispee.Transparency.Client

open Service Transition

variable {Hash : Type} {S : Sha256 Hash} {E : Ed25519 Key} {key : Key} {leaves : List Hash}

/-! ## What requests say of a key and of a size -/

section
variable {r : Reader S Key}

/-- Every head is signed with the key. -/
def Keyed (E : Ed25519 Key) (key : Key) : Phase S Key → Prop
  | .keyed k | .probed k _ | .missed k | .rebuilt k _ => k = key
  | .signed head _ | .found head .. => head.logKey = E.verifyingKey key
  | .answered _ (.ok answer) => ∀ head, answer.head? = some head → head.logKey = E.verifyingKey key
  | .received | .answered _ (.error _) => True

/-- The account's key a request has found. -/
def keyOf? : Phase S Key → Option Bytes
  | .found _ _ _ k => some k
  | .answered _ (.ok (.devices k)) => some k
  | .answered _ (.ok (.proof p)) => some p.identityKey
  | _ => none

/-- What the request has read of the log has no fewer leaves. -/
structure AtLeast (n : Nat) (phase : Phase S Key) : Prop where
  probed : ∀ {k current}, phase = .probed k current → n ≤ current.size
  tree : ∀ {sn}, phase.tree = some sn → n ≤ sn.leaves.length

theorem keyed_of_moves (m : r.Moves E db cached now new cached') (h : Keyed E key r.phase)
    (signing : db.signingKey = some key) : Keyed E key new := by
  cases m with
  | devices | consistency | head | proof | found | stored | hit | probed | missed | rebuilt =>
    simp_all [Keyed, signedHead, Answer.head?]
  | refused error => exact trivial
  | keyed found => exact Option.some.inj (found.symm.trans signing)

theorem keyOf?_of_moves (m : r.Moves E db cached now new cached') (hk : keyOf? new = some k) :
    keyOf? r.phase = some k ∨ (∃ account, r.ask = .devices account ∧ db.identityKey account = some k) ∨
      ∃ account seq, r.ask = .proof account ∧ db.latest account = some (seq, k) := by
  cases m with
  | devices asked found =>
    cases hk
    exact .inr (.inl ⟨_, asked, found⟩)
  | found at_ asked latest =>
    cases hk
    exact .inr (.inr ⟨_, _, asked, latest⟩)
  | proof at_ asked proved =>
    cases hk
    exact .inl (at_ ▸ rfl)
  | _ => cases hk

theorem atLeast_of_moves (m : r.Moves E db cached now new cached') (h : AtLeast n r.phase)
    (le : n ≤ db.leaves.length) : AtLeast n new := by
  have size : db.fingerprint.size = db.leaves.length := by
    simp [Database.fingerprint, Database.leaves, Database.inOrder]
  refine ⟨fun probed => ?_, fun tree => ?_⟩
  · rw [m.fingerprint probed, size]
    exact le
  · rcases m.tree tree with held | ⟨k, probed, _⟩ | rfl
    · exact h.tree held
    · rw [← Snapshot.size_eq]
      exact h.probed probed
    · exact le

end

/-! ## Anchors -/

/-- The head is one the log has had, under this key. -/
structure SeenHead.Anchors (S : Sha256 Hash) (logKey : Bytes) (leaves : List Hash)
    (a : SeenHead Hash) : Prop where
  pos : 0 < a.size
  le : a.size ≤ leaves.length
  root : a.root = Transparency.root S (leaves.take a.size)
  key : a.logKey = logKey

theorem SeenHead.Anchors.mono {a : SeenHead Hash} {logKey : Bytes} (h : a.Anchors S logKey leaves)
    (grown : leaves <+: leaves') : a.Anchors S logKey leaves' where
  pos := h.pos
  le := h.le.trans grown.length_le
  root := by
    obtain ⟨rest, rfl⟩ := grown
    rw [List.take_append_of_le_length h.le]
    exact h.root
  key := h.key

theorem anchors_seenOf {head : SignedHead Hash} {sn : Snapshot S} (of : head.Of E sn)
    (held : sn.leaves <+: leaves) (pos : 0 < head.size) (key : head.logKey = logKey) :
    (seenOf head).Anchors S logKey leaves where
  pos := pos
  le := of.over.1.trans_le held.length_le
  root := by
    change head.root = root S (leaves.take head.size)
    rw [of.over.2, of.over.1, ← List.prefix_iff_eq_take.1 held]
  key := key

/-! ## What a check remembers -/

/-- What a check remembers is true of the server; no check has refused. -/
inductive Check.Sound (E : Ed25519 Key) (key : Key) (server : State S Key) :
    Check Hash → Prop where
  | resolving (at_ : server.readers[j]? = some r) (asked : r.ask = .devices account)
    (tells : ∀ k, keyOf? r.phase = some k → server.db.identityKey account = some k) :
    Sound E key server (.resolving account j)
  | resolved (current : server.db.identityKey account = some k) :
    Sound E key server (.resolved account k)
  | proving (current : server.db.identityKey account = some k)
    (anchored : ∀ a, seen = some a → a.Anchors S (E.verifyingKey key) server.db.leaves)
    (at_ : server.readers[j]? = some r) (asked : r.ask = .proof account)
    (tells : ∀ k', keyOf? r.phase = some k' → k' = k)
    (fresh : ∀ a, seen = some a → AtLeast a.size r.phase) :
    Sound E key server (.proving account k seen j)
  | heading (anchored : SeenHead.Anchors S (E.verifyingKey key) server.db.leaves
      ⟨peer.size, peer.root, E.verifyingKey key⟩)
    (at_ : server.readers[j]? = some r) (asked : r.ask = .head)
    (fresh : AtLeast peer.size r.phase) :
    Sound E key server (.heading peer j)
  | extending (anchored : anchor.Anchors S (E.verifyingKey key) server.db.leaves)
    (current : (seenOf head).Anchors S (E.verifyingKey key) server.db.leaves)
    (le : anchor.size ≤ head.size)
    (at_ : server.readers[j]? = some r) (asked : r.ask = .consistency anchor.size) :
    Sound E key server (.extending remember anchor head j)
  | deferred : Sound E key server (.ended none)
  | accepted : Sound E key server (.ended (some .ok))

/-- The server's table and accounts agree, under one key; checks remember what is true. -/
structure World.Inv (E : Ed25519 Key) (key : Key) (s : World S Key) : Prop where
  server : s.server.Inv E
  signing : s.server.db.signingKey = some key
  readers : ∀ r ∈ s.server.readers, Keyed E key r.phase
  accounts : ∀ account k, s.server.db.identityKey account = some k →
    (s.server.db.latest account).map Prod.snd = some k
  accepted : ∀ a ∈ s.accepted, a.Anchors S (E.verifyingKey key) s.server.db.leaves
  checks : ∀ c ∈ s.checks, c.Sound E key s.server

/-! ## The server goes on -/

section
variable {server server' : State S Key} {w : Writer Hash}

theorem latest_commit (ordered : Ordered S server.db.logEntries n)
    (ordered' : Ordered S (server.db.commit w).logEntries n) (account : String) :
    ((server.db.commit w).latest account).map Prod.snd =
      ((w.drawn.filter (·.account = account)).getLast?.map (·.identityKey)).or
        ((server.db.latest account).map Prod.snd) := by
  rw [Database.latest, Database.latest, ordered.inOrder_eq, ordered'.inOrder_eq, Database.commit,
    List.filter_append, List.getLast?_append, Option.map_or, Option.map_or, Option.map_map,
    Option.map_map]
  rfl

theorem identityKey_commit (publishes : w.publishes = true) (account : String) :
    (server.db.commit w).identityKey account =
      ((w.drawn.filter (·.account = account)).getLast?.map (·.identityKey)).or
        (server.db.identityKey account) := if_pos publishes

/-- A step of the server that commits nothing about an account leaves its key. -/
theorem identityKey_of_step (hs : server.step E a = some server')
    (others : ∀ {i : Nat} {w}, a = .write i → server.writers[i]? = some w → w.todo = [] →
      ∀ row ∈ w.drawn, row.account ≠ account) :
    server'.db.identityKey account = server.db.identityKey account := by
  cases State.change_of_step hs with
  | @committed w i act at_ todo =>
    have none_ : w.drawn.filter (·.account = account) = [] := by
      rw [List.filter_eq_nil_iff]
      intro row hrow same
      exact others act at_ todo row hrow (of_decide_eq_true same)
    change (if w.publishes then _ else _) = _
    rw [none_]
    split
    · rfl
    · rfl
  | _ => rfl

/-- What a request is, one step later. -/
def Onward (E : Ed25519 Key) (server : State S Key) (r r' : Reader S Key) : Prop :=
  r'.phase = r.phase ∨ r'.phase = .answered none (.error .database) ∨
    ∃ now held, r.Moves E server.db (server.cached r.process) now r'.phase held

theorem keyOf?_onward {r r' : Reader S Key} (onward : Onward E server r r')
    (hk : keyOf? r'.phase = some k) :
    keyOf? r.phase = some k ∨
      (∃ account, r.ask = .devices account ∧ server.db.identityKey account = some k) ∨
      ∃ account seq, r.ask = .proof account ∧ server.db.latest account = some (seq, k) := by
  rcases onward with same | lost | ⟨now, held, moves⟩
  · rw [same] at hk
    exact .inl hk
  · rw [lost] at hk
    cases hk
  · exact keyOf?_of_moves moves hk

theorem atLeast_onward {r r' : Reader S Key} (onward : Onward E server r r')
    (h : AtLeast n r.phase) (le : n ≤ server.db.leaves.length) : AtLeast n r'.phase := by
  rcases onward with same | lost | ⟨now, held, moves⟩
  · rw [same]
    exact h
  · rw [lost]
    exact ⟨(fun hc => by cases hc), (fun hc => by cases hc)⟩
  · exact atLeast_of_moves moves h le

theorem Check.Sound.step {c : Check Hash} (h : c.Sound E key server)
    (hs : server.step E a = some server') (leaves : server.db.leaves <+: server'.db.leaves)
    (accounts : ∀ account k, server.db.identityKey account = some k →
      (server.db.latest account).map Prod.snd = some k)
    (others : ∀ account, c.account? = some account →
      server'.db.identityKey account = server.db.identityKey account) :
    c.Sound E key server' := by
  cases h with
  | resolving at_ asked tells =>
    obtain ⟨r', at', ask, onward⟩ := State.reader_in_step hs at_
    refine .resolving at' (ask.trans asked) fun k hk => ?_
    rw [others _ rfl]
    rcases keyOf?_onward onward hk with old | ⟨_, asked', found⟩ | ⟨_, _, asked', _⟩
    · exact tells k old
    · cases asked.symm.trans asked'
      exact found
    · cases asked.symm.trans asked'
  | resolved current => exact .resolved ((others _ rfl).trans current)
  | proving current anchored at_ asked tells fresh =>
    obtain ⟨r', at', ask, onward⟩ := State.reader_in_step hs at_
    refine .proving ((others _ rfl).trans current) (fun a ha => (anchored a ha).mono leaves) at'
      (ask.trans asked) (fun k' hk => ?_)
      fun a ha => atLeast_onward onward (fresh a ha) (anchored a ha).le
    rcases keyOf?_onward onward hk with old | ⟨_, asked', _⟩ | ⟨_, _, asked', latest⟩
    · exact tells k' old
    · cases asked.symm.trans asked'
    · cases asked.symm.trans asked'
      have agree := accounts _ _ current
      rw [latest] at agree
      exact Option.some.inj agree
  | heading anchored at_ asked fresh =>
    obtain ⟨r', at', ask, onward⟩ := State.reader_in_step hs at_
    exact .heading (anchored.mono leaves) at' (ask.trans asked)
      (atLeast_onward onward fresh anchored.le)
  | extending anchored current le at_ asked =>
    obtain ⟨r', at', ask, onward⟩ := State.reader_in_step hs at_
    exact .extending (anchored.mono leaves) (current.mono leaves) le at' (ask.trans asked)
  | deferred => exact .deferred
  | accepted => exact .accepted

end

/-! ## Checks go on -/

namespace World

variable {s t : World S Key}

/-- The log grows by creations and rotations of accounts that no check is looking up. -/
def othersOnly (s : World S Key) : Action Hash Key → Bool
  | .server (.write i) =>
    match s.server.writers[i]? with
    | some w => w.todo ≠ [] || w.publishes && w.drawn.all fun row =>
        s.checks.all fun c => c.account? ≠ some row.account
    | none => true
  | _ => true

/-- The consistency proof a check resumes with is about a tree of the size of the head it is
verified against. -/
def oneTree (s : World S Key) : Action Hash Key → Bool
  | .resume k _ =>
    match s.checks[k]? with
    | some (.extending _ _ current request) =>
      match s.answer request with
      | some (.ok (.consistency c)) => c.head.size = current.size
      | _ => true
    | _ => true
  | _ => true

namespace Inv

theorem server_step (h : s.Inv E key) (hs : s.server.step E a = some server')
    (others : s.othersOnly (.server a)) : ({ s with server := server' } : World S Key).Inv E key := by
  have commits : ∀ {i : Nat} {w}, a = .write i → s.server.writers[i]? = some w → w.todo = [] →
      w.publishes = true ∧ ∀ row ∈ w.drawn, ∀ c ∈ s.checks, c.account? ≠ some row.account := by
    rintro i w rfl at_ todo
    rw [othersOnly, at_] at others
    simpa [todo] using others
  have leaves := h.server.leaves_step hs
  have inv := h.server.step hs
  refine ⟨inv, ?_, fun r hr => ?_, fun account k hk => ?_,
    fun a ha => (h.accepted a ha).mono leaves, fun c hc => (h.checks c hc).step hs leaves h.accounts
      fun account about => identityKey_of_step hs fun act at_ todo row hrow same =>
        (commits act at_ todo).2 row hrow c hc (about.trans (congrArg some same.symm))⟩
  · cases State.change_of_step hs with
    | started process kept => exact kept key h.signing
    | _ => exact h.signing
  · obtain ⟨i, at_⟩ := List.getElem?_of_mem hr
    rcases State.reader_of_step hs at_ with old | new | ⟨r₀, at₀, _, _, lost | ⟨_, _, moves⟩⟩
    · exact h.readers r (List.mem_of_getElem? old)
    · rw [new]
      exact trivial
    · rw [lost]
      exact trivial
    · exact keyed_of_moves moves (h.readers r₀ (List.mem_of_getElem? at₀)) h.signing
  · cases State.change_of_step hs with
    | committed act at_ todo =>
      rw [identityKey_commit (commits act at_ todo).1] at hk
      rw [latest_commit h.server.ordered inv.ordered]
      rcases Option.or_eq_some_iff.1 hk with drawn | ⟨nothing, old⟩
      · exact Option.or_eq_some_iff.2 (.inl drawn)
      · exact Option.or_eq_some_iff.2 (.inr ⟨nothing, h.accounts account k old⟩)
    | _ => exact h.accounts account k hk

theorem setCheck (h : s.Inv E key) (sound : c.Sound E key s.server) :
    (s.setCheck k c).Inv E key := { h with checks := Tasks.forall_mem_set h.checks sound }

/-- A request is sent: it stands at the end of the server's requests. -/
theorem send (h : s.Inv E key) (process : Nat) (ask : Ask) : (s.send process ask).Inv E key :=
  h.server_step (a := .receive process ask) rfl rfl

theorem addCheck (h : s.Inv E key) (sound : c.Sound E key s.server) :
    ({ s with checks := s.checks ++ [c] } : World S Key).Inv E key :=
  { h with checks := Tasks.forall_mem_concat h.checks sound }

theorem accept (h : s.Inv E key)
    (anchors : ∀ a, head = some a → a.Anchors S (E.verifyingKey key) s.server.db.leaves) :
    (s.accept k head).Inv E key where
  server := h.server
  signing := h.signing
  readers := h.readers
  accounts := h.accounts
  accepted a ha := by
    rcases List.mem_append.1 ha with ha | ha
    · exact h.accepted a ha
    · exact anchors a (Option.mem_toList.1 ha)
  checks := Tasks.forall_mem_set h.checks .accepted

/-- The request `send` has just sent. -/
theorem sent (s : World S Key) (process : Nat) (ask : Ask) :
    (s.send process ask).server.readers[s.server.readers.length]? =
      some ⟨process, ask, .received⟩ := List.getElem?_concat_length

theorem atLeast_received : AtLeast n (.received : Phase S Key) :=
  ⟨(fun hc => by cases hc), (fun hc => by cases hc)⟩

/-- The head a request was answered with is one the log has had. -/
theorem headAnchors {r : Reader S Key} (h : s.Inv E key) (hr : r ∈ s.server.readers)
    (phase : r.phase = .answered used (.ok ans)) (came : ans.head? = some head)
    (pos : 0 < head.size) :
    (seenOf head).Anchors S (E.verifyingKey key) s.server.db.leaves := by
  obtain ⟨sn, -, of, held⟩ := h.server.served hr ⟨used, ans, phase, came⟩
  have keyed := h.readers r hr
  rw [phase] at keyed
  exact anchors_seenOf of held pos (keyed head came)

/-- What a request has read is as large as its head. -/
theorem size_le_of_atLeast {r : Reader S Key} (h : s.Inv E key) (hr : r ∈ s.server.readers)
    (phase : r.phase = .answered used (.ok ans)) (came : ans.head? = some head)
    (fresh : AtLeast n r.phase) : n ≤ head.size := by
  obtain ⟨sn, tree, of, -⟩ := h.server.served hr ⟨used, ans, phase, came⟩
  rw [of.over.1]
  exact fresh.tree tree

theorem extend (h : s.Inv E key) (anchored : anchor.Anchors S (E.verifyingKey key) s.server.db.leaves)
    (current : (seenOf head).Anchors S (E.verifyingKey key) s.server.db.leaves)
    (le : anchor.size ≤ head.size) : (s.extend k remember anchor head process).Inv E key := by
  rw [World.extend, if_neg (Nat.not_lt.2 le)]
  exact (h.send process _).setCheck (.extending anchored current le (sent ..) rfl)

end Inv

theorem answer_eq_some (h : s.answer j = some a) :
    ∃ r used, s.server.readers[j]? = some r ∧ r.phase = .answered used a := by
  obtain ⟨r, at_, hr⟩ := Option.bind_eq_some_iff.1 h
  split at hr
  · cases hr
    exact ⟨r, _, at_, ‹_›⟩
  · cases hr

end World

section
variable [DecidableEq Hash] {pinned : Option Bytes}

omit [DecidableEq Hash] in
theorem acceptHead_eq_ok {head : SignedHead Hash} {seen : Option (SeenHead Hash)}
    (signed : head.verify S E = .ok ()) (pin : ∀ k, pinned = some k → k = head.logKey)
    (extends_ : ∀ a, seen = some a → a.logKey = head.logKey ∧ a.size ≤ head.size) :
    acceptHead S E pinned head seen = .ok := by
  have unpinned : ¬ pinned.any (· ≠ head.logKey) := by
    cases pinned with
    | none => exact Bool.false_ne_true
    | some k => simpa using pin k rfl
  have sameKey : ¬ seen.any (·.logKey ≠ head.logKey) := by
    cases seen with
    | none => exact Bool.false_ne_true
    | some a => simpa using (extends_ a rfl).1
  have grown : ¬ seen.any (head.size < ·.size) := by
    cases seen with
    | none => exact Bool.false_ne_true
    | some a => simpa using (extends_ a rfl).2
  rw [acceptHead, if_neg unpinned, if_neg sameKey, if_neg (not_not.2 signed), if_neg grown]

/-- The proof built for a tree of the head's size relates it to the anchor. -/
theorem verifyExtends_eq_ok {anchor : SeenHead Hash} {current : SignedHead Hash}
    {c : ConsistencyProof Hash} {sn : Snapshot S}
    (anchored : anchor.Anchors S logKey leaves) (now : (seenOf current).Anchors S logKey leaves)
    (of : c.head.Over S sn.leaves) (held : sn.leaves <+: leaves) (same : c.head.size = current.size)
    (within : anchor.size ≤ sn.leaves.length)
    (proved : verifyConsistency S anchor.size (root S (sn.leaves.take anchor.size)) c.head.size
      c.head.root c.proof = .ok ()) : verifyExtends S anchor current c = .ok := by
  have size : sn.leaves.length = current.size := of.1.symm.trans same
  have oldRoot : anchor.root = root S (sn.leaves.take anchor.size) := by
    obtain ⟨rest, rfl⟩ := held
    rw [anchored.root, List.take_append_of_le_length within]
  have newRoot : current.root = c.head.root := by
    change (seenOf current).root = _
    rw [now.root, of.2]
    change root S (leaves.take current.size) = _
    rw [← size, ← List.prefix_iff_eq_take.1 held]
  refine if_neg (not_not.2 ?_)
  rw [oldRoot, newRoot, ← same]
  exact proved

namespace World

variable {s t : World S Key}

theorem Inv.resume (correct : E.Correct) (pin : ∀ k, pinned = some k → k = E.verifyingKey key)
    (h : s.Inv E key) (at_ : s.checks[k]? = some c) (oneTree : s.oneTree (.resume k process))
    (hs : s.resume E pinned k process c = some t) : t.Inv E key := by
  have sound := h.checks c (List.mem_of_getElem? at_)
  rw [World.resume.eq_def] at hs
  cases sound with
  | resolving at_r asked tells =>
    dsimp only at hs
    split at hs
    · rename_i answered
      cases hs
      obtain ⟨r, used, at_r', phase⟩ := answer_eq_some answered
      cases at_r.symm.trans at_r'
      exact h.setCheck (.resolved (tells _ (by rw [phase]; rfl)))
    · cases hs
      exact h.setCheck .deferred
    · cases hs
  | resolved current => cases hs
  | @proving account identityKey seen j r current anchored at_r asked tells fresh =>
    dsimp only at hs
    split at hs
    · rename_i p answered
      obtain ⟨r, used, at_r', phase⟩ := answer_eq_some answered
      cases at_r.symm.trans at_r'
      have hr := List.mem_of_getElem? at_r
      obtain ⟨asked', signed, included⟩ := h.server.inclusion correct hr phase
      cases asked.symm.trans asked'
      have sameKey : p.identityKey = identityKey := tells _ (by rw [phase]; rfl)
      have pos : 0 < p.head.size := by
        by_contra none_
        rw [verifyInclusion, if_pos (Nat.le_trans (Nat.not_lt.1 none_) (Nat.zero_le _))] at included
        cases included
      have anchors := h.headAnchors hr phase rfl pos
      have grown : ∀ a, seen = some a → a.size ≤ p.head.size :=
        fun a ha => h.size_le_of_atLeast hr phase rfl (fresh a ha)
      have accepted : verifyEntry S E pinned p.account identityKey seen p = .ok := by
        rw [verifyEntry, acceptHead_eq_ok signed (fun k hk => (pin k hk).trans anchors.key.symm)
          fun a ha => ⟨(anchored a ha).key.trans anchors.key.symm, grown a ha⟩]
        dsimp only
        rw [← sameKey, if_neg (not_not.2 included), if_neg (not_not.2 rfl)]
      rw [accepted] at hs
      dsimp only at hs
      split at hs
      · cases hs
        exact h.extend (anchored _ rfl) anchors (grown _ rfl)
      · cases hs
        refine h.accept fun a ha => ?_
        cases ha
        exact anchors
    · cases hs
      exact h.setCheck .deferred
    · cases hs
  | heading anchored at_r asked fresh =>
    dsimp only at hs
    split at hs
    · rename_i current answered
      cases hs
      obtain ⟨r, used, at_r', phase⟩ := answer_eq_some answered
      cases at_r.symm.trans at_r'
      have hr := List.mem_of_getElem? at_r
      have grown := h.size_le_of_atLeast hr phase rfl fresh
      have anchors := h.headAnchors hr phase rfl (Nat.lt_of_lt_of_le anchored.pos grown)
      refine h.extend ?_ anchors grown
      rw [show current.logKey = E.verifyingKey key from anchors.key]
      exact anchored
    · cases hs
      exact h.setCheck .deferred
    · cases hs
  | extending anchored current le at_r asked =>
    dsimp only at hs
    split at hs
    · rename_i c answered
      rw [World.oneTree, at_] at oneTree
      dsimp only at oneTree
      rw [answered] at oneTree
      obtain ⟨r, used, at_r', phase⟩ := answer_eq_some answered
      cases at_r.symm.trans at_r'
      obtain ⟨fromSize, asked', -, sn, -, of, held, within, proved⟩ :=
        h.server.consistency correct (List.mem_of_getElem? at_r) phase
      cases asked.symm.trans asked'
      rw [verifyExtends_eq_ok anchored current of held (of_decide_eq_true oneTree) within proved]
        at hs
      cases hs
      refine h.accept fun a ha => ?_
      split at ha
      · cases ha
        exact current
      · cases ha
    · cases hs
      exact h.setCheck .deferred
    · cases hs
  | deferred | accepted => cases hs

theorem Inv.step (correct : E.Correct) (pin : ∀ k, pinned = some k → k = E.verifyingKey key)
    (h : s.Inv E key) (others : s.othersOnly a) (oneTree : s.oneTree a)
    (hs : s.step E pinned a = some t) : t.Inv E key := by
  cases a with
  | server action =>
    obtain ⟨server, next, rfl⟩ := Option.map_eq_some_iff.1 hs
    exact h.server_step next others
  | resolve account process =>
    cases hs
    exact (h.send process (.devices account)).addCheck
      (.resolving (sent ..) rfl (fun k hk => by cases hk))
  | check k seen process =>
    dsimp only [World.step] at hs
    split at hs
    · rename_i at_
      split at hs
      · rename_i accepted
        cases hs
        cases h.checks _ (List.mem_of_getElem? at_) with
        | resolved current =>
          refine (h.send process _).setCheck (.proving current (fun a ha => ?_) (sent ..) rfl
            (fun k hk => by cases hk) fun a _ => atLeast_received)
          subst ha
          exact h.accepted a (of_decide_eq_true accepted)
      · cases hs
    · cases hs
  | gossip peer process =>
    dsimp only [World.step] at hs
    split at hs
    · rename_i accepted
      cases hs
      have anchored := h.accepted peer accepted
      exact (h.send process .head).addCheck (.heading ⟨anchored.pos, anchored.le, anchored.root, rfl⟩
        (sent ..) rfl atLeast_received)
    · cases hs
  | resume k process =>
    obtain ⟨c, at_, hc⟩ := Option.bind_eq_some_iff.1 hs
    exact h.resume correct pin at_ oneTree hc
  | drop k =>
    dsimp only [World.step] at hs
    split at hs
    · cases hs
    · cases hs
    · cases hs
      exact h.setCheck .deferred

end World

/-- An idle server with a key, where every account's key is its latest entry, and clients that hold
heads the log has had. -/
structure World.Initial (E : Ed25519 Key) (key : Key) (s : World S Key) : Prop where
  server : s.server.Initial
  signing : s.server.db.signingKey = some key
  accounts : ∀ account k, s.server.db.identityKey account = some k →
    (s.server.db.latest account).map Prod.snd = some k
  accepted : ∀ a ∈ s.accepted, a.Anchors S (E.verifyingKey key) s.server.db.leaves
  checks : s.checks = []

omit [DecidableEq Hash] in
theorem World.Initial.inv {s : World S Key} (h : s.Initial E key) : s.Inv E key where
  server := h.server.inv
  signing := h.signing
  readers := by
    rw [h.server.readers]
    exact fun _ hr => absurd hr List.not_mem_nil
  accounts := h.accounts
  accepted := h.accepted
  checks := by
    rw [h.checks]
    exact fun _ hc => absurd hc List.not_mem_nil

/-- In every run of an honest server in which each consistency proof is about a tree of the size of
the head it is verified against, no check refuses, whatever else is appended in the meantime. -/
theorem never_refused {s t : World S Key} (correct : E.Correct)
    (pin : ∀ k, pinned = some k → k = E.verifyingKey key) (start : s.Initial E key)
    (run : Reach (World.step E pinned) (fun s a => s.othersOnly a ∧ s.oneTree a) s t) :
    ∀ c ∈ t.checks, ∀ reason, c ≠ .ended (some (.refused reason)) := by
  have inv : t.Inv E key :=
    run.invariant start.inv fun h guard hs => h.step correct pin guard.1 guard.2 hs
  rintro c hc reason rfl
  cases inv.checks _ hc

end

/-! ## An account looked up twice -/

/-- A server that has just started, and a client that has seen nothing. -/
def newClient : World byteDigest UInt8 where
  server := { emptyLog with db := ⟨some 7, [], fun _ => none⟩ }
  accepted := []
  checks := []

theorem newClient_initial : newClient.Initial plainEd25519 7 where
  server := ⟨emptyLog_initial.ordered, rfl, fun _ => rfl, rfl⟩
  signing := rfl
  accounts _ _ hk := by cases hk
  accepted := fun _ ha => absurd ha List.not_mem_nil
  checks := rfl

/-- The head of a log with the first account alone. -/
def firstHead : SeenHead UInt8 :=
  ⟨1, leafHash byteDigest (entry "alice" [1]), plainEd25519.verifyingKey 7⟩

/-- A transaction of an account's creation. -/
def creation (account : String) (identityKey : Bytes) (i : Nat) : List (Action UInt8 UInt8) :=
  .server (.begin true [⟨account, identityKey, none⟩]) ::
    List.replicate 3 (.server (.write i))

/-- A request goes on for a number of statements. -/
def goOn (request steps : Nat) : List (Action UInt8 UInt8) :=
  List.replicate steps (.server (.advance request 100))

/-- The first account is created, looked up, and found in the log. -/
def firstLookup : List (Action UInt8 UInt8) := List.flatten [
  creation "alice" [1] 0, [.resolve "alice" 0], goOn 0 1, [.resume 0 0, .check 0 none 0],
  goOn 1 7, [.resume 0 0]]

/-- The second is created, and the first then looked up again. -/
def secondLookup : List (Action UInt8 UInt8) := List.flatten [
  firstLookup, creation "bob" [2] 1, [.resolve "alice" 0], goOn 2 1,
  [.resume 1 0, .check 1 (some firstHead) 0], goOn 3 7, [.resume 1 0], goOn 4 4, [.resume 1 0]]

theorem never_refused_secondLookup : ∃ t,
    Reach (World.step plainEd25519 none) (fun s a => s.othersOnly a ∧ s.oneTree a) newClient t ∧
    t.checks = [.ended (some .ok), .ended (some .ok)] ∧ t.accepted.map (·.size) = [1, 2] ∧
    ∀ c ∈ t.checks, ∀ reason, c ≠ .ended (some (.refused reason)) := by
  have checked : (Transition.run (fun s a => if s.othersOnly a ∧ s.oneTree a then
      World.step plainEd25519 none s a else none) newClient secondLookup).map
      (fun t => (t.checks, t.accepted.map (·.size))) =
      some ([.ended (some .ok), .ended (some .ok)], [1, 2]) := by decide +kernel
  obtain ⟨t, ran, ended⟩ := Option.map_eq_some_iff.1 checked
  have reached : Reach (World.step plainEd25519 none) (fun s a => s.othersOnly a ∧ s.oneTree a)
      newClient t := reach_of_run_guarded ran
  exact ⟨t, reached, (Prod.mk.inj ended).1, (Prod.mk.inj ended).2,
    never_refused plainEd25519_correct (fun _ hk => by cases hk) newClient_initial reached⟩

/-- The second account is created between the head of the second look-up and the proof that it
extends the first. -/
def createdBetween : List (Action UInt8 UInt8) := List.flatten [
  firstLookup, [.resolve "alice" 0], goOn 2 1, [.resume 1 0, .check 1 (some firstHead) 0],
  goOn 3 5, [.resume 1 0], creation "bob" [2] 1, goOn 4 6, [.resume 1 0]]

/-- The log has grown by one account, and the server stands accused. -/
theorem append_between_accuses : newClient.Initial plainEd25519 7 ∧ ∃ t,
    Reach (World.step plainEd25519 none) (fun s a => s.othersOnly a) newClient t ∧
    t.checks = [.ended (some .ok), .ended (some (.refused
      "the log does not extend the reference view: keys have been rewritten."))] := by
  have checked : (Transition.run (fun s a => if s.othersOnly a then
      World.step plainEd25519 none s a else none) newClient createdBetween).map (·.checks) =
      some [.ended (some .ok), .ended (some (.refused
        "the log does not extend the reference view: keys have been rewritten."))] := by
    decide +kernel
  obtain ⟨t, ran, ended⟩ := Option.map_eq_some_iff.1 checked
  have reached : Reach (World.step plainEd25519 none) (fun s a => s.othersOnly a) newClient t :=
    reach_of_run_guarded ran
  exact ⟨newClient_initial, t, reached, ended⟩

end Whispee.Transparency.Client
