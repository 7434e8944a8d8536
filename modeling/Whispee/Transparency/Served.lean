import Whispee.Transparency.Service

/-!
# What the served log guarantees

Numbers are drawn under the append lock, so the table grows at its end, and every tree a request
works with is a beginning of the table: as it was read, or as the cache held it under the same
fingerprint. The proofs, the key and the head of an answer are then about one tree, although they
come from several queries.
-/

namespace Whispee.Transparency.Service

open Server (ApiError)
open Transition

variable {S : Sha256 Hash} {E : Ed25519 Key} {db : Database Hash Key} {rows : List (Row Hash)}
  {s t : State S Key}

/-! ## The table in the order of its numbers -/

/-- Rows in the order of their numbers, which the next one exceeds, each with its leaf. -/
structure Ordered (S : Sha256 Hash) (rows : List (Row Hash)) (nextSeq : Nat) : Prop where
  ordered : (rows.map (·.seq)).Pairwise (· < ·)
  below : ∀ row ∈ rows, row.seq < nextSeq
  hashed : ∀ row ∈ rows, row.leaf = leafHash S (entry row.account row.identityKey)

namespace Ordered

theorem mono (h : Ordered S rows n) (hle : n ≤ m) : Ordered S rows m :=
  { h with below := fun row hrow => Nat.lt_of_lt_of_le (h.below row hrow) hle }

theorem of_append (h : Ordered S (rows ++ drawn) n) : Ordered S rows n where
  ordered := by
    have ordered := h.ordered
    rw [List.map_append] at ordered
    exact (List.pairwise_append.1 ordered).1
  below row hrow := h.below row (List.mem_append_left _ hrow)
  hashed row hrow := h.hashed row (List.mem_append_left _ hrow)

theorem concat (h : Ordered S rows n) (a : Addition) : Ordered S (rows ++ [a.row S n]) (n + 1) where
  ordered := by
    rw [List.map_append, List.pairwise_append]
    refine ⟨h.ordered, List.pairwise_singleton .., fun x hx y hy => ?_⟩
    obtain ⟨row, hrow, rfl⟩ := List.mem_map.1 hx
    cases List.mem_singleton.1 hy
    exact h.below row hrow
  below := Tasks.forall_mem_concat (fun row hrow => Nat.lt_succ_of_lt (h.below row hrow))
    (Nat.lt_succ_self n)
  hashed := Tasks.forall_mem_concat h.hashed rfl

theorem inOrder_eq (h : Ordered S db.logEntries n) : db.inOrder = db.logEntries := by
  refine List.Pairwise.insertionSort_eq ?_
  have ordered := h.ordered
  rw [List.pairwise_map] at ordered
  exact ordered.imp Nat.le_of_lt

theorem leaves_eq (h : Ordered S db.logEntries n) : db.leaves = db.logEntries.map (·.leaf) := by
  rw [Database.leaves, h.inOrder_eq]

/-- Counting the smaller numbers finds the position of a row. -/
theorem countP_eq (h : Ordered S rows n) (at_ : rows[i]? = some row) :
    rows.countP (·.seq < row.seq) = i := by
  obtain ⟨hi, rfl⟩ := List.getElem?_eq_some_iff.1 at_
  have ordered := h.ordered
  rw [List.pairwise_map] at ordered
  rw [← List.take_append_drop i rows, List.pairwise_append] at ordered
  obtain ⟨-, above, across⟩ := ordered
  rw [List.drop_eq_getElem_cons hi] at above across
  have before : (rows.take i).countP (·.seq < rows[i].seq) = i := by
    rw [List.countP_eq_length.2 fun row hrow => ?_, List.length_take_of_le (Nat.le_of_lt hi)]
    exact decide_eq_true (across row hrow _ List.mem_cons_self)
  have after : (rows.drop i).countP (·.seq < rows[i].seq) = 0 := by
    rw [List.drop_eq_getElem_cons hi, List.countP_eq_zero]
    intro row hrow
    rw [decide_eq_true_eq, Nat.not_lt]
    rcases List.mem_cons.1 hrow with rfl | hrow
    · exact Nat.le_refl _
    · exact Nat.le_of_lt ((List.pairwise_cons.1 above).1 row hrow)
  have whole := congrArg (List.countP (·.seq < rows[i].seq)) (List.take_append_drop i rows)
  rw [← whole, List.countP_append, before, after]
  rfl

theorem latest_eq_some (h : Ordered S db.logEntries n)
    (found : db.latest account = some (seq, key)) :
    ∃ row ∈ db.logEntries, row.account = account ∧ row.seq = seq ∧ row.identityKey = key := by
  rw [Database.latest, h.inOrder_eq] at found
  obtain ⟨row, last, same⟩ := Option.map_eq_some_iff.1 found
  have hrow := List.mem_filter.1 (List.mem_of_getLast? last)
  cases same
  exact ⟨row, hrow.1, of_decide_eq_true hrow.2, rfl, rfl⟩

end Ordered

/-! ## What a request holds -/

/-- The head signs the tree. -/
def SignedHead.Of (E : Ed25519 Key) (head : SignedHead Hash) (sn : Snapshot S) : Prop :=
  ∃ key now, head = signedHead S E sn key now

/-- The answer is computed from the tree the request has used. -/
def Answer.Of (E : Ed25519 Key) (ask : Ask) (used : Option (Snapshot S)) : Answer Hash → Prop
  | .devices _ => used = none
  | .head h => ∃ sn, used = some sn ∧ h.Of E sn
  | .proof p => ∃ sn, used = some sn ∧ p.head.Of E sn ∧ ask = .proof p.account ∧
    sn.leaves[p.index]? = some (leafHash S (entry p.account p.identityKey)) ∧
    inclusionProof S sn.leaves p.index = .ok p.proof
  | .consistency c => ∃ sn fromSize, used = some sn ∧ c.head.Of E sn ∧
    ask = .consistency fromSize ∧ consistencyProof S sn.leaves fromSize = .ok c.proof

namespace Phase

variable {phase : Phase S Key}

/-- The tree a request holds, or has used. -/
def tree : Phase S Key → Option (Snapshot S)
  | .received | .keyed _ | .probed .. | .missed _ => none
  | .rebuilt _ sn | .signed _ sn | .found _ sn .. => some sn
  | .answered used _ => used

def underway : Phase S Key → Bool
  | .answered .. => false
  | _ => true

/-- What a request remembers is true of the tables. -/
inductive Sound (E : Ed25519 Key) (db : Database Hash Key) (ask : Ask) : Phase S Key → Prop where
  | received : Sound E db ask .received
  | keyed : Sound E db ask (.keyed key)
  | probed : Sound E db ask (.probed key current)
  | missed : Sound E db ask (.missed key)
  | rebuilt (held : fresh.leaves <+: db.leaves) : Sound E db ask (.rebuilt key fresh)
  | signed (held : sn.leaves <+: db.leaves) (of : head.Of E sn) :
    Sound E db ask (.signed head sn)
  | found (held : sn.leaves <+: db.leaves) (of : head.Of E sn)
    (logged : row ∈ db.logEntries) (asked : ask = .proof row.account) :
    Sound E db ask (.found head sn row.seq row.identityKey)
  | refused (held : ∀ sn, used = some sn → sn.leaves <+: db.leaves) :
    Sound E db ask (.answered used (.error error))
  | answered (held : ∀ sn, used = some sn → sn.leaves <+: db.leaves)
    (of : answer.Of E ask used) : Sound E db ask (.answered used (.ok answer))

namespace Sound

theorem held (h : phase.Sound E db ask) (hs : phase.tree = some sn) :
    sn.leaves <+: db.leaves := by
  cases h with
  | received | keyed | probed | missed => cases hs
  | rebuilt held =>
    cases hs
    exact held
  | signed held of =>
    cases hs
    exact held
  | found held of logged asked =>
    cases hs
    exact held
  | refused held => exact held _ hs
  | answered held of => exact held _ hs

theorem mono {db' : Database Hash Key} (h : phase.Sound E db ask)
    (leaves : db.leaves <+: db'.leaves) (rows : db.logEntries <+: db'.logEntries) :
    phase.Sound E db' ask := by
  cases h with
  | received => exact .received
  | keyed => exact .keyed
  | probed => exact .probed
  | missed => exact .missed
  | rebuilt held => exact .rebuilt (held.trans leaves)
  | signed held of => exact .signed (held.trans leaves) of
  | found held of logged asked => exact .found (held.trans leaves) of (rows.subset logged) asked
  | refused held => exact .refused fun sn hs => (held sn hs).trans leaves
  | answered held of => exact .answered (fun sn hs => (held sn hs).trans leaves) of

end Sound

end Phase

/-! ## What a step does to a request -/

/-- The next statement of a request, by what it finds. -/
inductive Reader.Moves (E : Ed25519 Key) (r : Reader S Key) (db : Database Hash Key)
    (cached : Option (Snapshot S)) (now : Nat) : Phase S Key → Option (Snapshot S) → Prop where
  | devices (asked : r.ask = .devices account) (found : db.identityKey account = some key) :
    Moves E r db cached now (.answered none (.ok (.devices key))) cached
  | refused (error : ApiError) :
    Moves E r db cached now (.answered r.phase.tree (.error error)) cached
  | keyed (found : db.signingKey = some key) : Moves E r db cached now (.keyed key) cached
  | probed (at_ : r.phase = .keyed key) :
    Moves E r db cached now (.probed key db.fingerprint) cached
  | hit (at_ : r.phase = .probed key sn.fingerprint) (held : cached = some sn) :
    Moves E r db cached now (.signed (signedHead S E sn key now) sn) cached
  | missed (at_ : r.phase = .probed key current) : Moves E r db cached now (.missed key) cached
  | rebuilt (at_ : r.phase = .missed key) :
    Moves E r db cached now (.rebuilt key (db.rebuild S)) cached
  | stored (at_ : r.phase = .rebuilt key fresh) :
    Moves E r db cached now (.signed (signedHead S E fresh key now) fresh) (some fresh)
  | head (at_ : r.phase = .signed head sn) :
    Moves E r db cached now (.answered (some sn) (.ok (.head head))) cached
  | consistency (at_ : r.phase = .signed head sn) (asked : r.ask = .consistency fromSize)
    (proved : consistencyProof S sn.leaves fromSize = .ok proof) :
    Moves E r db cached now (.answered (some sn) (.ok (.consistency ⟨proof, head⟩))) cached
  | found (at_ : r.phase = .signed head sn) (asked : r.ask = .proof account)
    (latest : db.latest account = some (seq, identityKey)) :
    Moves E r db cached now (.found head sn seq identityKey) cached
  | proof (at_ : r.phase = .found head sn seq identityKey) (asked : r.ask = .proof account)
    (proved : inclusionProof S sn.leaves (db.indexOf seq) = .ok proof) :
    Moves E r db cached now (.answered (some sn)
      (.ok (.proof ⟨account, identityKey, db.indexOf seq, proof, head⟩))) cached

theorem Reader.moves_of_next {r : Reader S Key}
    (h : r.next E db cached now = some (new, cached')) :
    r.phase.underway ∧ r.Moves E db cached now new cached' := by
  rw [next] at h
  cases hphase : r.phase with
  | received =>
    have nothing : r.phase.tree = none := by rw [hphase]; rfl
    rw [hphase] at h
    refine ⟨rfl, ?_⟩
    dsimp only at h
    split at h
    · split at h
      · cases h
        exact .devices ‹_› ‹_›
      · cases h
        exact nothing ▸ .refused _
    · split at h
      · cases h
        exact .keyed ‹_›
      · cases h
        exact nothing ▸ .refused _
  | keyed key =>
    rw [hphase] at h
    cases h
    exact ⟨rfl, .probed hphase⟩
  | probed key current =>
    rw [hphase] at h
    refine ⟨rfl, ?_⟩
    dsimp only at h
    split at h
    · split at h
      · cases h
        subst current
        exact .hit hphase rfl
      · cases h
        exact .missed hphase
    · cases h
      exact .missed hphase
  | missed key =>
    rw [hphase] at h
    cases h
    exact ⟨rfl, .rebuilt hphase⟩
  | rebuilt key fresh =>
    rw [hphase] at h
    cases h
    exact ⟨rfl, .stored hphase⟩
  | signed head sn =>
    have holds : r.phase.tree = some sn := by rw [hphase]; rfl
    rw [hphase] at h
    refine ⟨rfl, ?_⟩
    dsimp only at h
    split at h
    · cases h
    · cases h
      exact .head hphase
    · cases h
      rw [logConsistency]
      split
      · exact .consistency hphase ‹_› ‹_›
      · exact holds ▸ .refused _
    · split at h
      · cases h
        exact .found hphase ‹_› ‹_›
      · cases h
        exact holds ▸ .refused _
  | found head sn seq identityKey =>
    have holds : r.phase.tree = some sn := by rw [hphase]; rfl
    rw [hphase] at h
    refine ⟨rfl, ?_⟩
    dsimp only at h
    split at h
    · cases h
      rw [logProof]
      split
      · exact .proof hphase ‹_› ‹_›
      · exact holds ▸ .refused _
    · cases h
  | answered used answer =>
    rw [hphase] at h
    cases h

theorem lt_of_inclusionProof {leaves : List Hash} (h : inclusionProof S leaves index = .ok proof) :
    index < leaves.length := by
  rw [inclusionProof] at h
  split at h
  · cases h
  · exact Nat.not_le.1 ‹_›

/-- What a request remembers stays true, and so does what it leaves in the cache. -/
theorem Reader.Moves.sound {r : Reader S Key} (m : r.Moves E db cached now new cached')
    (ordered : Ordered S db.logEntries n) (sound : r.phase.Sound E db r.ask)
    (cache : ∀ sn, cached = some sn → sn.leaves <+: db.leaves) :
    new.Sound E db r.ask ∧ ∀ sn, cached' = some sn → sn.leaves <+: db.leaves := by
  cases m with
  | devices asked found => exact ⟨.answered (fun sn hs => by cases hs) rfl, cache⟩
  | refused error => exact ⟨.refused fun sn hs => sound.held hs, cache⟩
  | keyed found => exact ⟨.keyed, cache⟩
  | probed at_ => exact ⟨.probed, cache⟩
  | hit at_ held => exact ⟨.signed (cache _ held) ⟨_, _, rfl⟩, cache⟩
  | missed at_ => exact ⟨.missed, cache⟩
  | rebuilt at_ => exact ⟨.rebuilt (List.prefix_refl _), cache⟩
  | stored at_ =>
    rw [at_] at sound
    cases sound with
    | rebuilt held =>
      refine ⟨.signed held ⟨_, _, rfl⟩, fun sn hs => ?_⟩
      cases hs
      exact held
  | head at_ =>
    rw [at_] at sound
    cases sound with
    | signed held of =>
      refine ⟨.answered (fun sn hs => ?_) ⟨_, rfl, of⟩, cache⟩
      cases hs
      exact held
  | consistency at_ asked proved =>
    rw [at_] at sound
    cases sound with
    | signed held of =>
      refine ⟨.answered (fun sn hs => ?_) ⟨_, _, rfl, of, asked, proved⟩, cache⟩
      cases hs
      exact held
  | found at_ asked latest =>
    rw [at_] at sound
    cases sound with
    | signed held of =>
      obtain ⟨row, logged, rfl, rfl, rfl⟩ := ordered.latest_eq_some latest
      exact ⟨.found held of logged asked, cache⟩
  | proof at_ asked proved =>
    rw [at_] at sound
    cases sound with
    | found held of logged asked' =>
      rename_i row
      obtain ⟨i, at_i⟩ := List.getElem?_of_mem logged
      have index : db.indexOf row.seq = i := ordered.countP_eq at_i
      rw [index] at proved ⊢
      have inside := lt_of_inclusionProof proved
      have leaf : db.leaves[i]? = some (leafHash S (entry row.account row.identityKey)) := by
        rw [ordered.leaves_eq, List.getElem?_map, at_i, Option.map_some, ordered.hashed row logged]
      cases asked.symm.trans asked'
      refine ⟨.answered (fun sn hs => ?_) ⟨_, rfl, of, asked, ?_, proved⟩, cache⟩
      · cases hs
        exact held
      · rw [← leaf, List.getElem?_eq_getElem inside, held.getElem inside]
        exact (List.getElem?_eq_getElem _).symm

/-! ## What a step does to the tables -/

namespace Writer

variable {w : Writer Hash}

/-- What a transaction has drawn comes after the table, and only under the lock. -/
structure Sound (S : Sha256 Hash) (rows : List (Row Hash)) (nextSeq : Nat) (w : Writer Hash) :
    Prop where
  ordered : Ordered S (rows ++ w.drawn) nextSeq
  locked : w.drawn ≠ [] → w.locked

theorem Sound.drawn_eq (h : w.Sound S rows n) (free : ¬ w.locked) : w.drawn = [] :=
  not_not.1 fun drawn => free (h.locked drawn)

theorem Sound.of_drawn_eq (ordered : Ordered S rows n) (none_ : w.drawn = []) : w.Sound S rows n where
  ordered := by
    rw [none_, List.append_nil]
    exact ordered
  locked drawn := absurd none_ drawn

end Writer

/-- What a step does. -/
inductive State.Change (E : Ed25519 Key) (s : State S Key) (a : Action Key) :
    State S Key → Prop where
  | started {signingKey : Option Key} (process : Nat)
    (kept : ∀ key, s.db.signingKey = some key → signingKey = some key) :
    Change E s a { s with
      db := { s.db with signingKey }
      cached := fun other => if other = process then none else s.cached other }
  | begun (publishes : Bool) (additions : List Addition) :
    Change E s a { s with writers := s.writers ++ [⟨publishes, additions, false, [], false⟩] }
  | writing {i n : Nat} (at_ : s.writers[i]? = some w) (next : s.nextSeq ≤ n)
    (sound : Ordered S s.db.logEntries s.nextSeq → w.Sound S s.db.logEntries s.nextSeq →
      w'.Sound S s.db.logEntries n)
    (lock : w'.locked → w.locked ∨ ∀ o ∈ s.writers, ¬ o.locked) :
    Change E s a { s.setWriter i w' with nextSeq := n }
  | committed {i : Nat} (act : a = .write i) (at_ : s.writers[i]? = some w) (todo : w.todo = []) :
    Change E s a { s.setWriter i w.finish with db := s.db.commit w }
  | received (process : Nat) (ask : Ask) :
    Change E s a { s with readers := s.readers ++ [⟨process, ask, .received⟩] }
  | advanced {i now : Nat} (at_ : s.readers[i]? = some r) (underway : r.phase.underway = true)
    (moves : r.Moves E s.db (s.cached r.process) now phase held) :
    Change E s a (s.setReader i r phase held)
  | lost {i : Nat} (at_ : s.readers[i]? = some r) (underway : r.phase.underway = true) :
    Change E s a (s.setReader i r (.answered none (.error .database)) (s.cached r.process))

theorem State.change_of_write {i : Nat} (at_ : s.writers[i]? = some w)
    (hs : s.write i w = some t) : s.Change E (.write i) t := by
  rw [State.write] at hs
  split at hs
  · cases hs
  split at hs
  · split at hs
    · cases hs
      refine .writing at_ (Nat.le_succ _) (fun _ sound => ⟨?_, fun _ => ‹_›⟩) fun _ => .inl ‹_›
      dsimp only
      rw [← List.append_assoc]
      exact sound.ordered.concat _
    · split at hs
      · rename_i free
        cases hs
        refine .writing at_ (Nat.le_refl _) (fun _ sound => ⟨sound.ordered, fun _ => rfl⟩)
          fun _ => .inr fun o ho => ?_
        simpa using List.all_eq_true.1 free o ho
      · cases hs
  · cases hs
    exact .committed rfl at_ ‹_›

theorem State.change_of_step (hs : s.step E a = some t) : s.Change E a t := by
  cases a with
  | start process fresh =>
    cases hs
    refine .started process fun key signing => ?_
    rw [signing]
    rfl
  | begin publishes additions =>
    cases hs
    exact .begun _ _
  | write index =>
    obtain ⟨w, at_, hw⟩ := Option.bind_eq_some_iff.1 hs
    exact change_of_write at_ hw
  | rollback index =>
    obtain ⟨w, at_, hw⟩ := Option.bind_eq_some_iff.1 hs
    split at hw
    · cases hw
    · cases hw
      exact .writing at_ (Nat.le_refl _) (fun ordered _ => .of_drawn_eq ordered rfl)
        fun held => by cases held
  | receive process ask =>
    cases hs
    exact .received _ _
  | advance index now =>
    obtain ⟨r, at_, hr⟩ := Option.bind_eq_some_iff.1 hs
    obtain ⟨⟨phase, held⟩, next, rfl⟩ := Option.map_eq_some_iff.1 hr
    obtain ⟨underway, moves⟩ := Reader.moves_of_next next
    exact .advanced at_ underway moves
  | fail index =>
    obtain ⟨r, at_, hr⟩ := Option.bind_eq_some_iff.1 hs
    split at hr
    · cases hr
    · rename_i ended
      cases hr
      refine .lost at_ ?_
      cases hphase : r.phase with
      | answered used answer => exact absurd hphase (ended _ _)
      | _ => rfl

/-- The lock, the numbers, and what everybody holds. -/
structure State.Inv (E : Ed25519 Key) (s : State S Key) : Prop where
  ordered : Ordered S s.db.logEntries s.nextSeq
  lock : Tasks.Exclusive (fun w => w.locked = true) s.writers
  writers : ∀ w ∈ s.writers, w.Sound S s.db.logEntries s.nextSeq
  cached : ∀ process sn, s.cached process = some sn → sn.leaves <+: s.db.leaves
  readers : ∀ r ∈ s.readers, r.phase.Sound E s.db r.ask

namespace State

/-- An idle server, on a table the log has written. -/
structure Initial (s : State S Key) : Prop where
  ordered : Ordered S s.db.logEntries s.nextSeq
  writers : s.writers = []
  cached : ∀ process, s.cached process = none
  readers : s.readers = []

theorem Initial.inv (h : s.Initial) : s.Inv E where
  ordered := h.ordered
  lock := Tasks.Exclusive.of_none (by rw [h.writers]; exact fun _ hw => absurd hw List.not_mem_nil)
  writers := by
    rw [h.writers]
    exact fun _ hw => absurd hw List.not_mem_nil
  cached process sn hs := by
    rw [h.cached] at hs
    cases hs
  readers := by
    rw [h.readers]
    exact fun _ hr => absurd hr List.not_mem_nil

namespace Inv

variable {w : Writer Hash} {i : Nat}

/-- A transaction goes on, or ends without a trace. -/
theorem setWriter (h : s.Inv E) (at_ : s.writers[i]? = some w) (next : s.nextSeq ≤ n)
    (sound : w'.Sound S s.db.logEntries n)
    (lock : w'.locked → w.locked ∨ ∀ o ∈ s.writers, ¬ o.locked) :
    ({ s.setWriter i w' with nextSeq := n } : State S Key).Inv E where
  ordered := h.ordered.mono next
  lock := h.lock.set at_ lock
  writers := Tasks.forall_mem_set (fun o ho =>
    { h.writers o ho with ordered := (h.writers o ho).ordered.mono next }) sound
  cached := h.cached
  readers := h.readers

/-- A transaction commits: it held the lock, so that nobody else has drawn a number. -/
theorem commit (h : s.Inv E) (at_ : s.writers[i]? = some w) :
    ({ s.setWriter i w.finish with db := s.db.commit w } : State S Key).Inv E := by
  have sound := h.writers w (List.mem_of_getElem? at_)
  have rows : s.db.logEntries <+: (s.db.commit w).logEntries := List.prefix_append ..
  have ordered : Ordered S (s.db.commit w).logEntries s.nextSeq := sound.ordered
  have leaves : s.db.leaves <+: (s.db.commit w).leaves := by
    rw [h.ordered.leaves_eq, ordered.leaves_eq]
    exact rows.map _
  refine ⟨ordered, h.lock.set at_ (fun held => by cases held), ?_, fun process sn hs =>
    (h.cached process sn hs).trans leaves, fun r hr => (h.readers r hr).mono leaves rows⟩
  intro o ho
  obtain ⟨j, hj⟩ := List.getElem?_of_mem ho
  rcases (Tasks.getElem?_set_eq_some_iff at_).1 hj with ⟨-, rfl⟩ | ⟨other, hj⟩
  · exact .of_drawn_eq ordered rfl
  · have others := h.writers o (List.mem_of_getElem? hj)
    by_cases mine : w.drawn = []
    · have same : (s.db.commit w).logEntries = s.db.logEntries := by
        rw [Database.commit, mine, List.append_nil]
      exact same ▸ others
    · refine .of_drawn_eq ordered (others.drawn_eq fun held => other ?_)
      exact h.lock hj at_ held (sound.locked mine)

theorem setReader {r : Reader S Key} (h : s.Inv E) (sound : phase.Sound E s.db r.ask)
    (cache : ∀ sn, held = some sn → sn.leaves <+: s.db.leaves) :
    (s.setReader i r phase held).Inv E where
  ordered := h.ordered
  lock := h.lock
  writers := h.writers
  cached process sn hs := by
    dsimp only [State.setReader] at hs
    split at hs
    · exact cache sn hs
    · exact h.cached process sn hs
  readers := Tasks.forall_mem_set h.readers sound

theorem step (h : s.Inv E) (hs : s.step E a = some t) : t.Inv E := by
  cases change_of_step hs with
  | started process kept =>
    refine { h with cached := fun other sn hs => ?_, readers := fun r hr => ?_ }
    · dsimp only at hs
      split at hs
      · cases hs
      · exact h.cached other sn hs
    · exact (h.readers r hr).mono (List.prefix_refl _) (List.prefix_refl _)
  | begun publishes additions =>
    exact { h with
      lock := h.lock.concat Bool.false_ne_true
      writers := Tasks.forall_mem_concat h.writers (.of_drawn_eq h.ordered rfl) }
  | writing at_ next sound lock =>
    exact h.setWriter at_ next (sound h.ordered (h.writers _ (List.mem_of_getElem? at_))) lock
  | committed act at_ todo => exact h.commit at_
  | received process ask =>
    exact { h with readers := Tasks.forall_mem_concat h.readers .received }
  | advanced at_ underway moves =>
    obtain ⟨sound, cache⟩ := moves.sound h.ordered (h.readers _ (List.mem_of_getElem? at_))
      (h.cached _)
    exact h.setReader sound cache
  | lost at_ underway => exact h.setReader (.refused fun sn hs => by cases hs) (h.cached _)

end Inv

/-! ## The table grows at its end -/

theorem logEntries_of_step (hs : s.step E a = some t) : s.db.logEntries <+: t.db.logEntries := by
  cases change_of_step hs with
  | committed act at_ todo => exact List.prefix_append ..
  | _ => exact List.prefix_refl _

theorem Inv.leaves_step (h : s.Inv E) (hs : s.step E a = some t) : s.db.leaves <+: t.db.leaves := by
  rw [h.ordered.leaves_eq, (h.step hs).ordered.leaves_eq]
  exact (logEntries_of_step hs).map _

theorem Inv.leaves_reach {guard : State S Key → Action Key → Prop} (h : s.Inv E)
    (run : Reach (State.step E) guard s t) : s.db.leaves <+: t.db.leaves := by
  induction run with
  | refl => exact List.prefix_refl _
  | tail before _ hs ih =>
    have inv : State.Inv E _ := before.invariant h fun h _ hs => h.step hs
    exact ih.trans (inv.leaves_step hs)

/-- A request in a step: it stays, it is lost, or it moves on. -/
theorem reader_in_step {r : Reader S Key} {i : Nat} (hs : s.step E a = some t)
    (at_ : s.readers[i]? = some r) : ∃ r', t.readers[i]? = some r' ∧ r'.ask = r.ask ∧
      (r'.phase = r.phase ∨ r'.phase = .answered none (.error .database) ∨
        ∃ now held, r.Moves E s.db (s.cached r.process) now r'.phase held) := by
  cases change_of_step hs with
  | started | begun | writing | committed => exact ⟨r, at_, rfl, .inl rfl⟩
  | received process ask =>
    exact ⟨r, Tasks.getElem?_concat_eq_some_iff.2 (.inl at_), rfl, .inl rfl⟩
  | @advanced r₀ phase held j now at_r underway moves =>
    by_cases same : i = j
    · subst same
      cases at_.symm.trans at_r
      exact ⟨_, (Tasks.getElem?_set_eq_some_iff at_r).2 (.inl ⟨rfl, rfl⟩), rfl,
        .inr (.inr ⟨now, held, moves⟩)⟩
    · exact ⟨r, (Tasks.getElem?_set_eq_some_iff at_r).2 (.inr ⟨same, at_⟩), rfl, .inl rfl⟩
  | @lost r₀ j at_r underway =>
    by_cases same : i = j
    · subst same
      cases at_.symm.trans at_r
      exact ⟨_, (Tasks.getElem?_set_eq_some_iff at_r).2 (.inl ⟨rfl, rfl⟩), rfl, .inr (.inl rfl)⟩
    · exact ⟨r, (Tasks.getElem?_set_eq_some_iff at_r).2 (.inr ⟨same, at_⟩), rfl, .inl rfl⟩

/-- A request after a step: it is as before, it has just come in, or it has moved on. -/
theorem reader_of_step {r' : Reader S Key} {i : Nat} (hs : s.step E a = some t)
    (at_ : t.readers[i]? = some r') :
    s.readers[i]? = some r' ∨ r'.phase = .received ∨
      ∃ r, s.readers[i]? = some r ∧ r.phase.underway = true ∧ r'.ask = r.ask ∧
        (r'.phase = .answered none (.error .database) ∨
          ∃ now held, r.Moves E s.db (s.cached r.process) now r'.phase held) := by
  cases change_of_step hs with
  | started | begun | writing | committed => exact .inl at_
  | received process ask =>
    rcases Tasks.getElem?_concat_eq_some_iff.1 at_ with at_ | ⟨_, rfl⟩
    · exact .inl at_
    · exact .inr (.inl rfl)
  | advanced at_r underway moves =>
    rcases (Tasks.getElem?_set_eq_some_iff at_r).1 at_ with ⟨rfl, rfl⟩ | ⟨_, at_⟩
    · exact .inr (.inr ⟨_, at_r, underway, rfl, .inr ⟨_, _, moves⟩⟩)
    · exact .inl at_
  | lost at_r underway =>
    rcases (Tasks.getElem?_set_eq_some_iff at_r).1 at_ with ⟨rfl, rfl⟩ | ⟨_, at_⟩
    · exact .inr (.inr ⟨_, at_r, underway, rfl, .inl rfl⟩)
    · exact .inl at_

end State

theorem le_of_consistencyProof {leaves : List Hash}
    (h : consistencyProof S leaves fromSize = .ok proof) : fromSize ≤ leaves.length := by
  rw [consistencyProof] at h
  split at h
  · cases h
  · rename_i range
    exact Nat.not_lt.1 fun beyond => range (.inr beyond)

/-! ## A tree is the table at an instant of the request -/

section
variable {r : Reader S Key}

theorem Reader.Moves.tree (m : r.Moves E db cached now new cached') (hs : new.tree = some sn) :
    r.phase.tree = some sn ∨
      (∃ key, r.phase = .probed key sn.fingerprint ∧ cached = some sn) ∨ sn = db.rebuild S := by
  cases m with
  | devices | keyed | probed | missed => cases hs
  | refused => exact .inl hs
  | hit at_ held =>
    cases hs
    exact .inr (.inl ⟨_, at_, held⟩)
  | rebuilt at_ =>
    cases hs
    exact .inr (.inr rfl)
  | stored at_ =>
    cases hs
    exact .inl (at_ ▸ rfl)
  | head at_ =>
    cases hs
    exact .inl (at_ ▸ rfl)
  | consistency at_ =>
    cases hs
    exact .inl (at_ ▸ rfl)
  | found at_ =>
    cases hs
    exact .inl (at_ ▸ rfl)
  | proof at_ =>
    cases hs
    exact .inl (at_ ▸ rfl)

theorem Reader.Moves.fingerprint (m : r.Moves E db cached now new cached')
    (probed : new = .probed key current) : current = db.fingerprint := by
  cases m with
  | probed at_ =>
    cases probed
    rfl
  | _ => cases probed

end

/-- A state the run has passed through while the request was under way. -/
def Moment (E : Ed25519 Key) (s t : State S Key) (i : Nat) (mid : State S Key) : Prop :=
  Reach (State.step E) (fun _ _ => True) s mid ∧ Reach (State.step E) (fun _ _ => True) mid t ∧
    ∃ r, mid.readers[i]? = some r ∧ r.phase.underway = true

/-- What the requests have read stood in the table at such a state. -/
structure Traced (E : Ed25519 Key) (s t : State S Key) : Prop where
  probed : ∀ {i : Nat} {r key current}, t.readers[i]? = some r → r.phase = .probed key current →
    ∃ mid, Moment E s t i mid ∧ current = mid.db.fingerprint
  read : ∀ {i : Nat} {r sn}, t.readers[i]? = some r → r.phase.tree = some sn →
    ∃ mid, Moment E s t i mid ∧ sn.leaves = mid.db.leaves

theorem Moment.tail (h : Moment E s t i mid) (hs : t.step E a = some u) : Moment E s u i mid :=
  ⟨h.1, h.2.1.tail trivial hs, h.2.2⟩

theorem Traced.step (h : Traced E s t) (start : s.Inv E)
    (before : Reach (State.step E) (fun _ _ => True) s t) (hs : t.step E a = some u) :
    Traced E s u := by
  have inv : t.Inv E := before.invariant start fun h _ hs => h.step hs
  have here : ∀ {i : Nat} {r}, t.readers[i]? = some r → r.phase.underway = true → Moment E s u i t :=
    fun at_ underway => ⟨before, .tail .refl trivial hs, _, at_, underway⟩
  refine ⟨fun at_ probed => ?_, fun {i r' sn} at_ tree => ?_⟩
  · rcases State.reader_of_step hs at_ with old | new | ⟨r, at_r, underway, _, lost | ⟨_, _, moves⟩⟩
    · obtain ⟨mid, moment, same⟩ := h.probed old probed
      exact ⟨mid, moment.tail hs, same⟩
    · cases new.symm.trans probed
    · cases lost.symm.trans probed
    · exact ⟨t, here at_r underway, moves.fingerprint probed⟩
  · rcases State.reader_of_step hs at_ with old | new | ⟨r, at_r, underway, _, lost | ⟨_, _, moves⟩⟩
    · obtain ⟨mid, moment, same⟩ := h.read old tree
      exact ⟨mid, moment.tail hs, same⟩
    · rw [new] at tree
      cases tree
    · rw [lost] at tree
      cases tree
    · rcases moves.tree tree with held | ⟨key, probed, cached⟩ | rfl
      · obtain ⟨mid, moment, same⟩ := h.read at_r held
        exact ⟨mid, moment.tail hs, same⟩
      · -- The cached tree and the probed table are beginnings of the table, of one length.
        obtain ⟨mid, moment, same⟩ := h.probed at_r probed
        refine ⟨mid, moment.tail hs, ?_⟩
        have mid_inv : mid.Inv E := moment.1.invariant start fun h _ hs => h.step hs
        have size : sn.leaves.length = mid.db.leaves.length := by
          rw [← sn.size_eq, same, mid_inv.ordered.leaves_eq, List.length_map]
          rfl
        exact (List.prefix_of_prefix_length_le (inv.cached _ _ cached)
          (mid_inv.leaves_reach moment.2.1) (Nat.le_of_eq size)).eq_of_length size
      · exact ⟨t, here at_r underway, rfl⟩

theorem Traced.of_initial (start : s.Initial) : Traced E s s := by
  have nobody : ∀ {i : Nat} {r}, s.readers[i]? ≠ some r := by
    rw [start.readers]
    exact fun hr => by cases hr
  exact ⟨fun at_ => absurd at_ nobody, fun at_ => absurd at_ nobody⟩

/-! ## What is served -/

/-- The head an answer comes with. -/
def Answer.head? : Answer Hash → Option (SignedHead Hash)
  | .devices _ => none
  | .head h => some h
  | .proof p => some p.head
  | .consistency c => some c.head

/-- The request was answered with this head. -/
def Reader.Served (r : Reader S Key) (h : SignedHead Hash) : Prop :=
  ∃ used answer, r.phase = .answered used (.ok answer) ∧ answer.head? = some h

/-- The head is one of these leaves. -/
def SignedHead.Over (S : Sha256 Hash) (h : SignedHead Hash) (leaves : List Hash) : Prop :=
  h.size = leaves.length ∧ h.root = Transparency.root S leaves

namespace SignedHead

variable {h : SignedHead Hash} {sn : Snapshot S}

theorem Of.over (of : h.Of E sn) : h.Over S sn.leaves := by
  obtain ⟨key, now, rfl⟩ := of
  exact ⟨rfl, sn.root_eq⟩

theorem Of.verify (correct : E.Correct) (of : h.Of E sn) : h.verify S E = .ok () := by
  obtain ⟨key, now, rfl⟩ := of
  exact TreeHead.verify_sign correct ..

end SignedHead

theorem State.Inv.served {r : Reader S Key} (h : t.Inv E) (hr : r ∈ t.readers)
    (served : r.Served head) : ∃ sn, r.phase.tree = some sn ∧ head.Of E sn ∧
      sn.leaves <+: t.db.leaves := by
  obtain ⟨used, answer, phase, came⟩ := served
  have sound := h.readers r hr
  rw [phase] at sound
  cases sound with
  | answered held of =>
    have tree : r.phase.tree = used := by rw [phase]; rfl
    rw [tree]
    cases answer with
    | devices key => cases came
    | head h =>
      cases came
      obtain ⟨sn, rfl, of⟩ := of
      exact ⟨sn, rfl, of, held sn rfl⟩
    | proof p =>
      cases came
      obtain ⟨sn, rfl, of, _⟩ := of
      exact ⟨sn, rfl, of, held sn rfl⟩
    | consistency c =>
      cases came
      obtain ⟨sn, _, rfl, of, _⟩ := of
      exact ⟨sn, rfl, of, held sn rfl⟩

section
variable [DecidableEq Hash] {r : Reader S Key}

theorem State.Inv.inclusion (h : t.Inv E) (correct : E.Correct) (hr : r ∈ t.readers)
    (phase : r.phase = .answered used (.ok (.proof p))) :
    r.ask = .proof p.account ∧ p.head.verify S E = .ok () ∧
      verifyInclusion S (leafHash S (entry p.account p.identityKey)) p.index p.head.size p.proof
        p.head.root = .ok () := by
  have sound := h.readers r hr
  rw [phase] at sound
  cases sound with
  | answered held of =>
    obtain ⟨sn, rfl, of, asked, leaf, proved⟩ := of
    refine ⟨asked, of.verify correct, ?_⟩
    rw [of.over.1, of.over.2]
    exact verifyInclusion_of_inclusionProof leaf proved

theorem State.Inv.consistency (h : t.Inv E) (correct : E.Correct) (hr : r ∈ t.readers)
    (phase : r.phase = .answered used (.ok (.consistency c))) :
    ∃ fromSize, r.ask = .consistency fromSize ∧ c.head.verify S E = .ok () ∧
      ∃ sn, used = some sn ∧ c.head.Over S sn.leaves ∧ sn.leaves <+: t.db.leaves ∧
        fromSize ≤ sn.leaves.length ∧
        verifyConsistency S fromSize (root S (sn.leaves.take fromSize)) c.head.size c.head.root
          c.proof = .ok () := by
  have sound := h.readers r hr
  rw [phase] at sound
  cases sound with
  | answered held of =>
    obtain ⟨sn, fromSize, rfl, of, asked, proved⟩ := of
    refine ⟨fromSize, asked, of.verify correct, sn, rfl, of.over, held sn rfl,
      le_of_consistencyProof proved, ?_⟩
    rw [of.over.1, of.over.2]
    exact verifyConsistency_of_consistencyProof proved

/-- In every run, whatever appends, reads and restarts fall between the queries of a request: of
two heads served the smaller is one of the first leaves of the larger, a tree a request works with
is what the table held at an instant of that request, and every proof verifies against the head it
comes with, an inclusion proof for the key it comes with, a consistency proof for every head served
of the size asked for. -/
theorem served_log_consistent (correct : E.Correct) (start : s.Initial)
    (run : Reach (State.step E) (fun _ _ => True) s t) :
    (∀ r ∈ t.readers, ∀ r' ∈ t.readers, ∀ h h', r.Served h → r'.Served h' → h.size ≤ h'.size →
      ∃ sn sn', r.phase.tree = some sn ∧ r'.phase.tree = some sn' ∧ h.Over S sn.leaves ∧
        h'.Over S sn'.leaves ∧ sn.leaves <+: sn'.leaves) ∧
    (∀ i r sn, t.readers[i]? = some r → r.phase.tree = some sn →
      ∃ mid, Moment E s t i mid ∧ sn.leaves = mid.db.leaves) ∧
    (∀ r ∈ t.readers, ∀ used p, r.phase = .answered used (.ok (.proof p)) →
      r.ask = .proof p.account ∧ p.head.verify S E = .ok () ∧
      verifyInclusion S (leafHash S (entry p.account p.identityKey)) p.index p.head.size p.proof
        p.head.root = .ok ()) ∧
    (∀ r ∈ t.readers, ∀ used c, r.phase = .answered used (.ok (.consistency c)) →
      ∃ fromSize, r.ask = .consistency fromSize ∧ c.head.verify S E = .ok () ∧
      (∃ sn, used = some sn ∧ c.head.Over S sn.leaves ∧ verifyConsistency S fromSize
        (root S (sn.leaves.take fromSize)) c.head.size c.head.root c.proof = .ok ()) ∧
      ∀ r' ∈ t.readers, ∀ h, r'.Served h → h.size = fromSize →
        verifyConsistency S fromSize h.root c.head.size c.head.root c.proof = .ok ()) := by
  have inv : t.Inv E := run.invariant start.inv fun h _ hs => h.step hs
  have traced : Traced E s t := by
    induction run with
    | refl => exact .of_initial start
    | tail before _ hs ih =>
      exact (ih (before.invariant start.inv fun h _ hs => h.step hs)).step start.inv before hs
  refine ⟨fun r hr r' hr' h h' served served' le => ?_, fun _ _ _ => traced.read,
    fun r hr used p => inv.inclusion correct hr, fun r hr used c phase => ?_⟩
  · obtain ⟨sn, tree, of, held⟩ := inv.served hr served
    obtain ⟨sn', tree', of', held'⟩ := inv.served hr' served'
    refine ⟨sn, sn', tree, tree', of.over, of'.over, List.prefix_of_prefix_length_le held held' ?_⟩
    rw [← of.over.1, ← of'.over.1]
    exact le
  · obtain ⟨fromSize, asked, signed, sn, rfl, covers, held, within, proved⟩ :=
      inv.consistency correct hr phase
    refine ⟨fromSize, asked, signed, ⟨sn, rfl, covers, proved⟩, fun r' hr' h served size => ?_⟩
    -- The older head is of the first leaves of the newer one's tree.
    obtain ⟨sn', -, of', held'⟩ := inv.served hr' served
    have length : sn'.leaves.length = fromSize := of'.over.1.symm.trans size
    have first := List.prefix_of_prefix_length_le held' held (length.trans_le within)
    rw [of'.over.2, List.prefix_iff_eq_take.1 first, length]
    exact proved

end

/-! ## Two accounts -/

/-- A signature is the key, then the end of the message. -/
def plainEd25519 : Ed25519 UInt8 where
  verifyingKey key := List.replicate 32 key
  sign key message := List.replicate 32 key ++ (message.reverse ++ List.replicate 32 0).take 32
  isVerifyingKey bytes := bytes.length = 32
  verify key message signature :=
    signature = key ++ (message.reverse ++ List.replicate 32 0).take 32

theorem plainEd25519_correct : plainEd25519.Correct where
  keyLength := List.length_replicate
  isVerifyingKey := by simp [plainEd25519]
  signatureLength := by simp [plainEd25519]
  verifies := decide_eq_true rfl

/-- A digest of one byte. -/
def byteDigest : Sha256 UInt8 where
  digest bytes := bytes.foldl (31 * · + ·) 7
  bytes hash := [hash]

/-- A database nobody has written to, and processes that have just started. -/
def emptyLog : State byteDigest UInt8 where
  db := ⟨none, [], fun _ => none⟩
  nextSeq := 1
  cached _ := none
  writers := []
  readers := []

theorem emptyLog_initial : emptyLog.Initial where
  ordered := ⟨List.Pairwise.nil, fun _ h => absurd h List.not_mem_nil,
    fun _ h => absurd h List.not_mem_nil⟩
  writers := rfl
  cached _ := rfl
  readers := rfl

/-- The size of the head a request was answered with. -/
def Reader.servedSize (r : Reader S Key) : Option Nat :=
  match r.phase with
  | .answered _ (.ok answer) => answer.head?.map (·.size)
  | _ => none

/-- Two accounts are created, the second while the head of the first is read; another process
relates the two, the first proves the key of the second account, then answers from its cache. -/
def twoAccounts : List (Action UInt8) := List.flatten [
  [.start 0 7, .begin true [⟨"alice", [1], none⟩], .write 0, .write 0, .write 0],
  .receive 0 .head :: List.replicate 5 (.advance 0 100),
  [.begin true [⟨"bob", [2], none⟩], .write 1, .write 1, .write 1, .advance 0 100],
  .receive 1 (.consistency 1) :: List.replicate 6 (.advance 1 101),
  .receive 0 (.proof "bob") :: List.replicate 7 (.advance 2 102),
  .receive 0 .head :: List.replicate 4 (.advance 3 103)]

theorem served_log_consistent_twoAccounts : ∃ t,
    Reach (State.step plainEd25519) (fun _ _ => True) emptyLog t ∧
    t.readers.map Reader.servedSize = [some 1, some 2, some 2, some 2] ∧
    ∀ r ∈ t.readers, ∀ r' ∈ t.readers, ∀ h h', r.Served h → r'.Served h' → h.size ≤ h'.size →
      ∃ sn sn', r.phase.tree = some sn ∧ r'.phase.tree = some sn' ∧
        h.Over byteDigest sn.leaves ∧ h'.Over byteDigest sn'.leaves ∧
        sn.leaves <+: sn'.leaves := by
  have served : (Transition.run (fun s a => if True then s.step plainEd25519 a else none) emptyLog
      twoAccounts).map (fun t => t.readers.map Reader.servedSize) =
      some [some 1, some 2, some 2, some 2] := by decide +kernel
  obtain ⟨t, ran, sizes⟩ := Option.map_eq_some_iff.1 served
  have reached : Reach (State.step plainEd25519) (fun _ _ => True) emptyLog t :=
    reach_of_run_guarded ran
  exact ⟨t, reached, sizes, (served_log_consistent plainEd25519_correct emptyLog_initial reached).1⟩

end Whispee.Transparency.Service
