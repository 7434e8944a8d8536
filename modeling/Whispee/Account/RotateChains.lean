import Whispee.Account.RotateRequests

/-!
# The chains the server serves

The invariant of concurrent rotations. The row lock keeps the key a request has overwritten in
place until it commits, the append lock keeps the numbers in commit order, so a commit extends one
chain by one link. The link is signed by the chain's last key exactly if nobody changed that key
between the request's check and its `UPDATE`: nothing in the code sees to that
(`concurrent_rotations_break_chain`), and `walk_chain_of_keyUnchanged` is what holds when it
happens to be so.
-/

namespace Whispee.Account

open Transition (Reach run)

variable {P : Primitives}

/-! ## One link more -/

theorem Database.Ordered.chain_eq {db : Database} (h : db.Ordered n) (account : String) :
    db.chain account = (db.logEntries.filter (·.1 = account)).map Prod.snd := by
  have ordered : ((db.logEntries.filter (·.1 = account)).map (·.2.seq)).Pairwise (· < ·) :=
    h.ordered.sublist (List.filter_sublist.map _)
  refine List.Pairwise.insertionSort_eq ?_
  rw [List.pairwise_map] at ordered ⊢
  exact ordered.imp Nat.le_of_lt

theorem Database.Ordered.rotate {db : Database} (h : db.Ordered n) (hs : seq < n)
    (hl : ∀ row ∈ db.logEntries, row.2.seq < seq) : (db.rotate r seq).Ordered n where
  ordered := by
    simp only [Database.rotate, List.map_append, List.pairwise_append]
    refine ⟨h.ordered, List.pairwise_singleton .., fun a ha b hb => ?_⟩
    obtain ⟨row, hrow, rfl⟩ := List.mem_map.1 ha
    cases List.mem_singleton.1 hb
    exact hl row hrow
  below := by
    intro row hrow
    rcases List.mem_append.1 hrow with hrow | hrow
    · exact h.below row hrow
    · cases List.mem_singleton.1 hrow
      exact hs

/-- A commit adds its link to the chain of its account and leaves the others alone. -/
theorem chain_rotate {db : Database} (h : db.Ordered n) (h' : (db.rotate r seq).Ordered n)
    (account : String) :
    (db.rotate r seq).chain account = db.chain account ++
      if r.account = account then [⟨seq, r.newIdentityKey, some r.rotation, some r.rotatedAt⟩]
      else [] := by
  rw [h.chain_eq, h'.chain_eq, Database.rotate, List.filter_append, List.map_append]
  by_cases ha : r.account = account <;> simp [ha]

theorem Database.Served.rotate {db : Database} (h : db.Served P) (ho : db.Ordered n)
    (ho' : (db.rotate r seq).Ordered n) (held : db.identityKey r.account = some k)
    (signed : verifyRotation P k r.claim r.rotation = .ok ()) : (db.rotate r seq).Served P := by
  intro account key hkey
  rw [chain_rotate ho ho']
  simp only [Database.rotate] at hkey
  split at hkey
  · subst account
    rw [held, Option.map_some, Option.some.injEq] at hkey
    subst key
    rw [if_pos rfl]
    refine walk_append (h _ _ held) ?_
    simp only [Link.follows, isSigned]
    rw [show verifyRotation P k ⟨_, _, _⟩ _ = .ok () from signed]
  · rename_i hne
    rw [if_neg (Ne.symm hne), List.append_nil]
    exact h account key hkey

namespace Server

theorem holdsAppendLock_of_drawn {phase : Phase} (h : phase.drawn = some seq) :
    phase.holdsAppendLock := by
  cases phase <;> simp_all

theorem at_setPhase {s : Server} (at_ : s.At index r old) :
    (s.setPhase index r new).At i r' phase ↔
      (i = index ∧ r' = r ∧ phase = new) ∨ (i ≠ index ∧ s.At i r' phase) := by
  have inRange : index < s.requests.length := (List.getElem?_eq_some_iff.1 at_).1
  simp only [At, setPhase, List.getElem?_set, inRange, if_true]
  by_cases h : index = i
  · simp [h, eq_comm]
  · simp [h, Ne.symm h]

/-- The locks and what they protect. -/
structure Inv (P : Primitives) (s : Server) : Prop where
  served : s.db.Served P
  ordered : s.db.Ordered s.nextSeq
  /-- A rotation under way is signed by the key it was checked against. -/
  signed : s.At i r phase → phase.verifiedAgainst = some k →
    verifyRotation P k r.claim r.rotation = .ok ()
  /-- An open transaction overwrites the key its rotation was checked against. -/
  held : s.At i r phase → phase.holdsRow = some k → s.db.identityKey r.account = some k
  /-- A row is held by one transaction. -/
  rows : s.At i r phase → s.At i' r' phase' → r.account = r'.account →
    phase.holdsRow ≠ none → phase'.holdsRow ≠ none → i = i'
  /-- The append lock is held by one transaction. -/
  appender : s.At i r phase → s.At i' r' phase' →
    phase.holdsAppendLock → phase'.holdsAppendLock → i = i'
  /-- A number drawn and not committed comes after all the committed ones. -/
  drawn : s.At i r phase → phase.drawn = some seq →
    seq < s.nextSeq ∧ ∀ row ∈ s.db.logEntries, row.2.seq < seq

theorem holdsRow_of_rowFree {s : Server} (h : s.rowFree r.account) (at_ : s.At i r phase) :
    phase.holdsRow = none := by
  have := List.all_eq_true.1 h _ (List.mem_of_getElem? at_)
  simpa using this

theorem holdsAppendLock_of_appendFree {s : Server} (h : s.appendFree) (at_ : s.At i r phase) :
    ¬ phase.holdsAppendLock := by
  have := List.all_eq_true.1 h _ (List.mem_of_getElem? at_)
  simpa using this

/-! ## One request moves on -/

namespace Inv

variable {s : Server} (h : Inv P s) (at_ : s.At index r old)
include h at_

theorem signed_setPhase (signed : ∀ k, new.verifiedAgainst = some k →
      old.verifiedAgainst = some k ∨ verifyRotation P k r.claim r.rotation = .ok ())
    (hi : (s.setPhase index r new).At i r' phase) (hk : phase.verifiedAgainst = some k) :
    verifyRotation P k r'.claim r'.rotation = .ok () := by
  rcases (at_setPhase at_).1 hi with ⟨rfl, rfl, rfl⟩ | ⟨_, hi⟩
  · rcases signed k hk with hk | hk
    · exact h.signed at_ hk
    · exact hk
  · exact h.signed hi hk

theorem held_setPhase (row : ∀ k, new.holdsRow = some k →
      old.holdsRow = some k ∨ s.db.identityKey r.account = some k)
    (hi : (s.setPhase index r new).At i r' phase) (hk : phase.holdsRow = some k) :
    s.db.identityKey r'.account = some k := by
  rcases (at_setPhase at_).1 hi with ⟨rfl, rfl, rfl⟩ | ⟨_, hi⟩
  · rcases row k hk with hk | hk
    · exact h.held at_ hk
    · exact hk
  · exact h.held hi hk

theorem rows_setPhase (row : new.holdsRow ≠ none → old.holdsRow ≠ none ∨ s.rowFree r.account)
    (hi : (s.setPhase index r new).At i ri phase) (hj : (s.setPhase index r new).At j rj phase')
    (account : ri.account = rj.account) (ki : phase.holdsRow ≠ none)
    (kj : phase'.holdsRow ≠ none) : i = j := by
  have other : ∀ {j rj phase'}, s.At j rj phase' → r.account = rj.account →
      new.holdsRow ≠ none → phase'.holdsRow ≠ none → index = j := by
    intro j rj phase' hj account kn kj
    rcases row kn with ko | free
    · exact h.rows at_ hj account ko kj
    · exact absurd (holdsRow_of_rowFree (account ▸ free) hj) kj
  rcases (at_setPhase at_).1 hi with ⟨rfl, rfl, rfl⟩ | ⟨_, hi'⟩
  · rcases (at_setPhase at_).1 hj with ⟨rfl, rfl, rfl⟩ | ⟨_, hj'⟩
    · rfl
    · exact other hj' account ki kj
  · rcases (at_setPhase at_).1 hj with ⟨rfl, rfl, rfl⟩ | ⟨_, hj'⟩
    · exact (other hi' account.symm kj ki).symm
    · exact h.rows hi' hj' account ki kj

theorem appender_setPhase
    (append : new.holdsAppendLock → old.holdsAppendLock ∨ s.appendFree)
    (hi : (s.setPhase index r new).At i ri phase) (hj : (s.setPhase index r new).At j rj phase')
    (ki : phase.holdsAppendLock) (kj : phase'.holdsAppendLock) : i = j := by
  have other : ∀ {j rj phase'}, s.At j rj phase' →
      new.holdsAppendLock → phase'.holdsAppendLock → index = j := by
    intro j rj phase' hj kn kj
    rcases append kn with ko | free
    · exact h.appender at_ hj ko kj
    · exact absurd kj (holdsAppendLock_of_appendFree free hj)
  rcases (at_setPhase at_).1 hi with ⟨rfl, rfl, rfl⟩ | ⟨_, hi'⟩
  · rcases (at_setPhase at_).1 hj with ⟨rfl, rfl, rfl⟩ | ⟨_, hj'⟩
    · rfl
    · exact other hj' ki kj
  · rcases (at_setPhase at_).1 hj with ⟨rfl, rfl, rfl⟩ | ⟨_, hj'⟩
    · exact (other hi' kj ki).symm
    · exact h.appender hi' hj' ki kj

end Inv

/-! ## The four moves -/

theorem Inv.phase {s : Server} (h : Inv P s) (at_ : s.At index r old)
    (signed : ∀ k, new.verifiedAgainst = some k →
      old.verifiedAgainst = some k ∨ verifyRotation P k r.claim r.rotation = .ok ())
    (row : ∀ k, new.holdsRow = some k →
      old.holdsRow = some k ∨ s.rowFree r.account ∧ s.db.identityKey r.account = some k)
    (append : new.holdsAppendLock → old.holdsAppendLock ∨ s.appendFree)
    (drawn : ∀ seq, new.drawn = some seq → old.drawn = some seq) :
    Inv P (s.setPhase index r new) where
  served := h.served
  ordered := h.ordered
  signed := h.signed_setPhase at_ signed
  held := h.held_setPhase at_ fun k hk => (row k hk).imp_right And.right
  rows := h.rows_setPhase at_ fun hk => by
    obtain ⟨k, hk⟩ := Option.ne_none_iff_exists'.1 hk
    exact (row k hk).imp (by simp_all) And.left
  appender := h.appender_setPhase at_ append
  drawn := by
    intro i r' phase seq hi hs
    rcases (at_setPhase at_).1 hi with ⟨rfl, rfl, rfl⟩ | ⟨_, hi⟩
    · exact h.drawn at_ (drawn seq hs)
    · exact h.drawn hi hs

theorem Inv.insert {s : Server} (h : Inv P s) (at_ : s.At index r (.locked previous)) :
    Inv P { s.setPhase index r (.inserted previous s.nextSeq) with nextSeq := s.nextSeq + 1 } where
  served := h.served
  ordered := ⟨h.ordered.ordered, fun row hrow => Nat.lt_succ_of_lt (h.ordered.below row hrow)⟩
  signed := h.signed_setPhase at_ (by simp)
  held := h.held_setPhase at_ (by simp)
  rows := h.rows_setPhase at_ (by simp)
  appender := h.appender_setPhase at_ (by simp)
  drawn := by
    intro i r' phase seq hi hs
    rcases (at_setPhase at_).1 hi with ⟨rfl, rfl, rfl⟩ | ⟨hne, hi⟩
    · cases hs
      exact ⟨Nat.lt_succ_self _, h.ordered.below⟩
    · exact ⟨Nat.lt_succ_of_lt (h.drawn hi hs).1, (h.drawn hi hs).2⟩

theorem Inv.commit {s : Server} (h : Inv P s)
    (at_ : s.At index r (.packagesDeleted previous seq)) :
    Inv P { s.setPhase index r .completed with db := s.db.rotate r seq } := by
  have hs := h.drawn at_ rfl
  have ordered := h.ordered.rotate (r := r) hs.1 hs.2
  refine ⟨h.served.rotate h.ordered ordered (h.held at_ rfl) (h.signed at_ rfl), ordered,
    h.signed_setPhase at_ (by simp), ?_, h.rows_setPhase at_ (by simp),
    h.appender_setPhase at_ (by simp), ?_⟩
  · -- Another open transaction holds the row of another account.
    intro i r' phase k hi hk
    rcases (at_setPhase at_).1 hi with ⟨rfl, rfl, rfl⟩ | ⟨hne, hi'⟩
    · cases hk
    · have other : r'.account ≠ r.account := fun account =>
        hne (h.rows hi' at_ account (hk ▸ Option.some_ne_none _) (Option.some_ne_none _))
      simpa [Database.rotate, other] using h.held hi' hk
  · -- No other transaction has drawn a number: it would hold the append lock.
    intro i r' phase seq' hi hd
    rcases (at_setPhase at_).1 hi with ⟨rfl, rfl, rfl⟩ | ⟨hne, hi'⟩
    · cases hd
    · exact absurd (h.appender hi' at_ (holdsAppendLock_of_drawn hd) rfl) hne

theorem at_receive {s : Server} :
    At { s with requests := s.requests ++ [(request, phase)] } i r phase' ↔
      s.At i r phase' ∨ i = s.requests.length ∧ r = request ∧ phase' = phase := by
  simp only [At, List.getElem?_append]
  split
  · have : i ≠ s.requests.length := by omega
    simp [this]
  · have : s.requests[i]? = none := List.getElem?_eq_none (by omega)
    rw [this]
    by_cases hi : i = s.requests.length
    · simp [hi, eq_comm]
    · have : i - s.requests.length ≠ 0 := by omega
      simp [hi, this]

theorem precheck_inert (request : RotateAccount) (now : Nat) :
    (precheck request now).verifiedAgainst = none ∧ (precheck request now).holdsRow = none ∧
      (precheck request now).holdsAppendLock = false ∧ (precheck request now).drawn = none := by
  unfold precheck
  split
  · simp
  · split <;> simp

theorem Inv.receive {s : Server} (h : Inv P s) (request : RotateAccount) (now : Nat) :
    Inv P { s with requests := s.requests ++ [(request, precheck request now)] } := by
  obtain ⟨verified, row, append, drawn⟩ := precheck_inert request now
  refine ⟨h.served, h.ordered, fun hi hk => ?_, fun hi hk => ?_, fun hi hj account ki kj => ?_,
    fun hi hj ki kj => ?_, fun hi hd => ?_⟩
  · rcases at_receive.1 hi with hi | ⟨rfl, rfl, rfl⟩
    · exact h.signed hi hk
    · cases verified.symm.trans hk
  · rcases at_receive.1 hi with hi | ⟨rfl, rfl, rfl⟩
    · exact h.held hi hk
    · cases row.symm.trans hk
  · rcases at_receive.1 hi with hi | ⟨rfl, rfl, rfl⟩
    · rcases at_receive.1 hj with hj | ⟨rfl, rfl, rfl⟩
      · exact h.rows hi hj account ki kj
      · exact absurd row kj
    · exact absurd row ki
  · rcases at_receive.1 hi with hi | ⟨rfl, rfl, rfl⟩
    · rcases at_receive.1 hj with hj | ⟨rfl, rfl, rfl⟩
      · exact h.appender hi hj ki kj
      · cases append.symm.trans kj
    · cases append.symm.trans ki
  · rcases at_receive.1 hi with hi | ⟨rfl, rfl, rfl⟩
    · exact h.drawn hi hd
    · cases drawn.symm.trans hd

/-- The invariant, along steps whose `UPDATE` finds the key the rotation was checked against. -/
theorem Inv.step {s t : Server} (h : Inv P s) (hg : s.keyUnchanged a)
    (hs : s.step P a = some t) : Inv P t := by
  cases moves_of_step hs with
  | receive request now => exact h.receive request now
  | phase at_ signed row append drawn =>
    refine h.phase at_ signed (fun k hk => (row k hk).imp_right ?_) append drawn
    rintro ⟨rfl, rfl, free⟩
    refine ⟨free, ?_⟩
    simpa [keyUnchanged, show s.requests[_]? = _ from at_] using hg
  | insert at_ => exact h.insert at_
  | commit at_ => exact h.commit at_

theorem Inv.initial {s : Server} (served : s.db.Served P) (ordered : s.db.Ordered s.nextSeq)
    (idle : s.requests = []) : Inv P s := by
  have nobody : ∀ {i r phase}, ¬ s.At i r phase := by simp [At, idle]
  exact ⟨served, ordered, fun hi => absurd hi nobody, fun hi => absurd hi nobody,
    fun hi => absurd hi nobody, fun hi => absurd hi nobody, fun hi => absurd hi nobody⟩

end Server

/-- In every run in which each `UPDATE` still finds the key its rotation was checked against, the
server serves, at every moment and for every account, a chain the walk accepts and whose last key
is the account's. -/
theorem walk_chain_of_keyUnchanged {s t : Server} (served : s.db.Served P)
    (ordered : s.db.Ordered s.nextSeq) (idle : s.requests = [])
    (h : Reach (Server.step P) (fun s a => s.keyUnchanged a) s t) (account : String) (key : Bytes)
    (hk : t.db.identityKey account = some key) :
    walk P account (t.db.chain account) = .ok key ∧
      ∃ last, (t.db.chain account).getLast? = some last ∧ last.identityKey = key := by
  have inv : Server.Inv P t :=
    h.invariant (Server.Inv.initial served ordered idle) fun hi hg hs => hi.step hg hs
  have accepted := inv.served account key hk
  exact ⟨accepted, walk_current accepted⟩

/-! ## Two devices rotate -/

/-- Primitives a test would use: a signature is the key, then the end of the message. -/
def plainPrimitives : Primitives where
  sha256 := id
  isVerifyingKey _ := true
  verify key message sig := sig = key ++ message.reverse.take 32

def keyOf (n : UInt8) : Bytes := List.replicate 32 n

def plainRotation (key : Bytes) (claim : RotationClaim) : Bytes :=
  match rotationMessage claim with
  | .ok message => key ++ message.reverse.take 32
  | .error _ => []

def soleAccount : String := accountId plainPrimitives (keyOf 0)

/-- A server with one account, on its genesis key, and two devices. -/
def twoDevices : Server where
  db := {
    identityKey := fun account => if account = soleAccount then some (keyOf 0) else none
    deviceAccount := fun device =>
      if device = "phone" ∨ device = "laptop" then some soleAccount else none
    logEntries := [(soleAccount, ⟨1, keyOf 0, none, none⟩)]
    recoveryEscrows := []
    keyPackages := [] }
  nextSeq := 2
  requests := []

theorem twoDevices_ordered : twoDevices.db.Ordered twoDevices.nextSeq :=
  ⟨by decide, by decide⟩

theorem twoDevices_served : twoDevices.db.Served plainPrimitives := by
  intro account key hk
  simp only [twoDevices] at hk
  split at hk
  · subst account
    cases hk
    decide
  · cases hk

/-- A rotation of the account from its genesis key to the `n`th, asked for by a device. -/
def rotateTo (deviceId : String) (n : UInt8) : RotateAccount where
  deviceId
  account := soleAccount
  newIdentityKey := keyOf n
  rotation := plainRotation (keyOf 0) ⟨soleAccount, keyOf n, 100⟩
  rotatedAt := 100

/-- The rotation of one device, from its arrival to its commit. -/
def oneRotation : List Action :=
  .receive (rotateTo "phone" 1) 100 :: List.replicate 9 (.advance 0)

theorem walk_chain_of_keyUnchanged_twoDevices : ∃ t,
    Reach (Server.step plainPrimitives) (fun s a => s.keyUnchanged a) twoDevices t ∧
    t.requests.map Prod.snd = [.completed] ∧
    walk plainPrimitives soleAccount (t.db.chain soleAccount) = .ok (keyOf 1) := by
  have completed : ∃ t, run (fun s a => if s.keyUnchanged a then s.step plainPrimitives a else none)
      twoDevices oneRotation = some t ∧ t.requests.map Prod.snd = [.completed] ∧
      t.db.identityKey soleAccount = some (keyOf 1) := ⟨_, rfl, by decide, by decide⟩
  obtain ⟨t, h, phases, key⟩ := completed
  have reached : Reach _ (fun s a => s.keyUnchanged a) twoDevices t :=
    Transition.reach_of_run_guarded h
  exact ⟨t, reached, phases,
    (walk_chain_of_keyUnchanged twoDevices_served twoDevices_ordered rfl reached _ _ key).1⟩

/-- Both requests are checked before either updates the account. -/
def overlapping : List Action :=
  [.receive (rotateTo "phone" 1) 100, .receive (rotateTo "laptop" 2) 100] ++
    List.replicate 3 (.advance 0) ++ List.replicate 3 (.advance 1) ++
    List.replicate 6 (.advance 0) ++ List.replicate 6 (.advance 1)

/-- Both rotations complete, and the chain served from then on is refused at its third link. -/
theorem concurrent_rotations_break_chain : ∃ t,
    run (Server.step plainPrimitives) twoDevices overlapping = some t ∧
    t.requests.map Prod.snd = [.completed, .completed] ∧
    t.db.identityKey soleAccount = some (keyOf 2) ∧
    walk plainPrimitives soleAccount (t.db.chain soleAccount) = .brokenLink 2 := by
  refine ⟨_, rfl, ?_, ?_, ?_⟩
  · decide
  · decide
  · decide

end Whispee.Account
