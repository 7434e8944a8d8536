import Whispee.Transparency.Honest

/-!
# The log witness

`LogWitness.check` and `compare` of `apps/web/src/lib/session-log.ts`, one step for each await, with
any answers a server may give. A check reads the anchor when it is called and writes the head it
was shown when it ends; it is verified against the anchor it has read, which another check may have
replaced by then (`overlapping_checks_move_back`).
-/

namespace Whispee.Transparency.Client.Witness

open Service Transition

variable {Hash : Type} {Key : Type v} [DecidableEq Hash] {S : Sha256 Hash} {E : Ed25519 Key}
  {pinned : Option Bytes}

def FORKED : String :=
  "Someone you are talking to sees a different key log than you do. " ++
    "The server is presenting two versions of it: that is an attack, not a glitch."

/-! ## Calls under way -/

/-- How far a call has come. -/
inductive Call (Hash : Type) where
  /-- `check` was called with this anchor, and `verifyAccount` waits for the entry. -/
  | proving (account : String) (identityKey : Bytes) (seen : Option (SeenHead Hash))
  /-- `verifyAccount` waits for the proof that this head extends the anchor. -/
  | extending (account : String) (anchor : SeenHead Hash) (current : SignedHead Hash)
  /-- `verifyAccount` has accepted the head, measured against this anchor. -/
  | accepted (seen : Option (SeenHead Hash)) (head : SeenHead Hash)
  | refused (account : String) (reason : String)
  /-- `check` returned, and says whether the head advanced. -/
  | returned (advanced : Bool)
  /-- `check` threw `LogProofRefused`. -/
  | threw (account : String) (reason : String)
  /-- `compare` was called with a peer's head, and `extendsView` waits for ours. -/
  | comparing (peer : GossipHead Hash)
  | confronting (peer : GossipHead Hash) (current : SignedHead Hash)
  | compared (verdict : Verdict)
  /-- Over without a verdict, or over for a comparison. -/
  | over
  deriving DecidableEq

structure State (Hash : Type) where
  /-- The last accepted head, the anchor of the next check. -/
  seen : Option (SeenHead Hash)
  alerts : List String
  calls : List (Call Hash)
  deriving DecidableEq

inductive Action (Hash : Type) where
  | check (account : String) (identityKey : Bytes)
  | compare (peer : GossipHead Hash)
  /-- Whatever the server answers. -/
  | proof (k : Nat) (proof : InclusionProof Hash)
  | head (k : Nat) (head : SignedHead Hash)
  | consistency (k : Nat) (answer : ConsistencyProof Hash)
  /-- A request fails. -/
  | fail (k : Nat)
  /-- The call goes on with the verdict. -/
  | settle (k : Nat)

/-- Records an anomaly, without duplicates. -/
def raise (alerts : List String) (reason : String) : List String :=
  if reason ∈ alerts then alerts else alerts ++ [reason]

section
variable (S E pinned)

/-- `verifyAccount` with the entry it has asked for. -/
def onProof (account : String) (identityKey : Bytes) (seen : Option (SeenHead Hash))
    (proof : InclusionProof Hash) : Call Hash :=
  match verifyEntry S E pinned account identityKey seen proof with
  | .refused reason => .refused account reason
  | .ok =>
    match seen with
    | none => .accepted none (seenOf proof.head)
    | some anchor =>
      if anchor.size > proof.head.size then
        .refused account "the log is shorter than the reference view."
      else .extending account anchor proof.head

/-- `verifyAccount` with the proof it has asked for. -/
def onConsistency (account : String) (anchor : SeenHead Hash) (current : SignedHead Hash)
    (answer : ConsistencyProof Hash) : Call Hash :=
  match verifyExtends S anchor current answer with
  | .refused reason => .refused account reason
  | .ok => .accepted (some anchor) (seenOf current)

/-- `extendsView` with our head. -/
def onHead (peer : GossipHead Hash) (current : SignedHead Hash) : Call Hash :=
  if peer.size > current.size then
    .compared (.refused "the log is shorter than the reference view.")
  else .confronting peer current

namespace State

variable (s : State Hash)

def setCall (k : Nat) (c : Call Hash) : State Hash := { s with calls := s.calls.set k c }

/-- What `check` and `compare` do with a verdict. -/
def settle (k : Nat) : Call Hash → Option (State Hash)
  | .accepted _ head =>
    some { s.setCall k (.returned (s.seen.map (·.size) ≠ some head.size)) with seen := some head }
  | .refused account reason =>
    some { s.setCall k (.threw account reason) with alerts := raise s.alerts reason }
  | .compared .ok => some (s.setCall k .over)
  | .compared (.refused _) => some { s.setCall k .over with alerts := raise s.alerts FORKED }
  | _ => none

def step : Action Hash → Option (State Hash)
  | .check account identityKey =>
    some { s with calls := s.calls ++ [.proving account identityKey s.seen] }
  | .compare peer => some { s with calls := s.calls ++ [.comparing peer] }
  | .proof k proof =>
    match s.calls[k]? with
    | some (.proving account identityKey seen) =>
      some (s.setCall k (onProof S E pinned account identityKey seen proof))
    | _ => none
  | .head k current =>
    match s.calls[k]? with
    | some (.comparing peer) => some (s.setCall k (onHead peer current))
    | _ => none
  | .consistency k answer =>
    match s.calls[k]? with
    | some (.extending account anchor current) =>
      some (s.setCall k (onConsistency S account anchor current answer))
    | some (.confronting peer current) =>
      some (s.setCall k (.compared
        (verifyExtends S ⟨peer.size, peer.root, current.logKey⟩ current answer)))
    | _ => none
  | .fail k =>
    match s.calls[k]? with
    -- `check` and `compare` swallow whatever is no refusal
    | some (.proving ..) | some (.extending ..) | some (.comparing _) | some (.confronting ..) =>
      some (s.setCall k .over)
    | _ => none
  | .settle k => s.calls[k]?.bind (s.settle k)

end State

end

/-! ## What a check has verified -/

omit [DecidableEq Hash] in
theorem acceptHead_ok {head : SignedHead Hash} {seen : Option (SeenHead Hash)}
    (h : acceptHead S E pinned head seen = .ok) (hs : seen = some anchor) :
    anchor.logKey = head.logKey := by
  subst hs
  rw [acceptHead] at h
  split at h
  · cases h
  split at h
  · cases h
  · rename_i same
    simpa using same

theorem verifyEntry_ok {p : InclusionProof Hash}
    (h : verifyEntry S E pinned account identityKey seen p = .ok) :
    acceptHead S E pinned p.head seen = .ok := by
  rw [verifyEntry] at h
  split at h
  · cases h
  · assumption

/-- The head has the key of the anchor and was proved to extend it. -/
def Verified (S : Sha256 Hash) (seen : Option (SeenHead Hash)) (head : SeenHead Hash) : Prop :=
  ∀ anchor, seen = some anchor → head.logKey = anchor.logKey ∧
    ∃ proof, verifyConsistency S anchor.size anchor.root head.size head.root proof = .ok ()

/-- What a call has verified so far. -/
inductive Call.Sound (S : Sha256 Hash) : Call Hash → Prop where
  | proving : Sound S (.proving account identityKey seen)
  | extending (key : current.logKey = anchor.logKey) : Sound S (.extending account anchor current)
  | accepted (verified : Verified S seen head) : Sound S (.accepted seen head)
  | refused : Sound S (.refused account reason)
  | returned : Sound S (.returned advanced)
  | threw : Sound S (.threw account reason)
  | comparing : Sound S (.comparing peer)
  | confronting : Sound S (.confronting peer current)
  | compared : Sound S (.compared verdict)
  | over : Sound S .over

theorem onProof_sound (p : InclusionProof Hash) :
    (onProof S E pinned account identityKey seen p).Sound S := by
  rw [onProof.eq_def]
  split
  · exact .refused
  · rename_i verdict
    split
    · exact .accepted fun anchor hs => by cases hs
    · split
      · exact .refused
      · exact .extending (acceptHead_ok (verifyEntry_ok verdict) rfl).symm

theorem onConsistency_sound {current : SignedHead Hash} {anchor : SeenHead Hash}
    (key : current.logKey = anchor.logKey) (c : ConsistencyProof Hash) :
    (onConsistency S account anchor current c).Sound S := by
  rw [onConsistency]
  split
  · exact .refused
  · rename_i verdict
    refine .accepted fun anchor' hs => ?_
    cases hs
    refine ⟨key, c.proof, ?_⟩
    rw [verifyExtends] at verdict
    split at verdict
    · cases verdict
    · rename_i accepted
      exact not_not.1 accepted

theorem onHead_sound (peer : GossipHead Hash) (current : SignedHead Hash) :
    (onHead peer current).Sound S := by
  rw [onHead]
  split
  · exact .compared
  · exact .confronting

/-! ## How the anchor moves -/

/-- The head is one of these leaves. -/
def SeenHead.Over (S : Sha256 Hash) (head : SeenHead Hash) (leaves : List Hash) : Prop :=
  head.size = leaves.length ∧ head.root = root S leaves

/-- The anchor stays, or moves to a head under its key whose leaves extend its own. -/
def Moved (S : Sha256 Hash) (old new : Option (SeenHead Hash)) : Prop :=
  new = old ∨ ∃ head, new = some head ∧ ∀ anchor, old = some anchor →
    head.logKey = anchor.logKey ∧ anchor.size ≤ head.size ∧
    ∀ leaves leaves', SeenHead.Over S anchor leaves → SeenHead.Over S head leaves' →
      leaves <+: leaves'

theorem range_of_verifyConsistency
    (h : verifyConsistency S fromSize oldRoot toSize newRoot proof = .ok ()) :
    0 < fromSize ∧ fromSize ≤ toSize := by
  rw [verifyConsistency] at h
  split at h
  · cases h
  · omega

theorem moved_of_verified (hnode : Function.Injective2 (nodeHash S))
    (verified : Verified S seen head) : Moved S seen (some head) := by
  refine .inr ⟨head, rfl, fun anchor hs => ?_⟩
  obtain ⟨key, proof, accepted⟩ := verified anchor hs
  obtain ⟨pos, le⟩ := range_of_verifyConsistency accepted
  refine ⟨key, le, fun leaves leaves' old new => ?_⟩
  rw [old.1, new.1] at le
  rw [old.1] at pos
  rw [old.1, old.2, new.1, new.2] at accepted
  exact List.prefix_iff_eq_take.2 (take_of_verifyConsistency hnode pos le accepted)

/-- The anchor a check that has succeeded was measured against is still the one held, or the head
is held already. -/
def State.upToDate (s : State Hash) : Action Hash → Bool
  | .settle k =>
    match s.calls[k]? with
    | some (.accepted seen head) => s.seen = seen || s.seen = some head
    | _ => true
  | _ => true

namespace State

variable {s t : State Hash}

/-- What the calls have verified is so. -/
def Sound (S : Sha256 Hash) (s : State Hash) : Prop := ∀ c ∈ s.calls, c.Sound S

/-- What a step does: a call comes, a call goes on and may raise an alert, or a check that has
succeeded writes its head. -/
inductive Change (S : Sha256 Hash) (s : State Hash) (a : Action Hash) : State Hash → Prop where
  | called (sound : c.Sound S) : Change S s a { s with calls := s.calls ++ [c] }
  | wentOn {k : Nat} {alerts : List String} (sound : s.Sound S → c.Sound S) :
    Change S s a { s.setCall k c with alerts }
  | wrote {k : Nat} (act : a = .settle k) (at_ : s.calls[k]? = some (.accepted against new))
    (advanced : Bool) :
    Change S s a { s.setCall k (.returned advanced) with seen := some new }

theorem change_of_settle (at_ : s.calls[k]? = some c) (hs : s.settle k c = some t) :
    s.Change S (.settle k) t := by
  cases c with
  | accepted seen head =>
    cases hs
    exact .wrote rfl at_ _
  | refused account reason =>
    cases hs
    exact .wentOn fun _ => .threw
  | compared verdict =>
    cases verdict with
    | ok =>
      cases hs
      exact .wentOn fun _ => .over
    | refused reason =>
      cases hs
      exact .wentOn fun _ => .over
  | _ => cases hs

theorem change_of_step (hs : s.step S E pinned a = some t) : s.Change S a t := by
  cases a with
  | check account identityKey =>
    cases hs
    exact .called .proving
  | compare peer =>
    cases hs
    exact .called .comparing
  | proof k p =>
    dsimp only [step] at hs
    split at hs
    · cases hs
      exact .wentOn fun _ => onProof_sound p
    · cases hs
  | head k current =>
    dsimp only [step] at hs
    split at hs
    · cases hs
      exact .wentOn fun _ => onHead_sound ..
    · cases hs
  | consistency k answer =>
    dsimp only [step] at hs
    split at hs
    · rename_i at_
      cases hs
      refine .wentOn fun h => ?_
      cases h _ (List.mem_of_getElem? at_) with
      | extending key => exact onConsistency_sound key answer
    · cases hs
      exact .wentOn fun _ => .compared
    · cases hs
  | fail k =>
    dsimp only [step] at hs
    split at hs
    any_goals
      cases hs
      exact .wentOn fun _ => .over
    cases hs
  | settle k =>
    obtain ⟨c, at_, hc⟩ := Option.bind_eq_some_iff.1 hs
    exact change_of_settle at_ hc

theorem Sound.step (h : s.Sound S) (hs : s.step S E pinned a = some t) : t.Sound S := by
  cases change_of_step hs with
  | called sound => exact Tasks.forall_mem_concat h sound
  | wentOn sound => exact Tasks.forall_mem_set h (sound h)
  | wrote act at_ advanced => exact Tasks.forall_mem_set h .returned

/-- Only a check that succeeds writes the anchor. -/
theorem seen_of_step (hs : s.step S E pinned a = some t) :
    t.seen = s.seen ∨ ∃ k seen head, a = .settle k ∧ s.calls[k]? = some (.accepted seen head) ∧
      t.seen = some head ∧ ∃ advanced, t.calls[k]? = some (.returned advanced) := by
  cases change_of_step hs with
  | called | wentOn => exact .inl rfl
  | wrote act at_ advanced =>
    exact .inr ⟨_, _, _, act, at_, rfl, advanced,
      (Tasks.getElem?_set_eq_some_iff at_).2 (.inl ⟨rfl, rfl⟩)⟩

theorem moved_of_step (hnode : Function.Injective2 (nodeHash S)) (h : s.Sound S)
    (current : s.upToDate a) (hs : s.step S E pinned a = some t) : Moved S s.seen t.seen := by
  rcases seen_of_step hs with same | ⟨k, seen, head, rfl, at_, written, _⟩
  · exact .inl same
  · rw [upToDate, at_, Bool.or_eq_true, decide_eq_true_eq, decide_eq_true_eq] at current
    cases h _ (List.mem_of_getElem? at_) with
    | accepted verified =>
      rcases current with read | already
      · rw [read, written]
        exact moved_of_verified hnode verified
      · exact .inl (written.trans already.symm)

end State

/-- A head of these leaves, signed. -/
def headOver (leaves : List Bytes) : SignedHead Bytes :=
  let head : TreeHead Bytes := ⟨leaves.length, root markedDigest leaves, 100⟩
  ⟨head.size, head.root, head.timestamp, head.sign markedDigest plainEd25519 7,
    plainEd25519.verifyingKey 7⟩

def aliceLeaf : Bytes := leafHash markedDigest (entry "alice" [1])
def bobLeaf : Bytes := leafHash markedDigest (entry "bob" [2])

/-- The proof of the first account's entry, before and after the second has one. -/
def aloneProof : InclusionProof Bytes := ⟨"alice", [1], 0, [], headOver [aliceLeaf]⟩
def bothProof : InclusionProof Bytes := ⟨"alice", [1], 0, [bobLeaf], headOver [aliceLeaf, bobLeaf]⟩

/-- A witness that has seen nothing. -/
def fresh : State Bytes := ⟨none, [], []⟩

/-- The first account is checked, then checked again when the log has grown. -/
def inTurn : List (Action Bytes) :=
  [.check "alice" [1], .proof 0 aloneProof, .settle 0, .check "alice" [1], .proof 1 bothProof,
    .consistency 1 ⟨[bobLeaf], headOver [aliceLeaf, bobLeaf]⟩]

/-- Both checks read the anchor of one leaf; the one that is shown the grown log ends first. -/
def overlapping : List (Action Bytes) :=
  [.check "alice" [1], .proof 0 aloneProof, .settle 0, .check "alice" [1], .check "alice" [1],
    .proof 1 aloneProof, .consistency 1 ⟨[], headOver [aliceLeaf]⟩,
    .proof 2 bothProof, .consistency 2 ⟨[bobLeaf], headOver [aliceLeaf, bobLeaf]⟩, .settle 2]

end Whispee.Transparency.Client.Witness
