import Whispee.Session.RemoveAccount

/-!
# Publishing commits

The operations of `apps/web/src/lib/session.ts` that change a group by a commit, with what every
request they make comes to: `startConversation`, `addAccount`, `addMissingDevices`,
`reconcileMembers`, `removeAccount`, `setRoles` and `setLifetime`. Each builds a commit, tells the
server, and applies the commit. One that was built and not applied stays pending, and no operation
takes it back (`publication_failed`).
-/

namespace Whispee.Session.Publish

open Whispee.Group
open Account (AttestedDevice)
open RemoveAccount (Post RefusesWhilePending openMls openMls_refuses halfCached)

/-! ## The requests -/

/-- What becomes of a request. -/
inductive Reply where
  | answered
  /-- Carried out, and the answer never arrives. -/
  | lost
  | refused

/-- What the requests of an operation come to, each by the turn of the loop it belongs to. -/
structure Answers where
  claimKeyPackage : Nat → Option Leaf
  addMembers : Nat → Reply
  postCommit : Nat → Post
  postWelcome : Nat → Post
  removeGroupMembers : Nat → Reply

/-- Where a turn ends. -/
inductive Failure where
  | claimKeyPackage
  | crypto (e : CryptoError)
  /-- A request between the building of a commit and its application. -/
  | publication
  /-- A request after the commit was applied. -/
  | afterwards

inductive Envelope where
  | commit (commit : StagedCommit)
  /-- The Welcome of the device with this leaf, and the tree that goes with it. -/
  | welcome (device : Leaf) (tree : List Member)

/-- A conversation, as one device and the server have it. -/
structure World where
  /-- The client's side of the group. -/
  conversation : Conversation
  epoch : Nat
  /-- The fingerprints of `view.peers`. -/
  peers : List String
  /-- The envelopes not to be read back. -/
  mine : List Nat
  mailbox : List Envelope
  /-- The devices the server serves the mailbox to. -/
  distribution : List String

/-- What is left of a turn, unless it has ended. -/
def andThen (result : World × Option Failure) (rest : World → World × Option Failure) :
    World × Option Failure :=
  match result with
  | (w, some failure) => (w, some failure)
  | (w, none) => rest w

/-- A request that has `effect` on the server. -/
def request (failure : Failure) (reply : Reply) (effect : List String → List String) (w : World) :
    World × Option Failure :=
  match reply with
  | .answered => ({ w with distribution := effect w.distribution }, none)
  | .lost => ({ w with distribution := effect w.distribution }, some failure)
  | .refused => (w, some failure)

/-- `api.postEnvelope`, and the note that the envelope is ours. -/
def postEnvelope (failure : Failure) (post : Post) (envelope : Envelope) (w : World) :
    World × Option Failure :=
  match post with
  | .stored seq =>
    ({ w with mailbox := w.mailbox ++ [envelope], mine := w.mine ++ [seq] }, none)
  | .lost => ({ w with mailbox := w.mailbox ++ [envelope] }, some failure)
  | .refused => (w, some failure)

/-- The server keeps one row for each member. -/
def addMembers (ids distribution : List String) : List String :=
  distribution ++ ids.filter fun id => !distribution.contains id

/-! ## The turns -/

section
variable (mls : Mls) (answers : Answers)

/-- `client.applyPending` -/
def applyPending (w : World) : World :=
  { w with conversation := w.conversation.applyPending mls, epoch := w.epoch + 1 }

/-- What the client has built is pending from here on. -/
def built (prepared : Except CryptoError (StagedCommit × Conversation)) (w : World)
    (rest : StagedCommit → World → World × Option Failure) : World × Option Failure :=
  match prepared with
  | .error e => (w, some (.crypto e))
  | .ok (commit, conversation) => rest commit { w with conversation }

/-- Publishes a commit **then** applies it. -/
def publishAndApply (i : Nat) (commit : StagedCommit) (w : World) : World × Option Failure :=
  andThen (postEnvelope .publication (answers.postCommit i) (.commit commit) w) fun w =>
  (applyPending mls w, none)

/-- A turn of the loops of `addMissingDevices` and `addAccount`. -/
def addDevice (i : Nat) (device : AttestedDevice) (w : World) : World × Option Failure :=
  match answers.claimKeyPackage i with
  | none => (w, some .claimKeyPackage)
  | some package =>
    built (w.conversation.invite mls package) w fun commit w =>
    andThen (request .publication (answers.addMembers i) (addMembers [device.id]) w) fun w =>
    andThen (publishAndApply mls answers i commit w) fun w =>
    postEnvelope .afterwards (answers.postWelcome i) (.welcome package w.conversation.members) w

/-- A turn of the loop of `startConversation`: nobody has to hear of the first commit. -/
def inviteDevice (deviceId : String) (i : Nat) (device : AttestedDevice) (w : World) :
    World × Option Failure :=
  match answers.claimKeyPackage i with
  | none => (w, some .claimKeyPackage)
  | some package =>
    built (w.conversation.invite mls package) w fun commit w =>
    andThen (request .publication (answers.addMembers i) (addMembers [deviceId, device.id]) w)
      fun w =>
    andThen (if 0 < i then publishAndApply mls answers i commit w else (applyPending mls w, none))
      fun w =>
    postEnvelope .afterwards (answers.postWelcome i) (.welcome package w.conversation.members) w

/-- A turn of the loops of `reconcileMembers` and `removeAccount`. -/
def removeDevice (i : Nat) (device : Bytes × String) (w : World) : World × Option Failure :=
  built (w.conversation.remove mls device.1) w fun commit w =>
  andThen (publishAndApply mls answers i commit w) fun w =>
  request .afterwards (answers.removeGroupMembers i) (·.filter (· ≠ device.2)) w

/-- The loops that a failure ends. -/
def inTurn (turn : Nat → α → World → World × Option Failure) :
    Nat → List α → World → World × Option Failure
  | _, [], w => (w, none)
  | i, a :: as, w => andThen (turn i a w) (inTurn turn (i + 1) as)

/-- The loops that put a failure off until the next poll. -/
def deferring (turn : Nat → α → World → World × Option Failure) :
    Nat → List α → World → World × List Failure
  | _, [], w => (w, [])
  | i, a :: as, w =>
    match turn i a w with
    | (w, failure) =>
      match deferring turn (i + 1) as w with
      | (w, failures) => (w, failure.toList ++ failures)

/-! ## The operations -/

def thrown (result : World × Option Failure) : World × List Failure := (result.1, result.2.toList)

/-- The loop over `peers.flatMap((peer) => peer.devices)`, in the group just created. -/
def startConversation (deviceId : String) (devices : List AttestedDevice) (w : World) :
    World × List Failure :=
  thrown (inTurn (inviteDevice mls answers deviceId) 0 devices w)

/-- The loop over `peer.devices`. -/
def addAccount (devices : List AttestedDevice) (w : World) : World × List Failure :=
  thrown (inTurn (addDevice mls answers) 0 devices w)

/-- Adds to a conversation the devices that should be in it and are not. -/
def addMissingDevices (fingerprint : Bytes → String) (devices : List AttestedDevice) (w : World) :
    World × List Failure :=
  deferring (addDevice mls answers) 0
    (devices.filter fun device => !w.peers.contains (fingerprint device.mlsKey)) w

/-- `client.peerSignatureKeys` -/
def peerSignatureKeys (conversation : Conversation) : List Bytes :=
  (conversation.members.filter (·.index ≠ conversation.ownIndex)).map (·.signatureKey)

/-- Evicts from the tree the devices whose revocation has been verified: `revoked` is the map from
their fingerprints to their ids. -/
def reconcileMembers (fingerprint : Bytes → String) (revoked : String → Option String)
    (w : World) : World × List Failure :=
  deferring (removeDevice mls answers) 0
    ((peerSignatureKeys w.conversation).filterMap fun key =>
      (revoked (fingerprint key)).map fun id => (key, id)) w

/-- The loop over `account.devices`. -/
def removeAccount (devices : List AttestedDevice) (w : World) : World × List Failure :=
  thrown (inTurn (removeDevice mls answers) 0 (devices.map fun device => (device.mlsKey, device.id))
    w)

/-- Replaces a group's roles. -/
def setRoles (admin : String) (moderators : List String) (w : World) : World × List Failure :=
  thrown (built (w.conversation.setRoles mls admin moderators) w (publishAndApply mls answers 0))

/-- Sets how long messages live here. What follows the commit is left out. -/
def setLifetime (lifetime : Lifetime) (w : World) : World × List Failure :=
  thrown (built (w.conversation.setLifetime mls lifetime) w (publishAndApply mls answers 0))

end

/-! ## A failed publication -/

/-- What an operation was asked to do. -/
inductive Operation where
  | startConversation (deviceId : String) (devices : List AttestedDevice)
  | addAccount (devices : List AttestedDevice)
  | addMissingDevices (devices : List AttestedDevice)
  | reconcileMembers (revoked : String → Option String)
  | removeAccount (devices : List AttestedDevice)
  | setRoles (admin : String) (moderators : List String)
  | setLifetime (lifetime : Lifetime)

section
variable (mls : Mls) (fingerprint : Bytes → String)

def Operation.run (answers : Answers) : Operation → World → World × List Failure
  | .startConversation deviceId devices => Publish.startConversation mls answers deviceId devices
  | .addAccount devices => Publish.addAccount mls answers devices
  | .addMissingDevices devices => Publish.addMissingDevices mls answers fingerprint devices
  | .reconcileMembers revoked => Publish.reconcileMembers mls answers fingerprint revoked
  | .removeAccount devices => Publish.removeAccount mls answers devices
  | .setRoles admin moderators => Publish.setRoles mls answers admin moderators
  | .setLifetime lifetime => Publish.setLifetime mls answers lifetime

/-- The group is as it was before the operation. -/
structure Intact (before after : World) : Prop where
  epoch : after.epoch = before.epoch
  members : after.conversation.members = before.conversation.members
  roster : after.conversation.roster = before.conversation.roster

/-- Some later operation builds a commit and applies it, before the commit of another member is
merged. -/
inductive Usable : World → Prop
  | commits {answers : Answers} {operation : Operation} {w : World} :
    w.epoch < (operation.run mls fingerprint answers w).1.epoch → Usable w
  | later {answers : Answers} {operation : Operation} {w : World} :
    Usable (operation.run mls fingerprint answers w).1 → Usable w
  | received {w : World} {message : Conversation.ProcessedMessage} {context : Context}
    {incoming : Conversation.Incoming} {conversation : Conversation} :
    w.conversation.process mls message context = .ok (incoming, conversation) →
    incoming ≠ .groupChanged → Usable { w with conversation } → Usable w

end

/-- A commit is pending. -/
def World.Pending (w : World) : Prop := w.conversation.pendingCommit.isSome = true

/-- What fails to be published is pending. -/
def Leaves (result : World × Option Failure) : Prop :=
  result.2 = some .publication → result.1.Pending

/-- A turn of a loop builds nothing while something is pending. -/
structure Turns (turn : World → World × Option Failure) : Prop where
  refused : ∀ {w : World}, w.Pending → ∃ failure, turn w = (w, some failure) ∧
    failure ≠ .publication
  leaves : ∀ w, Leaves (turn w)

section
variable {mls : Mls} {answers : Answers} {w : World} {failure failure' : Failure}

theorem leaves_of_none (h : result.2 = none) : Leaves result := fun hf => by
  rw [h] at hf
  cases hf

theorem Leaves.andThen {rest : World → World × Option Failure} (h : Leaves result)
    (hrest : result.2 = none → Leaves (rest result.1)) : Leaves (andThen result rest) := by
  obtain ⟨w, _ | failure⟩ := result
  · exact hrest rfl
  · exact h

theorem request_conversation :
    (request failure reply effect w).1.conversation = w.conversation := by
  cases reply <;> rfl

theorem request_failure (h : (request failure reply effect w).2 = some failure') :
    failure' = failure := by
  cases reply <;> cases h <;> rfl

theorem postEnvelope_conversation :
    (postEnvelope failure post envelope w).1.conversation = w.conversation := by
  cases post <;> rfl

theorem postEnvelope_failure (h : (postEnvelope failure post envelope w).2 = some failure') :
    failure' = failure := by
  cases post <;> cases h <;> rfl

theorem request_leaves (h : failure = .publication → w.Pending) :
    Leaves (request failure reply effect w) := fun hf => by
  rw [World.Pending, request_conversation]
  exact h (request_failure hf).symm

theorem postEnvelope_leaves (h : failure = .publication → w.Pending) :
    Leaves (postEnvelope failure post envelope w) := fun hf => by
  rw [World.Pending, postEnvelope_conversation]
  exact h (postEnvelope_failure hf).symm

theorem publishAndApply_leaves (h : w.Pending) :
    Leaves (publishAndApply mls answers i commit w) :=
  (postEnvelope_leaves fun _ => h).andThen fun _ => leaves_of_none rfl

theorem prepare_of_pending (refuses : RefusesWhilePending mls) {conversation : Conversation}
    (own : List Proposal) (h : conversation.pendingCommit.isSome = true) :
    ∃ e, conversation.prepare mls own = .error e := by
  unfold Conversation.prepare
  split
  · exact absurd ‹_› (refuses h)
  · exact ⟨_, rfl⟩

theorem pending_of_prepare {conversation prepared : Conversation} {own : List Proposal}
    (h : conversation.prepare mls own = .ok (commit, prepared)) :
    prepared.pendingCommit.isSome = true := by
  unfold Conversation.prepare at h
  split at h
  · cases h
    rfl
  · cases h

/-- What is built is pending, and while something is pending nothing is built. -/
theorem turns_of_built (refuses : RefusesWhilePending mls)
    {build : World → Except CryptoError (StagedCommit × Conversation)}
    {rest : StagedCommit → World → World × Option Failure}
    (prepares : ∀ {w : World} {prepared}, build w = .ok prepared →
      ∃ own, w.conversation.prepare mls own = .ok prepared)
    (leaves : ∀ {w : World} {commit}, w.Pending → Leaves (rest commit w)) :
    Turns fun w => built (build w) w rest := by
  refine ⟨fun {w} hpending => ?_, fun w => ?_⟩
  · cases hbuild : build w with
    | error e => exact ⟨.crypto e, rfl, Failure.noConfusion⟩
    | ok prepared =>
      obtain ⟨own, hprepare⟩ := prepares hbuild
      obtain ⟨e, he⟩ := prepare_of_pending refuses own hpending
      rw [he] at hprepare
      cases hprepare
  · cases hbuild : build w with
    | error e => exact fun h => nomatch h
    | ok prepared =>
      obtain ⟨own, hprepare⟩ := prepares hbuild
      exact leaves (pending_of_prepare hprepare)

theorem turns_of_claim (refuses : RefusesWhilePending mls) (claimed : Option Leaf)
    {rest : Leaf → StagedCommit → World → World × Option Failure}
    (leaves : ∀ {package : Leaf} {w : World} {commit}, w.Pending →
      Leaves (rest package commit w)) :
    Turns fun w => match claimed with
      | none => (w, some .claimKeyPackage)
      | some package => built (w.conversation.invite mls package) w (rest package) := by
  cases claimed with
  | none => exact ⟨fun {w} _ => ⟨.claimKeyPackage, rfl, Failure.noConfusion⟩, fun _ h => nomatch h⟩
  | some package => exact turns_of_built refuses (fun h => ⟨[.add package], h⟩) leaves

theorem addDevice_turns (refuses : RefusesWhilePending mls) (i : Nat) (device : AttestedDevice) :
    Turns (addDevice mls answers i device) := by
  refine turns_of_claim refuses _ fun hpending => ?_
  refine (request_leaves fun _ => hpending).andThen fun _ => ?_
  refine (publishAndApply_leaves ?_).andThen fun _ => postEnvelope_leaves Failure.noConfusion
  rw [World.Pending, request_conversation]
  exact hpending

theorem inviteDevice_turns (refuses : RefusesWhilePending mls) (i : Nat)
    (device : AttestedDevice) : Turns (inviteDevice mls answers deviceId i device) := by
  refine turns_of_claim refuses _ fun hpending => ?_
  refine (request_leaves fun _ => hpending).andThen fun _ => ?_
  refine .andThen ?_ fun _ => postEnvelope_leaves Failure.noConfusion
  split
  · refine publishAndApply_leaves ?_
    rw [World.Pending, request_conversation]
    exact hpending
  · exact leaves_of_none rfl

theorem removeDevice_turns (refuses : RefusesWhilePending mls) (i : Nat)
    (device : Bytes × String) : Turns (removeDevice mls answers i device) := by
  refine turns_of_built refuses (fun {w prepared} h => ?_) fun hpending =>
    (publishAndApply_leaves hpending).andThen fun _ => request_leaves Failure.noConfusion
  unfold Conversation.remove at h
  split at h
  · exact ⟨_, h⟩
  · cases h

theorem setRoles_turns (refuses : RefusesWhilePending mls) :
    Turns fun w => built (w.conversation.setRoles mls admin moderators) w
      (publishAndApply mls answers 0) := by
  refine turns_of_built refuses (fun h => ?_) publishAndApply_leaves
  simp only [Conversation.setRoles, Fallible.bind_eq_ok_iff] at h
  obtain ⟨_, -, _, -, _, -, hprepare⟩ := h
  exact ⟨_, hprepare⟩

theorem setLifetime_turns (refuses : RefusesWhilePending mls) :
    Turns fun w => built (w.conversation.setLifetime mls lifetime) w
      (publishAndApply mls answers 0) := by
  refine turns_of_built refuses (fun h => ?_) publishAndApply_leaves
  simp only [Conversation.setLifetime, Fallible.bind_eq_ok_iff] at h
  obtain ⟨_, -, _, -, hprepare⟩ := h
  exact ⟨_, hprepare⟩

/-! ### The loops -/

section
variable {turn : Nat → α → World → World × Option Failure} (turns : ∀ i a, Turns (turn i a))
include turns

theorem inTurn_refused (as : List α) (h : w.Pending) : (inTurn turn i as w).1 = w := by
  cases as with
  | nil => rfl
  | cons a as =>
    obtain ⟨failure, hturn, -⟩ := (turns i a).refused h
    rw [inTurn, hturn]
    rfl

theorem inTurn_leaves (as : List α) : Leaves (inTurn turn i as w) := by
  induction as generalizing i w with
  | nil => exact leaves_of_none rfl
  | cons a as ih => exact ((turns i a).leaves w).andThen fun _ => ih

theorem deferring_refused (as : List α) (h : w.Pending) :
    (deferring turn i as w).1 = w ∧ .publication ∉ (deferring turn i as w).2 := by
  induction as generalizing i with
  | nil => exact ⟨rfl, List.not_mem_nil⟩
  | cons a as ih =>
    obtain ⟨failure, hturn, hne⟩ := (turns i a).refused h
    obtain ⟨hsame, hnot⟩ := ih (i := i + 1)
    rw [deferring, hturn]
    refine ⟨hsame, fun hmem => ?_⟩
    rcases List.mem_cons.1 hmem with hmem | hmem
    · exact hne hmem.symm
    · exact hnot hmem

theorem deferring_leaves (as : List α) (h : .publication ∈ (deferring turn i as w).2) :
    (deferring turn i as w).1.Pending := by
  induction as generalizing i w with
  | nil => cases h
  | cons a as ih =>
    have hleaves := (turns i a).leaves w
    rw [deferring] at h ⊢
    generalize turn i a w = result at h hleaves ⊢
    obtain ⟨w', failure⟩ := result
    rcases List.mem_append.1 h with hmem | hmem
    · have hpending : w'.Pending := hleaves (Option.mem_toList.1 hmem)
      dsimp only
      rw [(deferring_refused turns as hpending).1]
      exact hpending
    · exact ih hmem

end

/-! ### The operations -/

theorem thrown_leaves (h : Leaves result) (hmem : .publication ∈ (thrown result).2) :
    (thrown result).1.Pending :=
  h (Option.mem_toList.1 hmem)

theorem Turns.thrown_refused {turn : World → World × Option Failure} (turns : Turns turn)
    (h : w.Pending) : (thrown (turn w)).1 = w := by
  obtain ⟨failure, hturn, -⟩ := turns.refused h
  rw [hturn]
  rfl

section
variable (refuses : RefusesWhilePending mls) {fingerprint : Bytes → String}
include refuses

/-- While a commit is pending, no operation changes anything. -/
theorem run_of_pending (operation : Operation) (h : w.Pending) :
    (operation.run mls fingerprint answers w).1 = w := by
  cases operation with
  | startConversation => exact inTurn_refused (inviteDevice_turns refuses) _ h
  | addAccount => exact inTurn_refused (addDevice_turns refuses) _ h
  | addMissingDevices => exact (deferring_refused (addDevice_turns refuses) _ h).1
  | reconcileMembers => exact (deferring_refused (removeDevice_turns refuses) _ h).1
  | removeAccount => exact inTurn_refused (removeDevice_turns refuses) _ h
  | setRoles => exact (setRoles_turns refuses).thrown_refused h
  | setLifetime => exact (setLifetime_turns refuses).thrown_refused h

/-- What an operation could not publish is pending when it ends. -/
theorem pending_of_run (operation : Operation)
    (h : .publication ∈ (operation.run mls fingerprint answers w).2) :
    (operation.run mls fingerprint answers w).1.Pending := by
  cases operation with
  | startConversation => exact thrown_leaves (inTurn_leaves (inviteDevice_turns refuses) _) h
  | addAccount => exact thrown_leaves (inTurn_leaves (addDevice_turns refuses) _) h
  | addMissingDevices => exact deferring_leaves (addDevice_turns refuses) _ h
  | reconcileMembers => exact deferring_leaves (removeDevice_turns refuses) _ h
  | removeAccount => exact thrown_leaves (inTurn_leaves (removeDevice_turns refuses) _) h
  | setRoles => exact thrown_leaves ((setRoles_turns refuses).leaves w) h
  | setLifetime => exact thrown_leaves ((setLifetime_turns refuses).leaves w) h

omit refuses in
/-- Receiving takes a pending commit back only when it moves the group. -/
theorem pendingCommit_of_process {conversation received : Conversation}
    (h : conversation.process mls message context = .ok (incoming, received))
    (hkind : incoming ≠ .groupChanged) :
    received.pendingCommit = conversation.pendingCommit := by
  obtain ⟨credential, content⟩ := message
  cases content with
  | application | proposal | externalJoinProposal =>
    cases h
    rfl
  | stagedCommit commit =>
    exact absurd (Conversation.process_stagedCommit_iff.1 h).2.1 hkind

theorem not_usable_of_pending (h : w.Pending) : ¬ Usable mls fingerprint w := by
  intro usable
  induction usable with
  | @commits answers operation w hepoch =>
    rw [run_of_pending refuses operation h] at hepoch
    exact Nat.lt_irrefl _ hepoch
  | @later answers operation w _ ih =>
    rw [run_of_pending refuses operation h] at ih
    exact ih h
  | @received w message context incoming conversation hprocess hkind _ ih =>
    refine ih ?_
    rw [World.Pending, pendingCommit_of_process hprocess hkind]
    exact h

/-- After any failure of a request between the building of a commit and its application, no commit
is built any more. -/
theorem publication_failed (operation : Operation)
    (h : .publication ∈ (operation.run mls fingerprint answers w).2) :
    ¬ (Intact w (operation.run mls fingerprint answers w).1 ∧
      Usable mls fingerprint (operation.run mls fingerprint answers w).1) :=
  fun hgood => not_usable_of_pending refuses (pending_of_run refuses operation h) hgood.2

end

end

/-! ## A device whose row could not be added -/

/-- Alice's phone, as attested. -/
def phone : AttestedDevice :=
  ⟨"phone", [], (device "alice" 4).signatureKey, [], none, none, none⟩

/-- The conversation of `halfCached`, with a browser of Alice. -/
def withBob : World where
  conversation := halfCached.conversation
  epoch := 2
  peers := []
  mine := []
  mailbox := []
  distribution := ["browser"]

/-- Every request is answered, but the one that adds the device. -/
def notAdded : Answers where
  claimKeyPackage _ := some (device "alice" 4)
  addMembers _ := .refused
  postCommit := .stored
  postWelcome := .stored
  removeGroupMembers _ := .answered

theorem publication_failed_notAdded :
    ¬ (Intact withBob (addMissingDevices openMls notAdded (fun _ => "") [phone] withBob).1 ∧
      Usable openMls (fun _ => "")
        (addMissingDevices openMls notAdded (fun _ => "") [phone] withBob).1) :=
  publication_failed openMls_refuses (.addMissingDevices [phone]) (List.mem_singleton.2 rfl)

/-- The request is refused, the adding is put off, and nothing is ever added again. -/
theorem never_added :
    (addMissingDevices openMls notAdded (fun _ => "") [phone] withBob).2 = [.publication] ∧
      ¬ Usable openMls (fun _ => "")
        (addMissingDevices openMls notAdded (fun _ => "") [phone] withBob).1 :=
  ⟨rfl, not_usable_of_pending openMls_refuses rfl⟩

end Whispee.Session.Publish
