import Whispee.Lib.Transition
import Whispee.Session.Reopen

/-!
# The course of a session

What `Session` does to the state that `composeStored` writes, from the registration of a device on
through every reopening, and `roundTrips_iff`: which of the states on the way come back from their
record.
-/

namespace Whispee.Session.Hydrate

open Transition
open Wire (Content)

/-! ## Steps -/

/-- The view of a group that was created or joined. -/
def View.opened (key groupId : String) (cursor : Nat) (postingKey : Option Bytes) : View where
  groupId
  key
  messages := []
  outbox := []
  cursor
  postingKey
  readCursor := 0
  contentCursor := 0

/-- `absorb`, of an application message: a control message is kept out of the thread, and one that
is past its deadline moves the content cursor only. -/
def View.absorb (now lifetime seq : Nat) (sender : Option String) (plaintext : Bytes)
    (view : View) : View :=
  match Wire.decode now (.whole plaintext) with
  | .error _ => view
  | .ok ⟨body, sentAt⟩ =>
    if Wire.isControl body then
      match body with
      | .postingKey key => { view with postingKey := view.postingKey <|> some key }
      | _ => view
    else
      let expiresAt := expiryOf sentAt now lifetime
      let view := { view with contentCursor := max view.contentCursor seq }
      if expiresAt.any (· ≤ (now : Rat)) then view
      else { view with
        messages := view.messages ++ [⟨seq, sender, false, sentAt, expiresAt, body⟩] }

def View.advance (seq : Nat) (view : View) : View := { view with cursor := max view.cursor seq }

/-- `send`, before the message leaves. -/
def View.send (pending : Pending) (view : View) : View :=
  { view with outbox := view.outbox ++ [pending] }

/-- `flush`, where it sets the state of a queued message. -/
def View.flush (localId : String) (state : PendingState) (view : View) : View :=
  { view with outbox := view.outbox.map fun queued =>
      if queued.localId = localId then { queued with state } else queued }

def View.discard (localId : String) (view : View) : View :=
  { view with outbox := view.outbox.filter (·.localId ≠ localId) }

/-- `sendContent`, once the envelope is posted. -/
def View.sendContent (deviceId : String) (now lifetime seq : Nat) (body : Content) (sentAt : Rat)
    (view : View) : View :=
  if Wire.isControl body then view
  else { view with messages := view.messages ++
      [⟨seq, some deviceId, true, some sentAt, expiryOf (some sentAt) now lifetime, body⟩] }

def View.restoreHistory (added : List Message) (view : View) : View :=
  { view with messages := view.messages ++ added }

def View.markRead (view : View) : View :=
  { view with readCursor := max view.readCursor view.contentCursor }

def View.dropExpired (now : Nat) (view : View) : View :=
  { view with messages := prune view.messages now }

/-- The steps. What is neither a group nor a conversation may become anything in `settled`; a group
that the client has joined or created is one of the session only once it is `opened`. -/
inductive Event where
  | settled (next : Live)
  | ratcheted (state : Bytes)
  | grouped (groupId : String)
  | opened (key groupId : String) (cursor : Nat) (postingKey : Option Bytes)
  | absorbed (key : String) (now lifetime seq : Nat) (sender : Option String) (plaintext : Bytes)
  | advanced (key : String) (seq : Nat)
  | queued (key : String) (pending : Pending)
  | flushed (key localId : String) (state : PendingState)
  | discarded (key localId : String)
  | posted (key : String) (now lifetime seq : Nat) (body : Content) (sentAt : Rat)
  | restored (key : String) (added : List Message)
  | read (key : String)
  | expired (now : Nat)
  | dropped (key : String)
  | reopened (o : Opening)

def Live.onView (s : Live) (key : String) (f : View → View) : Option Live :=
  (s.conversations.get? key).map fun view =>
    { s with conversations := s.conversations.set key (f view) }

variable (number : Rat → List Char)

def step (s : Live) : Event → Option Live
  | .settled next => some { next with
      accountId := s.accountId
      client := s.client
      conversations := s.conversations }
  | .ratcheted state => some { s with client := { s.client with state } }
  | .grouped groupId =>
    if groupId ∈ s.client.conversations then none
    else some { s with client :=
      { s.client with conversations := s.client.conversations ++ [groupId] } }
  | .opened key groupId cursor postingKey =>
    if groupId ∈ s.client.conversations ∧ s.conversations.has key = false ∧
        ∀ bytes ∈ postingKey, bytes.length = 32 then
      some { s with conversations :=
        s.conversations.set key (.opened key groupId cursor postingKey) }
    else none
  | .absorbed key now lifetime seq sender plaintext =>
    s.onView key (.absorb now lifetime seq sender plaintext)
  | .advanced key seq => s.onView key (.advance seq)
  | .queued key pending => s.onView key (.send pending)
  | .flushed key localId state => s.onView key (.flush localId state)
  | .discarded key localId => s.onView key (.discard localId)
  | .posted key now lifetime seq body sentAt =>
    match Wire.encode number body (some sentAt) with
    | .error _ => none
    | .ok _ => s.onView key (.sendContent s.deviceId now lifetime seq body sentAt)
  | .restored key added => s.onView key (.restoreHistory added)
  | .read key => s.onView key .markRead
  | .expired now => some { s with conversations := s.conversations.map (.dropExpired now) }
  | .dropped key => some { s with conversations := s.conversations.erase key }
  | .reopened o =>
    if (o.conversationIds s.client.conversations).isPerm s.client.conversations then
      (composeStored number s).toOption.bind fun stored =>
        (openSession o stored).toOption.bind id
    else none

/-- A device that has just been registered: no group yet, and the account id is one. -/
structure Live.Attached (s : Live) : Prop where
  account : isAccountId s.accountId = true
  groups : s.client.conversations = []
  conversations : s.conversations = ∅

/-- What a session comes to, from the registration of its device on. -/
def Reached (s : Live) : Prop :=
  ∃ s₀ : Live, s₀.Attached ∧ Reach (step number) (fun _ _ => True) s₀ s

variable {number} {s s' : Live} {o : Opening}

/-! ## What every step keeps -/

/-- A conversation is filed under its own key, and a posting key is as long as one. -/
def View.Filed (key : String) (view : View) : Prop :=
  view.key = key ∧ ∀ postingKey, view.postingKey = some postingKey → postingKey.length = 32

theorem Live.Valid.filed (hv : s.Valid) (hget : s.conversations.get? key = some view) :
    view.Filed key :=
  ⟨hv.keys key view hget, fun postingKey => hv.postingKeys key view postingKey hget⟩

theorem Live.Valid.of_filed (haccount : isAccountId s.accountId = true)
    (hgroups : s.client.conversations.Nodup)
    (hfiled : ∀ key view, s.conversations.get? key = some view → view.Filed key) : s.Valid :=
  ⟨haccount, hgroups, fun key view hget => (hfiled key view hget).1,
    fun key view postingKey hget => (hfiled key view hget).2 postingKey⟩

theorem Live.Attached.valid (h : s.Attached) : s.Valid := by
  refine .of_filed h.account (h.groups ▸ List.nodup_nil) fun key view hget => ?_
  rw [h.conversations] at hget
  cases hget

theorem onView_valid {f : View → View} (hf : ∀ view, view.Filed key → (f view).Filed key)
    (hv : s.Valid) (h : s.onView key f = some s') : s'.Valid := by
  obtain ⟨view, hget, rfl⟩ := Option.map_eq_some_iff.1 h
  refine .of_filed hv.account hv.groups fun k w hw => ?_
  rw [Dictionary.get?_set] at hw
  split at hw
  · rename_i hk
    cases hw
    exact hk ▸ hf view (hv.filed hget)
  · exact hv.filed hw

theorem filed_absorb (h : view.Filed key) :
    (View.absorb now lifetime seq sender plaintext view).Filed key := by
  unfold View.absorb
  split
  · exact h
  · rename_i body sentAt hdecode
    split
    · split
      · refine ⟨h.1, fun postingKey hkey => ?_⟩
        dsimp only at hkey
        cases hheld : view.postingKey with
        | none =>
          rw [hheld] at hkey
          cases hkey
          exact Wire.length_of_decode hdecode
        | some held =>
          rw [hheld] at hkey
          exact h.2 postingKey (hheld.trans hkey)
      · exact h
    · dsimp only
      split <;> exact h

theorem filed_sendContent (h : view.Filed key) :
    (View.sendContent deviceId now lifetime seq body sentAt view).Filed key := by
  unfold View.sendContent
  split <;> exact h

theorem filed_stampAndPrune (h : view.Filed key) : (stampAndPrune o state view).Filed key := by
  rw [stampAndPrune_eq]
  exact h

theorem openSession_valid (hv : s.Valid)
    (hids : (o.conversationIds s.client.conversations).Perm s.client.conversations)
    (hstored : composeStored number s = .ok stored) (h : openSession o stored = .ok (some s')) :
    s'.Valid := by
  obtain ⟨history, hhistory, rfl⟩ := composeStored_eq_ok_iff.1 hstored
  obtain ⟨s'', hopen, hslices, _, hgroups, _, hviews⟩ := openSession_storedWith (o := o) hv hhistory
  cases Option.some.inj (Except.ok.inj (h.symm.trans hopen))
  refine .of_filed ?_ (hgroups ▸ hids.nodup_iff.2 hv.groups) fun key view hget => ?_
  · have haccount := congrArg Live.accountId hslices
    dsimp only at haccount
    exact haccount ▸ hv.account
  · rw [hviews] at hget
    split at hget
    · cases hget
      refine filed_stampAndPrune ⟨rfl, fun postingKey hkey => ?_⟩
      obtain ⟨view, hview, hkey⟩ := Option.bind_eq_some_iff.1 hkey
      exact hv.postingKeys key view postingKey hview hkey
    · cases hget

theorem step_valid (hv : s.Valid) (h : step number s e = some s') : s'.Valid := by
  cases e with
  | settled next =>
    cases h
    exact ⟨hv.account, hv.groups, hv.keys, hv.postingKeys⟩
  | ratcheted state =>
    cases h
    exact ⟨hv.account, hv.groups, hv.keys, hv.postingKeys⟩
  | grouped groupId =>
    rw [step] at h
    split at h
    · cases h
    · rename_i hfresh
      cases h
      exact ⟨hv.account, List.nodup_append_comm.1 (List.nodup_cons.2 ⟨hfresh, hv.groups⟩), hv.keys,
        hv.postingKeys⟩
  | opened key groupId cursor postingKey =>
    rw [step] at h
    split at h
    · rename_i hopen
      cases h
      refine .of_filed hv.account hv.groups fun k w hw => ?_
      rw [Dictionary.get?_set] at hw
      split at hw
      · rename_i hk
        cases hw
        exact ⟨hk.symm, fun bytes hbytes => hopen.2.2 bytes hbytes⟩
      · exact hv.filed hw
    · cases h
  | absorbed key now lifetime seq sender plaintext =>
    exact onView_valid (fun _ => filed_absorb) hv h
  | posted key now lifetime seq body sentAt =>
    rw [step] at h
    split at h
    · cases h
    · exact onView_valid (fun _ => filed_sendContent) hv h
  | advanced key seq => exact onView_valid (f := .advance seq) (fun _ hview => hview) hv h
  | queued key pending => exact onView_valid (f := .send pending) (fun _ hview => hview) hv h
  | flushed key localId state =>
    exact onView_valid (f := .flush localId state) (fun _ hview => hview) hv h
  | discarded key localId => exact onView_valid (f := .discard localId) (fun _ hview => hview) hv h
  | restored key added =>
    exact onView_valid (f := .restoreHistory added) (fun _ hview => hview) hv h
  | read key => exact onView_valid (f := .markRead) (fun _ hview => hview) hv h
  | expired now =>
    cases h
    refine .of_filed hv.account hv.groups fun k w hw => ?_
    rw [Dictionary.get?_map] at hw
    obtain ⟨view, hview, rfl⟩ := Option.map_eq_some_iff.1 hw
    exact (hv.filed hview :)
  | dropped key =>
    cases h
    refine .of_filed hv.account hv.groups fun k w hw => ?_
    rw [Dictionary.get?_erase] at hw
    split at hw
    · cases hw
    · exact hv.filed hw
  | reopened o =>
    rw [step] at h
    split at h
    · rename_i hids
      obtain ⟨stored, hstored, h⟩ := Option.bind_eq_some_iff.1 h
      obtain ⟨opened, hopened, h⟩ := Option.bind_eq_some_iff.1 h
      cases h
      exact openSession_valid hv (List.isPerm_iff.1 hids) (Fallible.toOption_eq_some hstored)
        (Fallible.toOption_eq_some hopened)
    · cases h

theorem Reached.valid (h : Reached number s) : s.Valid := by
  obtain ⟨s₀, hs₀, hreach⟩ := h
  exact hreach.invariant hs₀.valid fun hv _ hstep => step_valid hv hstep

/-! ## Coming back -/

/-- A message of the thread, with everything in the range that is documented for it. -/
structure Message.Documented (now : Nat) (m : Message) : Prop where
  content : m.content.Documented now
  shown : Wire.isControl m.content = false
  sentAt : ∀ t ∈ m.sentAt, Wire.Whole (2 ^ 53) t

theorem Message.Documented.encodes (number : Rat → List Char) {m : Message}
    (h : m.Documented now) :
    ∃ bytes, Wire.encode number m.content m.sentAt = .ok bytes := by
  obtain ⟨inner, hinner⟩ : ∃ inner, Wire.encodeBody number m.content = .ok inner := by
    have hcontent := h.content
    have hshown := h.shown
    cases hbody : m.content with
    | text s => exact ⟨_, rfl⟩
    | attachment ref => exact ⟨_, rfl⟩
    | call event call seconds => exact ⟨_, rfl⟩
    | membership event handle => exact ⟨_, rfl⟩
    | expiry seconds => exact ⟨_, rfl⟩
    | reaction target s | reply target s =>
      rw [hbody] at hcontent
      obtain ⟨n, _, rfl⟩ := hcontent
      exact ⟨_, rfl⟩
    | gossip | postingKey | receipt | profile | handle | signals =>
      rw [hbody] at hshown
      cases hshown
  rw [Wire.encode, hinner]
  cases m.sentAt with
  | none => exact ⟨inner, rfl⟩
  | some t =>
    change ∃ bytes, (if Wire.isControl m.content then _ else _) = _
    rw [h.shown]
    exact ⟨_, rfl⟩

theorem Message.Documented.lasting_iff {m : Message} (hnumber : Wire.WritesWhole number)
    (h : m.Documented now) :
    m.Lasting number now ↔ ∀ text ∈ m.content.texts, ¬ Wire.BeginsWithMark text := by
  obtain ⟨bytes, hbytes⟩ := h.encodes number
  have hdecode := Wire.decode_encode (v := .whole bytes) hnumber h.content
    (fun t ht => (h.sentAt t ht).stamp)
    (by rw [View.items_whole]; exact hbytes)
  rw [h.shown, if_neg Bool.false_ne_true] at hdecode
  rw [← Wire.Content.received_eq_iff]
  constructor
  · rintro ⟨again, hagain, hback⟩
    cases Except.ok.inj (hbytes.symm.trans hagain)
    exact congrArg Wire.Stamped.body (Except.ok.inj (hdecode.symm.trans hback))
  · intro hsame
    exact ⟨bytes, hbytes, by rw [hdecode, hsame]⟩

/-- A session that is reached, and none of whose messages has met its deadline meanwhile, comes back
from its record if and only if it is restorable; and of a message the codec returns everything if
and only if no text of it begins with a byte order mark. -/
theorem roundTrips_iff (hnumber : Wire.WritesWhole number) :
    (∀ {s : Live} {o : Opening}, Reached number s → s.Alive o →
      (∀ ids, (o.conversationIds ids).Perm ids) →
      (RoundTrips number o s ↔ s.Restorable number o)) ∧
    ∀ {now : Nat} {m : Message}, m.Documented now →
      (m.Lasting number now ↔ ∀ text ∈ m.content.texts, ¬ Wire.BeginsWithMark text) :=
  ⟨fun hs halive hids => roundTrips_iff_restorable hs.valid halive hids,
    fun h => h.lasting_iff hnumber⟩

/-! ## Two courses -/

def newDevice : Live where
  deviceId := "00000000000000000000000000000000:desktop"
  accountId := "00000000000000000000000000000000"
  handle := "alice"
  accountSeed := []
  client := ⟨[], []⟩
  lockbox := none
  archive := true
  conversations := ∅
  trust := ⟨∅, ∅⟩
  signals := ⟨true, true, none, true⟩
  signalsAt := none
  prefStamps := ∅
  settings := ⟨⟨∅, ∅, [], [], none, none, none⟩, false⟩
  names := .empty
  witness := none

theorem attached_newDevice : newDevice.Attached := ⟨by decide +kernel, rfl, rfl⟩

/-- `hi`, stamped with one second. -/
def greeting : Bytes := [7, 0, 0, 0, 0, 0, 0, 3, 232, 0, 0x68, 0x69]

/-- A greeting arrives in a group whose messages live for so long, and is read. -/
def greeted (lifetime : Nat) (more : List Event) : List Event :=
  [.grouped "6767", .opened "6767" "6767" 1 none,
    .absorbed "6767" 2000 lifetime 2 (some "peer") greeting, .advanced "6767" 2,
    .read "6767"] ++ more

def laterOpening (lifetime : Nat) : Opening where
  now := 80000
  importsVaultKey := true
  conversationIds := id
  lifetimeSeconds := fun _ _ => some lifetime

def greetingMessage : Message := ⟨2, some "peer", false, some 1000, none, .text "hi"⟩

def greetedView : View where
  groupId := "6767"
  key := "6767"
  messages := [greetingMessage]
  outbox := [⟨"local", "later", 3000, .sending⟩]
  cursor := 2
  postingKey := none
  readCursor := 2
  contentCursor := 2

def greetedSession : Live :=
  { newDevice with
    client := ⟨[], ["6767"]⟩
    conversations := ⟨[("6767", greetedView)], List.nodup_singleton _⟩ }

theorem get?_greetedSession (h : greetedSession.conversations.get? key = some view) :
    key = "6767" ∧ view = greetedView := by
  have hentry := Dictionary.get?_eq_some_iff.1 h
  rw [greetedSession, List.mem_singleton] at hentry
  exact ⟨congrArg Prod.fst hentry, congrArg Prod.snd hentry⟩

theorem documented_greetingMessage : greetingMessage.Documented now :=
  ⟨trivial, rfl, fun _ ht => ⟨1000, by decide, (Option.some.inj ht).symm⟩⟩

/-- A session with a message that was read and one that is queued comes back. -/
theorem roundTrips_greetedSession :
    RoundTrips Wire.wholeNumber (laterOpening 0) greetedSession := by
  have hreached : Reached Wire.wholeNumber greetedSession :=
    ⟨newDevice, attached_newDevice,
      reach_of_run (show run _ _ (greeted 0
        [.queued "6767" ⟨"local", "later", 3000, .sending⟩]) = some _ from rfl)⟩
  have hmessage : ∀ {key view m}, greetedSession.conversations.get? key = some view →
      m ∈ recent view.messages → m = greetingMessage := by
    intro key view m hget hm
    obtain ⟨rfl, rfl⟩ := get?_greetedSession hget
    exact List.mem_singleton.1 hm
  have halive : greetedSession.Alive (laterOpening 0) := by
    intro key view hget m hm
    rw [hmessage hget hm]
    rfl
  have hgroup : greetedSession.conversations.has "6767" = true := rfl
  refine ((roundTrips_iff Wire.writesWhole_wholeNumber).1 hreached halive fun _ => .refl _).2
    ⟨fun key => ?_, fun key view hget => ?_, fun key view hget _ => ?_,
      fun key view hget hlifetime => absurd rfl hlifetime, fun key view hget m hm => ?_,
      fun _ => rfl⟩
  · constructor
    · intro hkey
      rw [List.mem_singleton.1 hkey, hgroup]
    · intro hhas
      obtain ⟨view, hget⟩ := Option.isSome_iff_exists.1 hhas
      rw [(get?_greetedSession hget).1]
      exact List.mem_singleton.2 rfl
  · obtain ⟨rfl, rfl⟩ := get?_greetedSession hget
    rfl
  · obtain ⟨rfl, rfl⟩ := get?_greetedSession hget
    exact .inl (List.cons_ne_nil _ _)
  · rw [hmessage hget hm]
    refine ((roundTrips_iff Wire.writesWhole_wholeNumber).2 documented_greetingMessage).2 ?_
    intro text htext
    rw [List.mem_singleton.1 htext]
    decide

/-- Of a conversation whose messages are gone the read cursor is lost, although it is written. -/
theorem read_cursor_lost : ∃ s : Live, Reached Wire.wholeNumber s ∧ s.Alive (laterOpening 60) ∧
    (s.conversations.entries.map fun (key, view) =>
      (key, view.messages.length, view.outbox.length, view.readCursor)) = [("6767", 0, 0, 2)] ∧
    ¬ RoundTrips Wire.wholeNumber (laterOpening 60) s := by
  have hrun : ((run (step Wire.wholeNumber) newDevice (greeted 60 [.expired 70000])).map fun s =>
      s.conversations.entries.map fun (key, view) =>
        (key, view.messages.length, view.outbox.length, view.readCursor)) =
      some [("6767", 0, 0, 2)] := by decide +kernel
  obtain ⟨s, hs, hentries⟩ := Option.map_eq_some_iff.1 hrun
  have hreached : Reached Wire.wholeNumber s :=
    ⟨newDevice, attached_newDevice, reach_of_run hs⟩
  obtain ⟨⟨key, view⟩, hentry, hview⟩ := List.map_eq_singleton_iff.1 hentries
  dsimp only at hview
  rw [Prod.mk.injEq, Prod.mk.injEq, Prod.mk.injEq] at hview
  obtain ⟨rfl, hmessages, houtbox, hread⟩ := hview
  have hget : s.conversations.get? "6767" = some view :=
    Dictionary.get?_eq_some_iff.2 (hentry ▸ List.mem_singleton.2 rfl)
  have halive : s.Alive (laterOpening 60) := by
    intro k w hw m hm
    have hmem := Dictionary.get?_eq_some_iff.1 hw
    rw [hentry, List.mem_singleton] at hmem
    cases hmem
    rw [List.eq_nil_of_length_eq_zero hmessages] at hm
    cases hm
  refine ⟨s, hreached, halive, hentries, fun h => ?_⟩
  have hrestorable :=
    (roundTrips_iff_restorable hreached.valid halive fun _ => .refl _).1 h
  rcases hrestorable.read "6767" view hget (by omega) with hne | hne
  · exact hne (List.eq_nil_of_length_eq_zero hmessages)
  · exact hne (List.eq_nil_of_length_eq_zero houtbox)

end Whispee.Session.Hydrate
