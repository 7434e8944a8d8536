import Whispee.Session.Hydrate

/-!
# What a reopened session is

`roundTrips_iff_restorable` says when a session comes back from its record: every slice does, and of
the conversations those of the groups the client holds, with the messages that the content codec
returns, the deadlines that are there, and the read cursors of the ones that hold something.
-/

namespace Whispee.Session.Hydrate

open Wire (Content Thrown Stamped)
open Fallible

/-! ## What should come back -/

/-- A conversation as it is kept: its most recent messages, and what is queued as failed. -/
def View.settled (view : View) : View :=
  { view with
    messages := recent view.messages
    outbox := view.outbox.map Pending.fail
    contentCursor := 0 }

/-- The session `s'` is `s` in everything that is persisted. -/
structure Live.Rebuilt (s s' : Live) : Prop where
  slices : { s' with client := s.client, conversations := s.conversations } = s
  state : s'.client.state = s.client.state
  groups : s'.client.conversations.Perm s.client.conversations
  views : ∀ key, s'.conversations.get? key = (s.conversations.get? key).map View.settled

/-- The record `again` is `stored`, but for the messages that were in flight. -/
structure StoredSession.Same (stored again : StoredSession) : Prop where
  slices : { again with
    groupIds := stored.groupIds
    cursors := stored.cursors
    postingKeys := stored.postingKeys
    history := stored.history } = stored
  groupIds : again.groupIds.Perm stored.groupIds
  cursors : ∀ key, (again.cursors.getD ∅).get? key = (stored.cursors.getD ∅).get? key
  postingKeys : ∀ key, (again.postingKeys.getD ∅).get? key = (stored.postingKeys.getD ∅).get? key
  history : ∃ h h', stored.history = some h ∧ again.history = some h' ∧ ∀ key,
    h'.conversations.get? key = h.conversations.get? key ∧
    h'.outbox.get? key = (h.outbox.get? key).map (·.map Pending.fail) ∧
    h'.read.get? key = h.read.get? key

/-- The session is written, opens as what it was, and is written again as the same record. -/
def RoundTrips (number : Rat → List Char) (o : Opening) (s : Live) : Prop :=
  ∃ stored s', composeStored number s = .ok stored ∧ openSession o stored = .ok (some s') ∧
    s.Rebuilt s' ∧ ∃ again, composeStored number s' = .ok again ∧ stored.Same again

/-! ## When it does -/

/-- What every step of a session keeps: the identifiers are well formed, a group is listed once, a
conversation is filed under its own key, and a posting key is as long as one. -/
structure Live.Valid (s : Live) : Prop where
  account : isAccountId s.accountId = true
  groups : s.client.conversations.Nodup
  keys : ∀ key view, s.conversations.get? key = some view → view.key = key
  postingKeys : ∀ key view postingKey, s.conversations.get? key = some view →
    view.postingKey = some postingKey → postingKey.length = 32

/-- No deadline of a message that is kept has passed when the session is opened. -/
def Live.Alive (o : Opening) (s : Live) : Prop :=
  ∀ key view, s.conversations.get? key = some view → ∀ m ∈ recent view.messages,
    isExpired m o.now = false

/-- The content and the time of a message come back from the codec. -/
def Message.Lasting (number : Rat → List Char) (now : Nat) (m : Message) : Prop :=
  ∃ bytes, Wire.encode number m.content m.sentAt = .ok bytes ∧
    Wire.decode now (.whole bytes) = .ok ⟨m.content, m.sentAt⟩

structure Live.Restorable (number : Rat → List Char) (o : Opening) (s : Live) : Prop where
  /-- The client holds the groups of the conversations and no other. -/
  groups : ∀ key, key ∈ s.client.conversations ↔ s.conversations.has key
  named : ∀ key view, s.conversations.get? key = some view → view.groupId = key
  /-- What has been read of a conversation is something that is still there. -/
  read : ∀ key view, s.conversations.get? key = some view →
    view.readCursor ≠ 0 → view.messages ≠ [] ∨ view.outbox ≠ []
  /-- Where messages have a lifetime now, each that has a time has its deadline. -/
  deadlines : ∀ key view, s.conversations.get? key = some view →
    (o.lifetimeSeconds s.client.state key).getD 0 ≠ 0 →
      ∀ m ∈ recent view.messages, m.expiresAt = none → m.sentAt = none
  lasting : ∀ key view, s.conversations.get? key = some view →
    ∀ m ∈ recent view.messages, m.Lasting number o.now
  /-- A vault that is on can be opened. -/
  vault : s.archive = true → o.importsVaultKey = true

variable {number : Rat → List Char} {o : Opening} {s s' : Live}

/-! ## The tail of a conversation -/

instance : IsTrans Message (·.seq ≤ ·.seq) := ⟨fun _ _ _ => Nat.le_trans⟩

instance : Std.Total fun m m' : Message => m.seq ≤ m'.seq := ⟨fun m m' => Nat.le_total m.seq m'.seq⟩

theorem recent_pairwise (messages : List Message) :
    (recent messages).Pairwise (·.seq ≤ ·.seq) :=
  (List.pairwise_insertionSort _ messages).sublist (List.drop_sublist _ _)

theorem length_recent (messages : List Message) :
    (recent messages).length = min messages.length RECENT_PER_CONVERSATION := by
  rw [recent, List.length_drop, List.length_insertionSort]
  omega

theorem recent_recent (messages : List Message) : recent (recent messages) = recent messages := by
  have hlength := length_recent messages
  rw [recent, (recent_pairwise messages).insertionSort_eq, Nat.sub_eq_zero_of_le (by omega),
    List.drop_zero]

theorem recent_eq_nil_iff {messages : List Message} : recent messages = [] ↔ messages = [] := by
  rw [← List.length_eq_zero_iff, ← List.length_eq_zero_iff, length_recent, RECENT_PER_CONVERSATION]
  omega

/-! ## One message there and back -/

/-- What a message is read back as, if it is. -/
def Message.reread (number : Rat → List Char) (now : Nat) (m : Message) : Option Message :=
  (encodeMessage number m).toOption.bind (decodeMessage now)

theorem reread_eq_some_iff {m m' : Message} : m.reread number now = some m' ↔
    ∃ bytes, Wire.encode number m.content m.sentAt = .ok bytes ∧
      ∃ content sentAt, Wire.decode now (.whole bytes) = .ok ⟨content, sentAt⟩ ∧
        m' = { m with content, sentAt } := by
  unfold Message.reread encodeMessage decodeMessage
  cases hencode : Wire.encode number m.content m.sentAt with
  | error thrown => simp [Except.toOption, bind, Except.bind]
  | ok bytes =>
    cases hdecode : Wire.decode now (.whole bytes) with
    | error thrown =>
      simp [Except.toOption, bind, Except.bind, pure, Except.pure, hdecode]
    | ok stamped =>
      obtain ⟨body, sentAt⟩ := stamped
      simp [Except.toOption, bind, Except.bind, pure, Except.pure, hdecode, eq_comm]

theorem reread_eq_self_iff {m : Message} : m.reread number now = some m ↔ m.Lasting number now := by
  rw [reread_eq_some_iff]
  constructor
  · rintro ⟨bytes, hencode, content, sentAt, hdecode, heq⟩
    rw [Message.mk.injEq] at heq
    obtain ⟨_, _, _, hsent, _, hcontent⟩ := heq
    exact ⟨bytes, hencode, by rw [hdecode, ← hsent, ← hcontent]⟩
  · rintro ⟨bytes, hencode, hdecode⟩
    exact ⟨bytes, hencode, m.content, m.sentAt, hdecode, rfl⟩

/-- A message that has been read is given a deadline, and dropped if that has passed. -/
def Message.onOpen (o : Opening) (lifetime : Nat) (m : Message) : Option Message :=
  if lifetime = 0 then some m
  else if isExpired (stampMissing o lifetime m) o.now then none
  else some (stampMissing o lifetime m)

def Message.reopened (number : Rat → List Char) (o : Opening) (lifetime : Nat) (m : Message) :
    Option Message :=
  (m.reread number o.now).bind (Message.onOpen o lifetime)

theorem stampMissing_eq_self_iff {m : Message} (hlifetime : lifetime ≠ 0) :
    stampMissing o lifetime m = m ↔ (m.expiresAt = none → m.sentAt = none) := by
  obtain ⟨seq, sender, mine, sentAt, expiresAt, content⟩ := m
  cases expiresAt with
  | some at_ => simp [stampMissing]
  | none => simp [stampMissing, expiryOf, hlifetime]

theorem stampMissing_frame (lifetime : Nat) (m : Message) :
    (stampMissing o lifetime m).content = m.content ∧
      (stampMissing o lifetime m).sentAt = m.sentAt := by
  unfold stampMissing
  split <;> exact ⟨rfl, rfl⟩

theorem reopened_eq_self_iff {m : Message} (halive : isExpired m o.now = false) :
    m.reopened number o lifetime = some m ↔
      m.Lasting number o.now ∧ (lifetime ≠ 0 → m.expiresAt = none → m.sentAt = none) := by
  rw [Message.reopened, ← reread_eq_self_iff]
  by_cases hlifetime : lifetime = 0
  · rw [and_iff_left (fun hne => absurd hlifetime hne)]
    have honOpen : Message.onOpen o lifetime = some := funext fun m => if_pos hlifetime
    rw [honOpen, Option.bind_fun_some]
  · constructor
    · intro h
      obtain ⟨m', hreread, hopened⟩ := Option.bind_eq_some_iff.1 h
      rw [Message.onOpen, if_neg hlifetime] at hopened
      split at hopened
      · cases hopened
      · have hself := Option.some.inj hopened
        obtain ⟨_, _, content, sentAt, _, rfl⟩ := reread_eq_some_iff.1 hreread
        have hframe := stampMissing_frame (o := o) lifetime { m with content, sentAt }
        rw [hself] at hframe
        dsimp only at hframe
        obtain ⟨rfl, rfl⟩ := hframe
        exact ⟨hreread, fun _ => (stampMissing_eq_self_iff hlifetime).1 hself⟩
    · rintro ⟨hreread, hdeadline⟩
      have hself := (stampMissing_eq_self_iff (o := o) hlifetime).2 (hdeadline hlifetime)
      rw [hreread, Option.bind_some, Message.onOpen, if_neg hlifetime, hself, halive]
      rfl

theorem stampAndPrune_eq (state : Bytes) (view : View) : stampAndPrune o state view =
    let lifetime := (o.lifetimeSeconds state view.groupId).getD 0
    { view with messages := view.messages.filterMap (Message.onOpen o lifetime) } := by
  rw [stampAndPrune]
  dsimp only
  generalize (o.lifetimeSeconds state view.groupId).getD 0 = lifetime
  split
  · rename_i hlifetime
    have honOpen : Message.onOpen o lifetime = some := funext fun m => if_pos hlifetime
    rw [honOpen, List.filterMap_some]
  · rename_i hlifetime
    have hpruned : prune (view.messages.map (stampMissing o lifetime)) o.now =
        view.messages.filterMap (Message.onOpen o lifetime) := by
      rw [prune, ← List.filterMap_eq_filter, List.filterMap_map]
      refine List.filterMap_congr fun m _ => ?_
      rw [Message.onOpen, if_neg hlifetime]
      cases h : isExpired (stampMissing o lifetime m) o.now <;>
        simp [Function.comp, Option.guard, h]
    rw [hpruned]

/-! ## The slices -/

theorem whenFilled_getD (d : Dictionary α) : (whenFilled d).getD ∅ = d := by
  unfold whenFilled
  split
  · rename_i h
    refine Dictionary.ext ?_
    rw [Dictionary.keys, List.isEmpty_iff, List.map_eq_nil_iff] at h
    exact h.symm
  · rfl

theorem map_map (f : α → β) (g : β → α) (h : ∀ a, g (f a) = a) (d : Dictionary α) :
    (d.map f).map g = d := by
  refine Dictionary.ext ?_
  change (d.entries.map _).map _ = d.entries
  rw [List.map_map]
  conv => rhs; rw [← List.map_id d.entries]
  exact List.map_congr_left fun entry _ => Prod.ext rfl (h entry.2)

theorem fromBase64_toBase64 (bytes : Bytes) : fromBase64 (toBase64 bytes) = .ok bytes := by
  rw [fromBase64, toBase64, Base64.decode_encode]

theorem hydrateNames_storedWith (history : StoredHistory) :
    hydrateNames (storedWith s history) = s.names := by
  unfold hydrateNames storedWith
  dsimp only
  rw [whenFilled_getD, whenFilled_getD, whenFilled_getD, map_map _ _ (fun _ => rfl)]

theorem hydrateWitness_storedWith (history : StoredHistory) :
    hydrateWitness (storedWith s history) = .ok s.witness := by
  unfold hydrateWitness storedWith witnessSnapshot
  dsimp only
  cases s.witness with
  | none => rfl
  | some seen =>
    dsimp only [Option.map_some]
    rw [fromBase64_toBase64, fromBase64_toBase64]
    rfl

theorem hydratePreferences_storedWith (history : StoredHistory) :
    PreferencesStore.hydrate (storedWith s history) = s.settings := by
  have hdisclose : (some s.settings.disclose == some true) = s.settings.disclose := by
    cases s.settings.disclose <;> rfl
  unfold PreferencesStore.hydrate storedWith
  dsimp only [Option.getD_some]
  rw [hdisclose]

/-! ## The views -/

theorem cursors_storedWith
    (hkeys : ∀ key view, s.conversations.get? key = some view → view.key = key)
    (history : StoredHistory) :
    (storedWith s history).cursors = some (s.conversations.map (·.cursor)) := by
  have hentries : (s.conversations.entries.map Prod.snd).map (fun view => (view.key, view.cursor)) =
      (s.conversations.map (·.cursor)).entries := by
    rw [List.map_map]
    refine List.map_congr_left fun entry hentry => Prod.ext ?_ rfl
    exact hkeys _ _ (Dictionary.get?_eq_some_iff.2 hentry)
  change some (Dictionary.ofEntries _) = _
  rw [hentries, Dictionary.ofEntries_entries]

theorem postingKeys_storedWith
    (hkeys : ∀ key view, s.conversations.get? key = some view → view.key = key)
    (history : StoredHistory) :
    (storedWith s history).postingKeys =
      some (s.conversations.filterMap fun view => view.postingKey.map toBase64) := by
  have hentries : ((s.conversations.entries.map Prod.snd).filterMap fun view =>
      view.postingKey.map fun postingKey => (view.key, toBase64 postingKey)) =
      (s.conversations.filterMap fun view => view.postingKey.map toBase64).entries := by
    rw [List.filterMap_map]
    refine List.filterMap_congr fun entry hentry => ?_
    have hkey := hkeys _ _ (Dictionary.get?_eq_some_iff.2 hentry)
    change Option.map _ _ = Option.map _ (Option.map _ _)
    rw [Option.map_map, hkey]
    rfl
  change some (Dictionary.ofEntries _) = _
  rw [hentries, Dictionary.ofEntries_entries]

/-! ## The history of a session -/

/-- The tail of a conversation is stored as this. -/
def TailStored (number : Rat → List Char) (view : View) (stored : List StoredMessage) : Prop :=
  (recent view.messages).mapM (encodeMessage number) = .ok stored

/-- A history is written when each conversation's tail is. -/
theorem encodeHistory_eq_ok_iff {conversations : Dictionary View} {history : StoredHistory} :
    encodeHistory number conversations = .ok history ↔ ∃ out,
      List.Forall₂ (fun e e' => e'.1 = e.1 ∧ TailStored number e.2 e'.2)
        conversations.entries out ∧
      history = {
        conversations := (Dictionary.ofEntries out).filterMap fun stored =>
          if stored.isEmpty then none else some stored
        outbox := conversations.filterMap fun view =>
          if view.outbox.isEmpty then none else some view.outbox
        read := conversations.filterMap fun view =>
          if view.readCursor > 0 then some view.readCursor else none } := by
  have hentry : ∀ (e : String × View) (e' : String × List StoredMessage),
      (do return (e.1, ← (recent e.2.messages).mapM (encodeMessage number))) =
        (.ok e' : Except Thrown _) ↔
      e'.1 = e.1 ∧ TailStored number e.2 e'.2 := by
    intro e e'
    rw [bind_eq_ok_iff]
    constructor
    · rintro ⟨stored, hstored, heq⟩
      cases heq
      exact ⟨rfl, hstored⟩
    · rintro ⟨hkey, hstored⟩
      exact ⟨_, hstored, congrArg Except.ok (Prod.ext hkey.symm rfl)⟩
  rw [encodeHistory, bind_eq_ok_iff]
  refine exists_congr fun out => ?_
  rw [mapM_eq_ok_iff]
  refine and_congr ⟨fun h => h.imp fun e e' => (hentry e e').1,
    fun h => h.imp fun e e' => (hentry e e').2⟩ ?_
  exact ⟨fun h => (Except.ok.inj h).symm, fun h => congrArg Except.ok h.symm⟩

/-- What the history says of the messages of a conversation. -/
theorem encodeHistory_conversations {conversations : Dictionary View} {history : StoredHistory}
    (h : encodeHistory number conversations = .ok history) (key : String) :
    match conversations.get? key with
    | none => history.conversations.get? key = none
    | some view => ∃ stored, TailStored number view stored ∧
        history.conversations.get? key = if stored.isEmpty then none else some stored := by
  obtain ⟨out, hout, rfl⟩ := encodeHistory_eq_ok_iff.1 h
  have hnodup : (out.map Prod.fst).Nodup :=
    Dictionary.map_fst_of_forall₂ (R := TailStored number) hout ▸ conversations.nodup
  have hget : (Dictionary.ofEntries out).get? key = out.lookup key := by
    rw [Dictionary.get?, Dictionary.entries_ofEntries hnodup]
  have hrel := Dictionary.lookup_forall₂ (R := TailStored number) hout key
  rw [← hget] at hrel
  change Option.Rel _ (conversations.get? key) _ at hrel
  dsimp only
  rw [Dictionary.get?_filterMap]
  generalize conversations.get? key = found at hrel ⊢
  generalize (Dictionary.ofEntries out).get? key = filed at hrel ⊢
  cases hrel with
  | none => rfl
  | some hstored => exact ⟨_, hstored, rfl⟩

theorem exists_mapM_iff {l : List α} {f : α → Except ε β} :
    (∃ l', l.mapM f = .ok l') ↔ ∀ a ∈ l, ∃ b, f a = .ok b := by
  have h := exists_mapM_eq_ok_iff (l := l) (f := f) (P := fun _ => True)
  simpa using h

theorem exists_encodeHistory_iff {conversations : Dictionary View} :
    (∃ history, encodeHistory number conversations = .ok history) ↔
      ∀ key view, conversations.get? key = some view → ∀ m ∈ recent view.messages,
        ∃ stored, encodeMessage number m = .ok stored := by
  constructor
  · rintro ⟨history, h⟩ key view hview
    have hfiled := encodeHistory_conversations h key
    rw [hview] at hfiled
    obtain ⟨stored, hstored, _⟩ := hfiled
    exact exists_mapM_iff.1 ⟨stored, hstored⟩
  · intro h
    obtain ⟨out, hout⟩ := (exists_mapM_iff (l := conversations.entries)
      (f := fun e => ((recent e.2.messages).mapM (encodeMessage number)).map (Prod.mk e.1))).2
      fun e hentry => by
        obtain ⟨stored, hstored⟩ :=
          exists_mapM_iff.2 (h e.1 e.2 (Dictionary.get?_eq_some_iff.2 hentry))
        exact ⟨(e.1, stored), by rw [hstored]; rfl⟩
    refine ⟨_, encodeHistory_eq_ok_iff.2 ⟨out, (mapM_eq_ok_iff.1 hout).imp fun e e' heq => ?_, rfl⟩⟩
    unfold TailStored
    cases hstored : (recent e.2.messages).mapM (encodeMessage number) with
    | error thrown =>
      rw [hstored] at heq
      cases heq
    | ok stored =>
      rw [hstored] at heq
      cases heq
      exact ⟨rfl, rfl⟩

/-- What is restored of a conversation: of each kept message what it is read back as, the queue as
failed, and the read cursor if either is there. -/
def View.cached (number : Rat → List Char) (now : Nat) (view : View) : Option Cached :=
  cachedOf ((recent view.messages).filterMap (Message.reread number now))
    (view.outbox.map Pending.fail) view.readCursor

theorem TailStored.filterMap {view : View} (h : TailStored number view stored) (now : Nat) :
    stored.filterMap (decodeMessage now) =
      (recent view.messages).filterMap (Message.reread number now) := by
  have hpairs := mapM_eq_ok_iff.1 h
  generalize recent view.messages = messages at hpairs ⊢
  clear h
  induction hpairs with
  | nil => rfl
  | cons hstored _ ih =>
    rw [List.filterMap_cons, List.filterMap_cons, ih, Message.reread, hstored]
    rfl

theorem get?_decodeHistory_encodeHistory {conversations : Dictionary View}
    (h : encodeHistory number conversations = .ok history) (now : Nat) (key : String) :
    (decodeHistory now history).get? key =
      (conversations.get? key).bind (View.cached number now) := by
  have hmessages := encodeHistory_conversations h key
  obtain ⟨out, _, rfl⟩ := encodeHistory_eq_ok_iff.1 h
  rw [get?_decodeHistory]
  dsimp only at hmessages ⊢
  rw [Dictionary.get?_filterMap _ conversations, Dictionary.get?_filterMap _ conversations]
  cases hview : conversations.get? key with
  | none =>
    rw [hview] at hmessages
    dsimp only at hmessages
    rw [hmessages]
    rfl
  | some view =>
    rw [hview] at hmessages
    obtain ⟨stored, hstored, hget⟩ := hmessages
    have hback : (((Dictionary.ofEntries out).filterMap fun stored =>
        if stored.isEmpty then none else some stored).get? key).getD [] = stored := by
      rw [hget]
      cases stored <;> rfl
    rw [hback, hstored.filterMap]
    have houtbox : ((some view).bind fun view =>
        if view.outbox.isEmpty then none else some view.outbox).getD [] = view.outbox := by
      cases hqueue : view.outbox <;> simp [hqueue]
    have hread : ((some view).bind fun view =>
        if view.readCursor > 0 then some view.readCursor else none).getD 0 = view.readCursor := by
      by_cases hcursor : view.readCursor > 0
      · simp [hcursor]
      · simp [hcursor]
        omega
    rw [houtbox, hread, Option.bind_some, View.cached]

/-! ## The views -/

/-- The view of a group, from what is restored of it and what the session knew of it. -/
def View.reopening (key : String) (cached : Option Cached) (view : Option View) : View where
  groupId := key
  key := key
  messages := (cached.map (·.messages)).getD []
  outbox := (cached.map (·.outbox)).getD []
  cursor := (view.map (·.cursor)).getD 0
  postingKey := view.bind (·.postingKey)
  readCursor := (cached.map (·.readCursor)).getD 0
  contentCursor := 0

theorem openPostingKey_storedWith (hv : s.Valid) (history : StoredHistory) (key : String) :
    openPostingKey (storedWith s history) key =
      .ok ((s.conversations.get? key).bind (·.postingKey)) := by
  rw [openPostingKey, postingKeys_storedWith hv.keys, Option.getD_some, Dictionary.get?_filterMap]
  cases hview : s.conversations.get? key with
  | none => rfl
  | some view =>
    rw [Option.bind_some, Option.bind_some]
    cases hkey : view.postingKey with
    | none => rfl
    | some postingKey =>
      have hlength := hv.postingKeys key view postingKey hview hkey
      have hne : toBase64 postingKey ≠ "" := fun h => by
        have hback := fromBase64_toBase64 postingKey
        rw [h] at hback
        rw [← Except.ok.inj hback] at hlength
        cases hlength
      dsimp only [Option.map_some]
      rw [if_neg hne, fromBase64_toBase64]
      rfl

theorem openView_storedWith (hv : s.Valid) (history : StoredHistory) (cached : Dictionary Cached)
    (key : String) : openView (storedWith s history) cached key =
      .ok (.reopening key (cached.get? key) (s.conversations.get? key)) := by
  rw [openView, openPostingKey_storedWith hv, cursors_storedWith hv.keys]
  change Except.ok _ = _
  rw [Option.getD_some, Dictionary.get?_map]
  rfl

/-- The session that opens on what a session has written. -/
theorem openSession_storedWith (hv : s.Valid)
    (h : encodeHistory number s.conversations = .ok history) :
    ∃ s', openSession o (storedWith s history) = .ok (some s') ∧
      { s' with client := s.client, conversations := s.conversations, archive := s.archive } = s ∧
      s'.client.state = s.client.state ∧
      s'.client.conversations = o.conversationIds s.client.conversations ∧
      s'.archive = (s.archive && o.importsVaultKey) ∧
      ∀ key, s'.conversations.get? key =
        if key ∈ s.client.conversations then
          some (stampAndPrune o s.client.state (.reopening key
            ((s.conversations.get? key).bind (View.cached number o.now))
            (s.conversations.get? key)))
        else none := by
  let views := s.client.conversations.map fun key => View.reopening key
    ((s.conversations.get? key).bind (View.cached number o.now)) (s.conversations.get? key)
  have hviews : (storedWith s history).groupIds.mapM
      (openView (storedWith s history) (decodeHistory o.now history)) = .ok views := by
    refine mapM_eq_ok_iff.2 (List.forall₂_map_right_iff.2 (List.forall₂_same.2 fun key _ => ?_))
    rw [openView_storedWith hv, get?_decodeHistory_encodeHistory h]
  have haccount : (storedWith s history).account.filter isAccountId = some s.accountId :=
    Option.filter_eq_some_iff.2 ⟨rfl, hv.account⟩
  have hentries : views.map (fun view => (view.key, view)) =
      s.client.conversations.map fun key => (key, View.reopening key
        ((s.conversations.get? key).bind (View.cached number o.now)) (s.conversations.get? key)) :=
    List.map_map
  have hnodup : ((views.map fun view => (view.key, view)).map Prod.fst).Nodup := by
    rw [hentries, List.map_map]
    exact (List.map_id _).symm ▸ hv.groups
  have hvault : (if some s.archive = some false then false else o.importsVaultKey) =
      (s.archive && o.importsVaultKey) := by
    cases s.archive <;> rfl
  refine ⟨{ s with
    client := { s.client with conversations := o.conversationIds s.client.conversations }
    archive := s.archive && o.importsVaultKey
    conversations := (Dictionary.ofEntries (views.map fun view => (view.key, view))).map
      (stampAndPrune o s.client.state) }, ?_, rfl, rfl, rfl, rfl, fun key => ?_⟩
  · have hstate : (storedWith s history).state = some s.client.state := rfl
    have hcached : ((storedWith s history).history.map (decodeHistory o.now)).getD ∅ =
        decodeHistory o.now history := rfl
    rw [openSession, hstate]
    dsimp only
    rw [haccount]
    dsimp only
    rw [hcached, hviews]
    change (hydrateWitness _ >>= _) = _
    rw [hydrateWitness_storedWith]
    change Except.ok (some _) = _
    rw [hydratePreferences_storedWith, hydrateNames_storedWith, ← hvault]
    rfl
  · rw [Dictionary.get?_map, Dictionary.get?, Dictionary.entries_ofEntries hnodup, hentries,
      Dictionary.lookup_map_key]
    split <;> rfl

theorem cachedOf_parts (messages : List Message) (outbox : List Pending) (readCursor : Nat) :
    ((cachedOf messages outbox readCursor).map (·.messages)).getD [] = messages ∧
    ((cachedOf messages outbox readCursor).map (·.outbox)).getD [] = outbox ∧
    ((cachedOf messages outbox readCursor).map (·.readCursor)).getD 0 =
      if messages = [] ∧ outbox = [] then 0 else readCursor := by
  cases messages <;> cases outbox <;> simp [cachedOf]

theorem reopening_eq_settled_iff {view : View} {state : Bytes} (hkey : view.key = key)
    (halive : ∀ m ∈ recent view.messages, isExpired m o.now = false) :
    stampAndPrune o state (.reopening key (view.cached number o.now) (some view)) = view.settled ↔
      view.groupId = key ∧
      (view.readCursor ≠ 0 → view.messages ≠ [] ∨ view.outbox ≠ []) ∧
      ((o.lifetimeSeconds state key).getD 0 ≠ 0 →
        ∀ m ∈ recent view.messages, m.expiresAt = none → m.sentAt = none) ∧
      ∀ m ∈ recent view.messages, m.Lasting number o.now := by
  obtain ⟨hmessages, houtbox, hread⟩ := cachedOf_parts
    ((recent view.messages).filterMap (Message.reread number o.now))
    (view.outbox.map Pending.fail) view.readCursor
  have hkept : ((recent view.messages).filterMap (Message.reread number o.now)).filterMap
      (Message.onOpen o ((o.lifetimeSeconds state key).getD 0)) = recent view.messages ↔
      (∀ m ∈ recent view.messages, m.Lasting number o.now) ∧
        ((o.lifetimeSeconds state key).getD 0 ≠ 0 →
          ∀ m ∈ recent view.messages, m.expiresAt = none → m.sentAt = none) := by
    rw [List.filterMap_filterMap]
    refine Json.filterMap_eq_self_iff.trans ?_
    constructor
    · intro h
      have each := fun m hm => (reopened_eq_self_iff (halive m hm)).1 (h m hm)
      exact ⟨fun m hm => (each m hm).1, fun hne m hm => (each m hm).2 hne⟩
    · rintro ⟨hlasting, hdeadlines⟩ m hm
      exact (reopened_eq_self_iff (halive m hm)).2
        ⟨hlasting m hm, fun hne => hdeadlines hne m hm⟩
  rw [stampAndPrune_eq, View.reopening, View.settled, View.cached]
  dsimp only
  rw [hmessages, houtbox, hread, View.mk.injEq, hkept]
  constructor
  · rintro ⟨hgroup, _, ⟨hlasting, hdeadlines⟩, _, _, _, hcursor, _⟩
    refine ⟨hgroup.symm, fun hne => ?_, hdeadlines, hlasting⟩
    by_contra hempty
    rw [not_or, not_not, not_not] at hempty
    rw [if_pos (by rw [hempty.1, hempty.2]; exact ⟨rfl, rfl⟩)] at hcursor
    exact hne hcursor.symm
  · rintro ⟨hgroup, hread, hdeadlines, hlasting⟩
    refine ⟨hgroup.symm, hkey.symm, ⟨hlasting, hdeadlines⟩, rfl, rfl, rfl, ?_, rfl⟩
    have hall : (recent view.messages).filterMap (Message.reread number o.now) =
        recent view.messages :=
      Json.filterMap_eq_self_iff.2 fun m hm => reread_eq_self_iff.2 (hlasting m hm)
    split
    · rename_i hempty
      rw [hall, recent_eq_nil_iff, List.map_eq_nil_iff] at hempty
      by_contra hne
      rcases hread (Ne.symm hne) with h | h
      · exact h hempty.1
      · exact h hempty.2
    · rfl

/-! ## The session -/

theorem composeStored_eq_ok_iff : composeStored number s = .ok stored ↔
    ∃ history, encodeHistory number s.conversations = .ok history ∧
      stored = storedWith s history := by
  rw [composeStored]
  cases encodeHistory number s.conversations with
  | error thrown => simp [Except.map]
  | ok history => simp [Except.map, eq_comm]

theorem Message.Lasting.encodes {m : Message} (h : m.Lasting number now) :
    ∃ stored, encodeMessage number m = .ok stored := by
  obtain ⟨bytes, hencode, _⟩ := h
  exact ⟨_, bind_eq_ok_iff.2 ⟨bytes, hencode, rfl⟩⟩

theorem View.settled_key (view : View) : view.settled.key = view.key := by
  unfold View.settled
  rfl

theorem View.settled_cursor (view : View) : view.settled.cursor = view.cursor := by
  unfold View.settled
  rfl

theorem View.settled_postingKey (view : View) : view.settled.postingKey = view.postingKey := by
  unfold View.settled
  rfl

theorem View.settled_readCursor (view : View) : view.settled.readCursor = view.readCursor := by
  unfold View.settled
  rfl

theorem View.recent_settled (view : View) :
    recent view.settled.messages = recent view.messages := by
  rw [View.settled, recent_recent]

theorem Live.Rebuilt.keys (hv : s.Valid) (h : s.Rebuilt s') :
    ∀ key view, s'.conversations.get? key = some view → view.key = key := by
  intro key view hview
  rw [h.views] at hview
  obtain ⟨before, hbefore, rfl⟩ := Option.map_eq_some_iff.1 hview
  exact before.settled_key.trans (hv.keys key before hbefore)

/-- The history of the session that comes back is the one it was read from, but for what is
queued. -/
theorem exists_encodeHistory_rebuilt (h : s.Rebuilt s')
    (hhistory : encodeHistory number s.conversations = .ok history) :
    ∃ history', encodeHistory number s'.conversations = .ok history' ∧ ∀ key,
      history'.conversations.get? key = history.conversations.get? key ∧
      history'.outbox.get? key = (history.outbox.get? key).map (·.map Pending.fail) ∧
      history'.read.get? key = history.read.get? key := by
  have hwritten := exists_encodeHistory_iff.1 ⟨history, hhistory⟩
  obtain ⟨history', hhistory'⟩ :
      ∃ history', encodeHistory number s'.conversations = .ok history' := by
    refine exists_encodeHistory_iff.2 fun key view hview m hm => ?_
    rw [h.views] at hview
    obtain ⟨before, hbefore, rfl⟩ := Option.map_eq_some_iff.1 hview
    rw [before.recent_settled] at hm
    exact hwritten key before hbefore m hm
  refine ⟨history', hhistory', fun key => ⟨?_, ?_, ?_⟩⟩
  · have hafter := encodeHistory_conversations hhistory' key
    have hbefore := encodeHistory_conversations hhistory key
    rw [h.views] at hafter
    cases hview : s.conversations.get? key with
    | none =>
      rw [hview] at hbefore hafter
      exact hafter.trans hbefore.symm
    | some view =>
      rw [hview] at hbefore hafter
      obtain ⟨stored, hstored, hget⟩ := hbefore
      obtain ⟨stored', hstored', hget'⟩ := hafter
      unfold TailStored at hstored hstored'
      rw [view.recent_settled, hstored] at hstored'
      rw [hget, hget', Except.ok.inj hstored']
  · obtain ⟨_, _, rfl⟩ := encodeHistory_eq_ok_iff.1 hhistory'
    obtain ⟨_, _, rfl⟩ := encodeHistory_eq_ok_iff.1 hhistory
    dsimp only
    rw [Dictionary.get?_filterMap, Dictionary.get?_filterMap, h.views]
    cases s.conversations.get? key with
    | none => rfl
    | some view =>
      rw [Option.map_some, Option.bind_some, Option.bind_some, View.settled]
      cases view.outbox <;> simp
  · obtain ⟨_, _, rfl⟩ := encodeHistory_eq_ok_iff.1 hhistory'
    obtain ⟨_, _, rfl⟩ := encodeHistory_eq_ok_iff.1 hhistory
    dsimp only
    rw [Dictionary.get?_filterMap, Dictionary.get?_filterMap, h.views]
    cases s.conversations.get? key with
    | none => rfl
    | some view => rw [Option.map_some, Option.bind_some, Option.bind_some, view.settled_readCursor]

/-- A session that comes back is written again as the same record. -/
theorem Live.Rebuilt.same (hv : s.Valid) (h : s.Rebuilt s')
    (hhistory : encodeHistory number s.conversations = .ok history) :
    ∃ again, composeStored number s' = .ok again ∧ (storedWith s history).Same again := by
  obtain ⟨history', hhistory', hsame⟩ := exists_encodeHistory_rebuilt h hhistory
  refine ⟨storedWith s' history', composeStored_eq_ok_iff.2 ⟨history', hhistory', rfl⟩, ?_⟩
  constructor
  · have hslices := h.slices
    rw [← hslices]
    have hstate := h.state
    unfold storedWith
    dsimp only
    rw [hstate]
  · exact h.groups
  · intro key
    rw [cursors_storedWith (h.keys hv), cursors_storedWith hv.keys]
    rw [Option.getD_some, Option.getD_some, Dictionary.get?_map, Dictionary.get?_map, h.views,
      Option.map_map]
    exact congrArg (Option.map · _) (funext View.settled_cursor)
  · intro key
    rw [postingKeys_storedWith (h.keys hv), postingKeys_storedWith hv.keys]
    rw [Option.getD_some, Option.getD_some, Dictionary.get?_filterMap, Dictionary.get?_filterMap,
      h.views]
    cases s.conversations.get? key with
    | none => rfl
    | some view => rw [Option.map_some, Option.bind_some, Option.bind_some, view.settled_postingKey]
  · exact ⟨history, history', rfl, rfl, hsame⟩

theorem rebuilt_iff (hv : s.Valid) (halive : s.Alive o)
    (hids : ∀ ids, (o.conversationIds ids).Perm ids)
    (hhistory : encodeHistory number s.conversations = .ok history)
    (hopen : openSession o (storedWith s history) = .ok (some s')) :
    s.Rebuilt s' ↔ s.Restorable number o := by
  obtain ⟨s'', hopen', hslices, hstate, hgroups, harchive, hviews⟩ :=
    openSession_storedWith (o := o) hv hhistory
  cases Option.some.inj (Except.ok.inj (hopen.symm.trans hopen'))
  have hview : ∀ key view, s.conversations.get? key = some view → key ∈ s.client.conversations →
      (s'.conversations.get? key = some view.settled ↔
        view.groupId = key ∧
        (view.readCursor ≠ 0 → view.messages ≠ [] ∨ view.outbox ≠ []) ∧
        ((o.lifetimeSeconds s.client.state key).getD 0 ≠ 0 →
          ∀ m ∈ recent view.messages, m.expiresAt = none → m.sentAt = none) ∧
        ∀ m ∈ recent view.messages, m.Lasting number o.now) := by
    intro key view hget hmem
    rw [hviews, if_pos hmem, hget, Option.bind_some, Option.some.injEq]
    exact reopening_eq_settled_iff (hv.keys key view hget) (halive key view hget)
  constructor
  · intro h
    have hmem : ∀ key, key ∈ s.client.conversations ↔ s.conversations.has key := by
      intro key
      have hback := h.views key
      rw [hviews] at hback
      rw [Dictionary.has]
      cases hget : s.conversations.get? key with
      | none =>
        rw [hget] at hback
        by_cases hkey : key ∈ s.client.conversations
        · rw [if_pos hkey] at hback
          cases hback
        · simp [hkey]
      | some view =>
        rw [hget] at hback
        by_cases hkey : key ∈ s.client.conversations
        · simp [hkey]
        · rw [if_neg hkey] at hback
          cases hback
    have each : ∀ key view, s.conversations.get? key = some view → _ := fun key view hget =>
      (hview key view hget ((hmem key).2 (by rw [Dictionary.has, hget]; rfl))).1
        (by rw [h.views, hget, Option.map_some])
    refine ⟨hmem, fun key view hget => (each key view hget).1,
      fun key view hget => (each key view hget).2.1,
      fun key view hget => (each key view hget).2.2.1,
      fun key view hget => (each key view hget).2.2.2, fun hon => ?_⟩
    have hkept := congrArg Live.archive h.slices
    dsimp only at hkept
    rw [harchive, hon, Bool.true_and] at hkept
    exact hkept
  · intro h
    refine ⟨?_, hstate, hgroups ▸ hids _, fun key => ?_⟩
    · have hkept : s'.archive = s.archive := by
        rw [harchive]
        cases hon : s.archive with
        | false => rfl
        | true => rw [h.vault hon]; rfl
      rw [← hslices]
      rw [← hkept]
    · cases hget : s.conversations.get? key with
      | none =>
        have hnot : key ∉ s.client.conversations := fun hmem => by
          have hhas := (h.groups key).1 hmem
          rw [Dictionary.has, hget] at hhas
          cases hhas
        rw [hviews, if_neg hnot, Option.map_none]
      | some view =>
        rw [Option.map_some]
        exact (hview key view hget ((h.groups key).2 (by rw [Dictionary.has, hget]; rfl))).2
          ⟨h.named key view hget, h.read key view hget, h.deadlines key view hget,
            h.lasting key view hget⟩

theorem roundTrips_iff_restorable (hv : s.Valid) (halive : s.Alive o)
    (hids : ∀ ids, (o.conversationIds ids).Perm ids) :
    RoundTrips number o s ↔ s.Restorable number o := by
  constructor
  · rintro ⟨stored, s', hstored, hopen, hrebuilt, _⟩
    obtain ⟨history, hhistory, rfl⟩ := composeStored_eq_ok_iff.1 hstored
    exact (rebuilt_iff hv halive hids hhistory hopen).1 hrebuilt
  · intro h
    obtain ⟨history, hhistory⟩ := exists_encodeHistory_iff.2 fun key view hview m hm =>
      (h.lasting key view hview m hm).encodes
    obtain ⟨s', hopen, _⟩ := openSession_storedWith (o := o) hv hhistory
    have hrebuilt := (rebuilt_iff hv halive hids hhistory hopen).2 h
    obtain ⟨again, hagain, hsame⟩ := hrebuilt.same hv hhistory
    exact ⟨_, s', composeStored_eq_ok_iff.2 ⟨history, hhistory, rfl⟩, hopen, hrebuilt, again,
      hagain, hsame⟩

end Whispee.Session.Hydrate
