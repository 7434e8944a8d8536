import Whispee.Lib.JsonText
import Whispee.Session.Reopen

/-!
# The history cache

`encodeHistory` and `decodeHistory` of `apps/web/src/lib/history.ts`, from the conversations to the
bytes that are sealed and back. Which conversations come back with their most recent messages, their
queue and their read cursor, and of which bytes something is read, is `history_iff`.
-/

namespace Whispee.Session.History

open Hydrate (Message Pending PendingState Cached recent RECENT_PER_CONVERSATION)
open Wire (Thrown Content BeginsWithMark WritesWhole)
open Json (Value Number)

/-! ## Writing -/

def number (n : Rat) : Value := .num (.finite n)

/-- An object that is assigned to, name by name. The name `__proto__` sets no property. -/
def assigned (entries : List (String × Value)) : Value :=
  .obj (entries.filter (·.1 ≠ "__proto__"))

section
variable (digits : Rat → List Char)

def storedMessage (message : Message) : Except Thrown Value := do
  let body ← Wire.encode digits message.content message.sentAt
  return .obj ([("seq", number message.seq),
    ("sender", match message.sender with | some sender => .str sender | none => .null),
    ("mine", .bool message.mine), ("body", .arr (body.map fun octet => number octet.toNat))] ++
    match message.expiresAt with
    | some expiresAt => [("expiresAt", number expiresAt)]
    | none => [])

def PendingState.toString : PendingState → String
  | .sending => "sending"
  | .failed => "failed"

def storedPending (pending : Pending) : Value :=
  .obj [("localId", .str pending.localId), ("text", .str pending.text),
    ("sentAt", number pending.sentAt), ("state", .str (PendingState.toString pending.state))]

/-- The tail of a conversation, if there is one. -/
def storedTail (entry : String × Cached) : Except Thrown (Option (String × Value)) := do
  let stored ← (recent entry.2.messages).mapM (storedMessage digits)
  return if stored = [] then none else some (entry.1, .arr stored)

def payload (conversations : Dictionary Cached) : Except Thrown Value := do
  let tails ← conversations.entries.mapM (storedTail digits)
  return .obj [("v", number 1), ("conversations", assigned (tails.filterMap id)),
    ("outbox", assigned (conversations.entries.filterMap fun entry =>
      if entry.2.outbox = [] then none
      else some (entry.1, .arr (entry.2.outbox.map storedPending)))),
    ("read", assigned (conversations.entries.filterMap fun entry =>
      if 0 < entry.2.readCursor then some (entry.1, number entry.2.readCursor) else none))]

/-- `encodeHistory`: of what JSON cannot say, nothing is in the payload. -/
def encodeHistory (conversations : Dictionary Cached) : Except Thrown Bytes := do
  let payload ← payload digits conversations
  return asBytes (String.ofList (Json.write digits ((Json.stringify payload).getD .null)))

end

/-! ## Reading -/

/-- A message that has been read back: of its fields only the deadline and the content are
checked. -/
structure Restored where
  seq : Value
  sender : Value
  mine : Value
  content : Content
  sentAt : Option Rat
  expiresAt : Option Number

structure Queued where
  localId : String
  text : String
  sentAt : Number
  state : PendingState

structure Thread where
  messages : List Restored
  outbox : List Queued
  readCursor : Number

def Thread.fresh : Thread := ⟨[], [], .finite 0⟩

/-- `Object.entries`, by name. What it gives of a string are strings. -/
def entries : Value → Except Thrown (Dictionary Value)
  | .null | .undefined => .error .typeError
  | .obj members => .ok (.ofEntries members)
  | .arr items => .ok (.ofEntries (items.zipIdx.map fun item => (toString item.2, item.1)))
  | .str s => .ok (.ofEntries (s.toList.zipIdx.map fun c => (toString c.2, .str c.1.toString)))
  | .bool _ | .num _ => .ok ∅

/-- `value?.[field]` -/
def optionalProperty (value : Value) (field : String) : Value :=
  match Wire.property value field with
  | .ok value => value
  | .error _ => .undefined

/-- `value ?? {}` -/
def orEmpty : Value → Value
  | .null | .undefined => .obj []
  | value => value

/-- `payload?.v !== 1`, denied. -/
def isVersion : Value → Bool
  | .num x => x = .finite 1
  | _ => false

/-- `typeof value === "object"` -/
def isObject : Value → Bool
  | .null | .obj _ | .arr _ => true
  | _ => false

/-- `ToUint8`. -/
def toUint8 : Value → Option UInt8
  | .num (.finite q) => some (.ofNat (Wire.trunc q % 256).toNat)
  | _ => none

section
variable (now : Nat) (coerced : Value → Except Thrown Bytes)

/-- `new Uint8Array(body)`: the numbers of an array are converted one by one; what is made of
anything else is `coerced`. -/
def newUint8Array (body : Value) : Except Thrown Bytes :=
  match body with
  | .arr items =>
    match items.mapM toUint8 with
    | some octets => .ok octets
    | none => coerced body
  | _ => coerced body

/-- What the `try` of the loop over the messages makes of an entry. -/
def restoreMessage (entry : Value) : Except Thrown Restored := do
  let stamped ← Wire.decode now (.whole (← newUint8Array coerced (← Wire.property entry "body")))
  return {
    seq := ← Wire.property entry "seq"
    sender := ← Wire.property entry "sender"
    mine := ← Wire.property entry "mine"
    content := stamped.body
    sentAt := stamped.sentAt
    expiresAt := match ← Wire.property entry "expiresAt" with | .num x => some x | _ => none }

def restorePending (entry : Value) : Option Queued :=
  match optionalProperty entry "localId", optionalProperty entry "text" with
  | .str localId, .str text => some {
      localId
      text
      sentAt := match optionalProperty entry "sentAt" with | .num x => x | _ => .finite 0
      state := .failed }
  | _, _ => none

/-- `at(key)`, and a change to what it returns. -/
def change (key : String) (f : Thread → Thread) (restored : Dictionary Thread) :
    Dictionary Thread :=
  restored.set key (f ((restored.get? key).getD .fresh))

def Thread.pushMessage (message : Restored) (thread : Thread) : Thread :=
  { thread with messages := thread.messages ++ [message] }

def Thread.pushPending (pending : Queued) (thread : Thread) : Thread :=
  { thread with outbox := thread.outbox ++ [pending] }

def Thread.read (cursor : Number) (thread : Thread) : Thread := { thread with readCursor := cursor }

/-- `Array.isArray`. -/
def itemsOf : Value → List Value
  | .arr items => items
  | _ => []

def restoreMessages (restored : Dictionary Thread) (entry : String × Value) : Dictionary Thread :=
  ((itemsOf entry.2).filterMap fun item => (restoreMessage now coerced item).toOption).foldl
    (fun restored message => change entry.1 (.pushMessage message) restored) restored

def restoreOutbox (restored : Dictionary Thread) (entry : String × Value) : Dictionary Thread :=
  ((itemsOf entry.2).filterMap restorePending).foldl
    (fun restored pending => change entry.1 (.pushPending pending) restored) restored

def restoreRead (restored : Dictionary Thread) (entry : String × Value) : Dictionary Thread :=
  match entry.2 with
  | .num cursor =>
    if restored.has entry.1 then change entry.1 (.read cursor) restored else restored
  | _ => restored

/-- `decodeHistory`, of what the text says. -/
def decodePayload (payload : Value) : Except Thrown (Dictionary Thread) :=
  if isVersion (optionalProperty payload "v") ∧
      isObject (optionalProperty payload "conversations") then do
    let restored := (← entries (optionalProperty payload "conversations")).entries.foldl
      (restoreMessages now coerced) ∅
    let restored := (← entries (orEmpty (optionalProperty payload "outbox"))).entries.foldl
      restoreOutbox restored
    let restored := (← entries (orEmpty (optionalProperty payload "read"))).entries.foldl
      restoreRead restored
    return restored.filterMap fun thread =>
      if thread.messages.isEmpty && thread.outbox.isEmpty then none else some thread
  else .ok ∅

def decodeHistory (bytes : Bytes) : Except Thrown (Dictionary Thread) :=
  match Json.read (Wire.textDecode bytes).toList with
  | some document => decodePayload now coerced (Json.parse document)
  | none => .ok ∅

end

/-! ## What should come back -/

/-- The most recent messages of a conversation, in order. -/
structure Latest (kept messages : List Message) : Prop where
  ordered : kept.Pairwise (·.seq < ·.seq)
  split : ∃ older, messages.Perm (older ++ kept) ∧ ∀ m ∈ older, ∀ m' ∈ kept, m.seq < m'.seq
  length : kept.length = min messages.length RECENT_PER_CONVERSATION

/-- A message as it is read back. A control message carries no stamp. -/
def restored (m : Message) : Restored where
  seq := number m.seq
  sender := match m.sender with | some sender => .str sender | none => .null
  mine := .bool m.mine
  content := m.content
  sentAt := if Wire.isControl m.content then none else m.sentAt
  expiresAt := m.expiresAt.map .finite

def queued (pending : Pending) : Queued :=
  ⟨pending.localId, pending.text, .finite pending.sentAt, .failed⟩

/-- The thread is what should come back of the conversation. -/
def Returns (cached : Cached) (thread : Thread) : Prop :=
  ∃ kept, Latest kept cached.messages ∧
    thread = ⟨kept.map restored, cached.outbox.map queued, .finite cached.readCursor⟩

/-- What should come back under a key. What is not there is read as empty. -/
def ComesBack (held : Option Cached) (thread : Option Thread) : Prop :=
  match held with
  | none => thread = none
  | some cached => Returns cached (thread.getD .fresh)

section
variable (digits : Rat → List Char) (now : Nat)

/-- A message in the domains of the codec, where `now` is the clock of the device that reads. -/
structure MessageFits (m : Message) : Prop where
  seq : Json.Numeral digits m.seq
  content : m.content.Documented now
  encodes : ∃ bytes, Wire.encode digits m.content m.sentAt = .ok bytes
  sentAt : ∀ t ∈ m.sentAt, Wire.Stamp t
  expiresAt : ∀ t ∈ m.expiresAt, Json.Numeral digits t

structure CachedFits (cached : Cached) : Prop where
  messages : ∀ m ∈ cached.messages, MessageFits digits now m
  distinct : (cached.messages.map (·.seq)).Nodup
  outbox : ∀ pending ∈ cached.outbox, Json.Numeral digits pending.sentAt
  readCursor : Json.Numeral digits cached.readCursor

/-- The conversations go by the names of groups, in hexadecimal: none is `__proto__`. -/
def Fits (conversations : Dictionary Cached) : Prop :=
  ∀ key cached, conversations.get? key = some cached →
    key ≠ "__proto__" ∧ CachedFits digits now cached

/-- What is written of the conversations is read back, each for itself. -/
def RoundTrips (coerced : Value → Except Thrown Bytes) (conversations : Dictionary Cached) : Prop :=
  ∃ bytes restored, encodeHistory digits conversations = .ok bytes ∧
    decodeHistory now coerced bytes = .ok restored ∧
    ∀ key, ComesBack (conversations.get? key) (restored.get? key)

end

/-- A read cursor stands beside something that comes back, and no text that is kept begins with a
byte order mark. -/
structure Survives (cached : Cached) : Prop where
  cursor : cached.messages = [] → cached.outbox = [] → cached.readCursor = 0
  texts : ∀ m ∈ recent cached.messages, ∀ text ∈ m.content.texts, ¬ BeginsWithMark text

/-! ## The most recent messages -/

theorem latest_recent {messages : List Message} (h : (messages.map (·.seq)).Nodup) :
    Latest (recent messages) messages := by
  have hperm := List.perm_insertionSort (·.seq ≤ ·.seq) messages
  have hnodup : ((messages.insertionSort (·.seq ≤ ·.seq)).map (·.seq)).Nodup :=
    (hperm.map _).nodup_iff.2 h
  have hsorted : (messages.insertionSort (·.seq ≤ ·.seq)).Pairwise (·.seq < ·.seq) := by
    have hle := List.pairwise_insertionSort (fun m m' : Message => m.seq ≤ m'.seq) messages
    refine (hle.and (List.pairwise_map.1 hnodup)).imp fun h => ?_
    exact Nat.lt_of_le_of_ne h.1 h.2
  generalize hall : messages.insertionSort (·.seq ≤ ·.seq) = all at hperm hsorted
  have hrecent : recent messages = all.drop (all.length - RECENT_PER_CONVERSATION) := by
    rw [recent, hall]
  have hsplit := List.take_append_drop (all.length - RECENT_PER_CONVERSATION) all
  rw [← hrecent] at hsplit
  rw [← hsplit] at hsorted
  exact ⟨(List.pairwise_append.1 hsorted).2.1, ⟨_, hsplit.symm ▸ hperm.symm,
    (List.pairwise_append.1 hsorted).2.2⟩, Hydrate.length_recent messages⟩

/-! ## Loops over the entries -/

section
variable {restored : Dictionary Thread} {key k : String}

theorem get?_change (f : Thread → Thread) (restored : Dictionary Thread) (key k : String) :
    (change key f restored).get? k =
      if k = key then some (f ((restored.get? key).getD .fresh)) else restored.get? k :=
  Dictionary.get?_set ..

theorem get?_foldl_change (f : α → Thread → Thread) (items : List α)
    (restored : Dictionary Thread) (key k : String) :
    (items.foldl (fun restored x => change key (f x) restored) restored).get? k =
      if k = key ∧ items ≠ [] then
        some (items.foldl (fun thread x => f x thread) ((restored.get? key).getD .fresh))
      else restored.get? k := by
  induction items generalizing restored with
  | nil => simp
  | cons x items ih =>
    rw [List.foldl_cons, ih, List.foldl_cons, get?_change, get?_change, if_pos rfl]
    by_cases hk : k = key
    · rw [if_pos hk, if_pos (⟨hk, List.cons_ne_nil _ _⟩ : k = key ∧ x :: items ≠ [])]
      by_cases hitems : items = []
      · rw [if_neg fun h => h.2 hitems, hitems]
        rfl
      · rw [if_pos ⟨hk, hitems⟩]
        rfl
    · simp [hk]

theorem foldl_pushMessage (messages : List Restored) (thread : Thread) :
    messages.foldl (fun thread message => thread.pushMessage message) thread =
      { thread with messages := thread.messages ++ messages } := by
  induction messages generalizing thread with
  | nil => rw [List.foldl_nil, List.append_nil]
  | cons message messages ih => rw [List.foldl_cons, ih, Thread.pushMessage, List.append_assoc]; rfl

theorem foldl_pushPending (outbox : List Queued) (thread : Thread) :
    outbox.foldl (fun thread pending => thread.pushPending pending) thread =
      { thread with outbox := thread.outbox ++ outbox } := by
  induction outbox generalizing thread with
  | nil => rw [List.foldl_nil, List.append_nil]
  | cons pending outbox ih => rw [List.foldl_cons, ih, Thread.pushPending, List.append_assoc]; rfl

variable {now : Nat} {coerced : Value → Except Thrown Bytes}

def restoredItems (now : Nat) (coerced : Value → Except Thrown Bytes) (stored : Value) :
    List Restored :=
  (itemsOf stored).filterMap fun item => (restoreMessage now coerced item).toOption

def queuedItems (stored : Value) : List Queued := (itemsOf stored).filterMap restorePending

/-- What a conversation is after its messages are read. -/
def withMessages (messages : List Restored) (seen : Option Thread) : Option Thread :=
  if messages = [] then seen
  else some { seen.getD .fresh with messages := (seen.getD .fresh).messages ++ messages }

def withOutbox (outbox : List Queued) (seen : Option Thread) : Option Thread :=
  if outbox = [] then seen
  else some { seen.getD .fresh with outbox := (seen.getD .fresh).outbox ++ outbox }

def withCursor (stored : Value) (seen : Option Thread) : Option Thread :=
  match stored with
  | .num cursor => seen.map (Thread.read cursor)
  | _ => seen

theorem get?_foldl_restoreMessages (d : Dictionary Value) (r : Dictionary Thread) (key : String) :
    (d.entries.foldl (restoreMessages now coerced) r).get? key =
      (d.get? key).elim (r.get? key) fun stored =>
        withMessages (restoredItems now coerced stored) (r.get? key) := by
  refine Dictionary.view_foldl (v := Dictionary.get?)
    (g := fun _ seen stored => withMessages (restoredItems now coerced stored) seen) ?_ ?_ d r key
  · intro r entry key hkey
    rw [restoreMessages, get?_foldl_change, if_neg fun h => hkey h.1]
  · intro r entry
    rw [restoreMessages, get?_foldl_change, withMessages, foldl_pushMessage]
    by_cases h : restoredItems now coerced entry.2 = []
    · rw [if_neg fun h' => h'.2 h, if_pos h]
    · rw [if_pos ⟨rfl, h⟩, if_neg h]
      rfl

theorem get?_foldl_restoreOutbox (d : Dictionary Value) (r : Dictionary Thread) (key : String) :
    (d.entries.foldl restoreOutbox r).get? key =
      (d.get? key).elim (r.get? key) fun stored =>
        withOutbox (queuedItems stored) (r.get? key) := by
  refine Dictionary.view_foldl (v := Dictionary.get?)
    (g := fun _ seen stored => withOutbox (queuedItems stored) seen) ?_ ?_ d r key
  · intro r entry key hkey
    rw [restoreOutbox, get?_foldl_change, if_neg fun h => hkey h.1]
  · intro r entry
    rw [restoreOutbox, get?_foldl_change, withOutbox, foldl_pushPending]
    by_cases h : queuedItems entry.2 = []
    · rw [if_neg fun h' => h'.2 h, if_pos h]
    · rw [if_pos ⟨rfl, h⟩, if_neg h]
      rfl

theorem get?_foldl_restoreRead (d : Dictionary Value) (r : Dictionary Thread) (key : String) :
    (d.entries.foldl restoreRead r).get? key =
      (d.get? key).elim (r.get? key) fun stored => withCursor stored (r.get? key) := by
  refine Dictionary.view_foldl (v := Dictionary.get?)
    (g := fun _ seen stored => withCursor stored seen) ?_ ?_ d r key
  · intro r entry key hkey
    unfold restoreRead
    split
    · split
      · rw [get?_change, if_neg hkey]
      · rfl
    · rfl
  · intro r entry
    unfold restoreRead withCursor
    split
    · cases hseen : r.get? entry.1 with
      | none => simp [Dictionary.has, hseen]
      | some thread => simp [Dictionary.has, hseen, get?_change]
    · rfl

/-- What is read of a conversation, of a payload with these three parts. -/
theorem get?_decodePayload (now : Nat) (coerced : Value → Except Thrown Bytes) {payload : Value}
    {conversations outbox read : Dictionary Value}
    (hversion : isVersion (optionalProperty payload "v") = true)
    (hobject : isObject (optionalProperty payload "conversations") = true)
    (hconversations : entries (optionalProperty payload "conversations") = .ok conversations)
    (houtbox : entries (orEmpty (optionalProperty payload "outbox")) = .ok outbox)
    (hread : entries (orEmpty (optionalProperty payload "read")) = .ok read) :
    ∃ restored, decodePayload now coerced payload = .ok restored ∧ ∀ key, restored.get? key =
      ((read.get? key).elim id withCursor <| (outbox.get? key).elim id (withOutbox ∘ queuedItems) <|
        (conversations.get? key).elim none fun stored =>
          withMessages (restoredItems now coerced stored) none).bind fun thread =>
        if thread.messages.isEmpty && thread.outbox.isEmpty then none else some thread := by
  refine ⟨_, by
    rw [decodePayload, if_pos ⟨hversion, hobject⟩, hconversations, houtbox, hread]
    rfl, fun key => ?_⟩
  rw [Dictionary.get?_filterMap, get?_foldl_restoreRead, get?_foldl_restoreOutbox,
    get?_foldl_restoreMessages]
  cases read.get? key <;> cases outbox.get? key <;> rfl

end

/-! ## One entry there and back -/

section
variable {digits : Rat → List Char} {now : Nat} {coerced : Value → Except Thrown Bytes}

theorem numeral_natCast (hdigits : WritesWhole digits) {n : Nat} (h : n < 2 ^ 53) :
    Json.Numeral digits n := by
  intro rest hrest
  rw [hdigits n h, Json.readNumber_toDigits n hrest]

theorem toUint8_number (octet : UInt8) : toUint8 (number octet.toNat) = some octet := by
  rw [number, toUint8, Wire.trunc_natCast]
  refine congrArg some ?_
  rw [Int.emod_eq_of_lt (Int.natCast_nonneg _) (by exact_mod_cast octet.toNat_lt),
    Int.toNat_natCast, UInt8.ofNat_toNat]

theorem newUint8Array_octets (bytes : Bytes) :
    newUint8Array coerced (.arr (bytes.map fun octet => number octet.toNat)) = .ok bytes := by
  have hmapM : (bytes.map fun octet : UInt8 => number octet.toNat).mapM toUint8 = some bytes := by
    induction bytes with
    | nil => rfl
    | cons octet bytes ih =>
      rw [List.map_cons, List.mapM_cons, toUint8_number, ih]
      rfl
  rw [newUint8Array, hmapM]

/-- A message as the codec lets it through. -/
def readBack (m : Message) : Restored := { restored m with content := m.content.received }

theorem readBack_eq_iff (m : Message) :
    readBack m = restored m ↔ ∀ text ∈ m.content.texts, ¬ BeginsWithMark text := by
  rw [← Content.received_eq_iff, readBack, restored, Restored.mk.injEq]
  simp

/-- A message in the domains is stored, as a value that its text says, and read back. -/
theorem restoreMessage_storedMessage (coerced : Value → Except Thrown Bytes)
    (hdigits : WritesWhole digits) {m : Message} (h : MessageFits digits now m) :
    ∃ value, storedMessage digits m = .ok value ∧
      value.Spoken digits ∧ restoreMessage now coerced value = .ok (readBack m) := by
  obtain ⟨bytes, hbytes⟩ := h.encodes
  refine ⟨_, by rw [storedMessage, hbytes]; rfl, ?_, ?_⟩
  · have hseq := Json.spoken_num h.seq
    have hoctets : ∀ octet ∈ bytes.map fun octet => number octet.toNat, octet.Spoken digits := by
      refine List.forall_mem_map.2 fun octet _ => Json.spoken_num (numeral_natCast hdigits ?_)
      exact Nat.lt_trans octet.toNat_lt (by decide)
    have hsender : Value.Spoken digits (match m.sender with
        | some sender => .str sender
        | none => .null) := by
      cases m.sender with
      | none => exact Json.spoken_null
      | some sender => exact Json.spoken_str sender
    refine Json.spoken_obj ?_ (List.forall_mem_append.2 ⟨?_, ?_⟩)
    · cases m.expiresAt <;> simp
    · simp only [List.forall_mem_cons]
      exact ⟨hseq, hsender, Json.spoken_bool _, Json.spoken_arr hoctets, List.forall_mem_nil _⟩
    · cases hexpires : m.expiresAt with
      | none => exact List.forall_mem_nil _
      | some t => exact List.forall_mem_singleton.2 (Json.spoken_num (h.expiresAt t hexpires))
  · have hdecode : Wire.decode now (.whole bytes) =
        .ok ⟨m.content.received, if Wire.isControl m.content then none else m.sentAt⟩ :=
      Wire.decode_encode hdigits h.content h.sentAt (by rw [View.items_whole]; exact hbytes)
    cases hexpires : m.expiresAt with
    | none =>
      simp [restoreMessage, Wire.property, Json.getMember, newUint8Array_octets, hdecode, bind,
        Except.bind, pure, Except.pure, readBack, restored, hexpires]
    | some t =>
      simp [restoreMessage, Wire.property, Json.getMember, newUint8Array_octets, hdecode, bind,
        Except.bind, pure, Except.pure, readBack, restored, hexpires]
      rfl

theorem restorePending_storedPending (pending : Pending) :
    restorePending (storedPending pending) = some (queued pending) := by
  rfl

theorem spoken_storedPending {pending : Pending} (h : Json.Numeral digits pending.sentAt) :
    (storedPending pending).Spoken digits := by
  refine Json.spoken_obj (by simp) ?_
  simp only [List.forall_mem_cons]
  exact ⟨Json.spoken_str _, Json.spoken_str _, Json.spoken_num h, Json.spoken_str _,
    List.forall_mem_nil _⟩

/-! ## The payload there and back -/

/-- What a message in the domains is stored as. -/
def valueOf (digits : Rat → List Char) (m : Message) : Value :=
  match storedMessage digits m with
  | .ok value => value
  | .error _ => .undefined

theorem valueOf_spec (coerced : Value → Except Thrown Bytes) (hdigits : WritesWhole digits)
    {m : Message} (h : MessageFits digits now m) :
    storedMessage digits m = .ok (valueOf digits m) ∧ (valueOf digits m).Spoken digits ∧
      restoreMessage now coerced (valueOf digits m) = .ok (readBack m) := by
  obtain ⟨value, hstored, hspoken, hrestored⟩ :=
    restoreMessage_storedMessage coerced hdigits h
  have hvalue : valueOf digits m = value := by rw [valueOf, hstored]
  rw [hvalue]
  exact ⟨hstored, hspoken, hrestored⟩

def tailOf (digits : Rat → List Char) (cached : Cached) : Option Value :=
  if recent cached.messages = [] then none
  else some (.arr ((recent cached.messages).map (valueOf digits)))

def queueOf (cached : Cached) : Option Value :=
  if cached.outbox = [] then none else some (.arr (cached.outbox.map storedPending))

def cursorOf (cached : Cached) : Option Value :=
  if 0 < cached.readCursor then some (number cached.readCursor) else none

theorem mem_of_mem_recent {messages : List Message} (h : m ∈ recent messages) : m ∈ messages :=
  (List.mem_insertionSort _).1 (List.mem_of_mem_drop h)

theorem storedTail_eq (hdigits : WritesWhole digits) {entry : String × Cached}
    (h : CachedFits digits now entry.2) :
    storedTail digits entry = .ok ((tailOf digits entry.2).map (entry.1, ·)) := by
  have hmapM : (recent entry.2.messages).mapM (storedMessage digits) =
      .ok ((recent entry.2.messages).map (valueOf digits)) :=
    Fallible.mapM_eq_ok_map fun m hm =>
      (valueOf_spec (fun _ => .error .typeError) hdigits
        (h.messages m (mem_of_mem_recent hm))).1
  rw [storedTail, hmapM, tailOf]
  change Except.ok (if (recent entry.2.messages).map (valueOf digits) = [] then _ else _) = _
  by_cases hrecent : recent entry.2.messages = []
  · rw [if_pos hrecent, if_pos (List.map_eq_nil_iff.2 hrecent)]
    rfl
  · rw [if_neg hrecent, if_neg fun h => hrecent (List.map_eq_nil_iff.1 h)]
    rfl

variable {conversations : Dictionary Cached}

theorem Fits.of_mem (h : Fits digits now conversations) (hmem : entry ∈ conversations.entries) :
    entry.1 ≠ "__proto__" ∧ CachedFits digits now entry.2 :=
  h _ _ (Dictionary.get?_eq_some_iff.2 hmem)

/-- Of what is kept of each conversation, an object. -/
theorem assigned_filterMap (h : Fits digits now conversations) (f : Cached → Option Value) :
    assigned (conversations.entries.filterMap fun entry => (f entry.2).map (entry.1, ·)) =
      .obj (conversations.filterMap f).entries := by
  refine congrArg Value.obj (List.filter_eq_self.2 fun entry hmem => ?_)
  obtain ⟨entry', hmem', hentry⟩ := List.mem_filterMap.1 hmem
  obtain ⟨value, _, rfl⟩ := Option.map_eq_some_iff.1 hentry
  exact decide_eq_true (h.of_mem hmem').1

/-- The payload of conversations in the domains. -/
def payloadOf (digits : Rat → List Char) (conversations : Dictionary Cached) : Value :=
  .obj [("v", number 1),
    ("conversations", .obj (conversations.filterMap (tailOf digits)).entries),
    ("outbox", .obj (conversations.filterMap queueOf).entries),
    ("read", .obj (conversations.filterMap cursorOf).entries)]

theorem payload_eq (hdigits : WritesWhole digits) (h : Fits digits now conversations) :
    payload digits conversations = .ok (payloadOf digits conversations) := by
  have hmapM : conversations.entries.mapM (storedTail digits) =
      .ok (conversations.entries.map fun entry => (tailOf digits entry.2).map (entry.1, ·)) :=
    Fallible.mapM_eq_ok_map fun entry hmem => storedTail_eq hdigits (h.of_mem hmem).2
  have hqueue : (fun entry : String × Cached => if entry.2.outbox = [] then none
      else some (entry.1, Value.arr (entry.2.outbox.map storedPending))) =
      fun entry => (queueOf entry.2).map (entry.1, ·) := by
    funext entry
    unfold queueOf
    split <;> rfl
  have hcursor : (fun entry : String × Cached => if 0 < entry.2.readCursor then
      some (entry.1, number entry.2.readCursor) else none) =
      fun entry => (cursorOf entry.2).map (entry.1, ·) := by
    funext entry
    unfold cursorOf
    split <;> rfl
  have htails : assigned ((conversations.entries.map fun entry =>
      (tailOf digits entry.2).map (entry.1, ·)).filterMap id) =
        .obj (conversations.filterMap (tailOf digits)).entries := by
    rw [List.filterMap_map, Function.id_comp]
    exact assigned_filterMap h (tailOf digits)
  rw [payload, hmapM, hqueue, hcursor, assigned_filterMap h queueOf,
    assigned_filterMap h cursorOf]
  change Except.ok (Value.obj [("v", _), ("conversations", assigned (List.filterMap id _)),
    ("outbox", _), ("read", _)]) = _
  rw [htails]
  rfl

theorem spoken_entries (h : Fits digits now conversations) {f : Cached → Option Value}
    (hspoken : ∀ cached, CachedFits digits now cached → ∀ value ∈ f cached, value.Spoken digits) :
    Value.Spoken digits (.obj (conversations.filterMap f).entries) := by
  refine Json.spoken_obj (conversations.filterMap f).nodup fun member hmem => ?_
  obtain ⟨entry, hentry, hvalue⟩ := List.mem_filterMap.1 hmem
  obtain ⟨value, hkept, rfl⟩ := Option.map_eq_some_iff.1 hvalue
  exact hspoken _ (h.of_mem hentry).2 value hkept

theorem spoken_payload (hdigits : WritesWhole digits) (h : Fits digits now conversations) :
    (payloadOf digits conversations).Spoken digits := by
  refine Json.spoken_obj (by simp) ?_
  simp only [List.forall_mem_cons]
  refine ⟨?_, spoken_entries h fun cached hcached value hvalue => ?_,
    spoken_entries h fun cached hcached value hvalue => ?_,
    spoken_entries h fun cached hcached value hvalue => ?_, List.forall_mem_nil _⟩
  · exact Json.spoken_num (numeral_natCast hdigits (show 1 < 2 ^ 53 by decide))
  · unfold tailOf at hvalue
    split at hvalue
    · cases hvalue
    · cases hvalue
      refine Json.spoken_arr (List.forall_mem_map.2 fun m hm => ?_)
      exact (valueOf_spec (fun _ => .error .typeError) hdigits
        (hcached.messages m (mem_of_mem_recent hm))).2.1
  · unfold queueOf at hvalue
    split at hvalue
    · cases hvalue
    · cases hvalue
      exact Json.spoken_arr (List.forall_mem_map.2 fun pending hpending =>
        spoken_storedPending (hcached.outbox pending hpending))
  · unfold cursorOf at hvalue
    split at hvalue
    · cases hvalue
      exact Json.spoken_num hcached.readCursor
    · cases hvalue

theorem restoredItems_tail (hdigits : WritesWhole digits) {cached : Cached}
    (h : CachedFits digits now cached) :
    restoredItems now coerced (.arr ((recent cached.messages).map (valueOf digits))) =
      (recent cached.messages).map readBack := by
  rw [restoredItems, itemsOf, List.filterMap_map, ← List.filterMap_eq_map]
  refine List.filterMap_congr fun m hm => ?_
  have hspec := (valueOf_spec coerced hdigits
    (h.messages m (mem_of_mem_recent hm))).2.2
  rw [Function.comp_apply, hspec]
  rfl

theorem queuedItems_queue (outbox : List Pending) :
    queuedItems (.arr (outbox.map storedPending)) = outbox.map queued := by
  rw [queuedItems, itemsOf, List.filterMap_map, ← List.filterMap_eq_map]
  exact List.filterMap_congr fun pending _ => restorePending_storedPending pending

/-- What comes back of a conversation. -/
def settled (cached : Cached) : Option Thread :=
  if cached.messages = [] ∧ cached.outbox = [] then none
  else some ⟨(recent cached.messages).map readBack, cached.outbox.map queued,
    .finite cached.readCursor⟩

/-- The three loops, over what is kept of one conversation. -/
theorem settled_eq (hdigits : WritesWhole digits) {cached : Cached}
    (h : CachedFits digits now cached) :
    ((cursorOf cached).elim id withCursor <|
      (queueOf cached).elim id (withOutbox ∘ queuedItems) <|
      (tailOf digits cached).elim none fun stored =>
        withMessages (restoredItems now coerced stored) none).bind (fun thread =>
      if thread.messages.isEmpty && thread.outbox.isEmpty then none else some thread) =
        settled cached := by
  have htail : (tailOf digits cached).elim none (fun stored =>
      withMessages (restoredItems now coerced stored) none) =
        if cached.messages = [] then none
        else some ⟨(recent cached.messages).map readBack, [], .finite 0⟩ := by
    unfold tailOf
    by_cases hmessages : cached.messages = []
    · rw [if_pos hmessages, if_pos (Hydrate.recent_eq_nil_iff.2 hmessages)]
      rfl
    · have hrecent := mt Hydrate.recent_eq_nil_iff.1 hmessages
      rw [if_neg hmessages, if_neg hrecent, Option.elim_some, restoredItems_tail hdigits h,
        withMessages, if_neg (mt List.map_eq_nil_iff.1 hrecent), Option.getD_none, Thread.fresh,
        List.nil_append]
  have hqueue : ∀ seen, (queueOf cached).elim id (withOutbox ∘ queuedItems) seen =
      if cached.outbox = [] then seen
      else some { seen.getD .fresh with
        outbox := (seen.getD .fresh).outbox ++ cached.outbox.map queued } := by
    intro seen
    unfold queueOf
    by_cases houtbox : cached.outbox = []
    · rw [if_pos houtbox, if_pos houtbox]
      rfl
    · rw [if_neg houtbox, if_neg houtbox, Option.elim_some, Function.comp_apply,
        queuedItems_queue, withOutbox, if_neg (mt List.map_eq_nil_iff.1 houtbox)]
  have hcursor : ∀ seen, (cursorOf cached).elim id withCursor seen =
      if 0 < cached.readCursor then seen.map (Thread.read (.finite cached.readCursor))
      else seen := by
    intro seen
    unfold cursorOf
    split <;> rfl
  rw [htail, hqueue, hcursor, settled]
  have hcursor' : ∀ thread : Thread, (0 < cached.readCursor ∨ thread.readCursor = .finite 0) →
      (if 0 < cached.readCursor then (some thread).map (Thread.read (.finite cached.readCursor))
        else some thread) = some { thread with readCursor := .finite cached.readCursor } := by
    intro thread hthread
    by_cases hread : 0 < cached.readCursor
    · rw [if_pos hread]
      rfl
    · rw [if_neg hread, Nat.eq_zero_of_not_pos hread]
      exact congrArg (fun cursor => some { thread with readCursor := cursor })
        (hthread.resolve_left hread)
  by_cases hmessages : cached.messages = []
  · rw [if_pos hmessages]
    by_cases houtbox : cached.outbox = []
    · rw [if_pos houtbox, if_pos (⟨hmessages, houtbox⟩ : cached.messages = [] ∧ cached.outbox = [])]
      split <;> rfl
    · have hheld : ¬ (cached.messages = [] ∧ cached.outbox = []) := fun h => houtbox h.2
      rw [if_neg houtbox, if_neg hheld, hcursor' _ (.inr rfl),
        Hydrate.recent_eq_nil_iff.2 hmessages]
      simp [Thread.fresh, houtbox]
  · have hheld : ¬ (cached.messages = [] ∧ cached.outbox = []) := fun h => hmessages h.1
    have hrecent := mt Hydrate.recent_eq_nil_iff.1 hmessages
    rw [if_neg hmessages, if_neg hheld]
    by_cases houtbox : cached.outbox = []
    · rw [if_pos houtbox, hcursor' _ (.inr rfl)]
      simp [hrecent, houtbox]
    · rw [if_neg houtbox, hcursor' _ (.inr rfl)]
      simp [hrecent]

theorem property_payloadOf (digits : Rat → List Char) (conversations : Dictionary Cached) :
    optionalProperty (payloadOf digits conversations) "v" = number 1 ∧
      optionalProperty (payloadOf digits conversations) "conversations" =
        .obj (conversations.filterMap (tailOf digits)).entries ∧
      orEmpty (optionalProperty (payloadOf digits conversations) "outbox") =
        .obj (conversations.filterMap queueOf).entries ∧
      orEmpty (optionalProperty (payloadOf digits conversations) "read") =
        .obj (conversations.filterMap cursorOf).entries := by
  simp [payloadOf, optionalProperty, Wire.property, Json.getMember, orEmpty]

/-- What is written of conversations in the domains is read back, each for itself. -/
theorem decodeHistory_encodeHistory (coerced : Value → Except Thrown Bytes)
    (hdigits : WritesWhole digits)
    (h : Fits digits now conversations) : ∃ bytes restored,
      encodeHistory digits conversations = .ok bytes ∧
        decodeHistory now coerced bytes = .ok restored ∧
        ∀ key, restored.get? key = (conversations.get? key).bind settled := by
  obtain ⟨document, hstringify, hread, hparse⟩ := (spoken_payload hdigits h).throughText
  have htext : Wire.textDecode (asBytes (String.ofList (Json.write digits document))) =
      String.ofList (Json.write digits document) := by
    refine (Wire.textDecode_asBytes _).2 fun hmark => ?_
    rw [BeginsWithMark, String.toList_ofList] at hmark
    cases hstringify
    rw [Json.write, List.head?_cons] at hmark
    exact absurd hmark (by decide)
  have hencode : encodeHistory digits conversations =
      .ok (asBytes (String.ofList (Json.write digits document))) := by
    rw [encodeHistory, payload_eq hdigits h]
    change Except.ok (asBytes (String.ofList
      (Json.write digits ((Json.stringify (payloadOf digits conversations)).getD .null)))) = _
    rw [hstringify, Option.getD_some]
  have hentries : ∀ f : Cached → Option Value,
      entries (.obj (conversations.filterMap f).entries) = .ok (conversations.filterMap f) :=
    fun f => congrArg Except.ok (Dictionary.ofEntries_entries _)
  obtain ⟨hversion, hconversations, houtbox, hread'⟩ := property_payloadOf digits conversations
  obtain ⟨restored, hdecode, hget⟩ := get?_decodePayload now coerced (by rw [hversion]; rfl)
    (by rw [hconversations]; rfl) (by rw [hconversations]; exact hentries (tailOf digits))
    (by rw [houtbox]; exact hentries queueOf) (by rw [hread']; exact hentries cursorOf)
  refine ⟨_, restored, hencode, ?_, fun key => ?_⟩
  · rw [decodeHistory, htext, String.toList_ofList, hread]
    exact (congrArg _ hparse).trans hdecode
  · rw [hget, Dictionary.get?_filterMap, Dictionary.get?_filterMap, Dictionary.get?_filterMap]
    cases hcached : conversations.get? key with
    | none => rfl
    | some cached =>
      simp only [Option.bind_some]
      exact settled_eq hdigits (h key cached hcached).2

/-! ## Whatever is read -/

/-- The payload is of this version, and its conversations are `null`, which is an object. -/
def NullConversations (payload : Value) : Prop :=
  isVersion (optionalProperty payload "v") = true ∧
    optionalProperty payload "conversations" = .null

theorem entries_eq_ok (hnull : value ≠ .null) (hundefined : value ≠ .undefined) :
    ∃ d, entries value = .ok d := by
  cases value with
  | null => exact absurd rfl hnull
  | undefined => exact absurd rfl hundefined
  | bool | num | str | arr | obj => exact ⟨_, rfl⟩

theorem entries_orEmpty (value : Value) : ∃ d, entries (orEmpty value) = .ok d := by
  cases value <;> exact ⟨_, rfl⟩

theorem decodePayload_eq_ok (now : Nat) (coerced : Value → Except Thrown Bytes) {payload : Value}
    (h : ¬ NullConversations payload) :
    ∃ restored, decodePayload now coerced payload = .ok restored := by
  by_cases hread : isVersion (optionalProperty payload "v") = true ∧
      isObject (optionalProperty payload "conversations") = true
  · have hnull : optionalProperty payload "conversations" ≠ .null := fun hnull => h ⟨hread.1, hnull⟩
    have hundefined : optionalProperty payload "conversations" ≠ .undefined := by
      intro hundefined
      rw [hundefined] at hread
      cases hread.2
    obtain ⟨conversations, hconversations⟩ := entries_eq_ok hnull hundefined
    obtain ⟨outbox, houtbox⟩ := entries_orEmpty (optionalProperty payload "outbox")
    obtain ⟨read, hread'⟩ := entries_orEmpty (optionalProperty payload "read")
    obtain ⟨restored, hrestored, _⟩ :=
      get?_decodePayload now coerced hread.1 hread.2 hconversations houtbox hread'
    exact ⟨restored, hrestored⟩
  · exact ⟨∅, by rw [decodePayload, if_neg hread]⟩

/-- What the bytes say, if it is JSON, is not such a payload. -/
def Readable (bytes : Bytes) : Prop :=
  ∀ document, Json.read (Wire.textDecode bytes).toList = some document →
    ¬ NullConversations (Json.parse document)

theorem decodeHistory_eq_ok (now : Nat) (coerced : Value → Except Thrown Bytes) {bytes : Bytes}
    (h : Readable bytes) : ∃ restored, decodeHistory now coerced bytes = .ok restored := by
  unfold decodeHistory
  split
  · rename_i document hdocument
    exact decodePayload_eq_ok now coerced (h document hdocument)
  · exact ⟨∅, rfl⟩

/-- `Object.entries(null)` throws, outside every `try`. -/
theorem decodeHistory_eq_ok_iff (now : Nat) (coerced : Value → Except Thrown Bytes) (bytes : Bytes) :
    (∃ restored, decodeHistory now coerced bytes = .ok restored) ↔ Readable bytes := by
  refine ⟨fun ⟨restored, h⟩ document hdocument ⟨hversion, hnull⟩ => ?_, decodeHistory_eq_ok now coerced⟩
  rw [decodeHistory, hdocument] at h
  change decodePayload now coerced (Json.parse document) = .ok restored at h
  rw [decodePayload, hnull, if_pos ⟨hversion, rfl⟩] at h
  cases h

/-! ## Which conversations come back -/

theorem Latest.subset {kept messages : List Message} (h : Latest kept messages) :
    kept ⊆ messages := by
  obtain ⟨older, hperm, -⟩ := h.split
  exact fun m hm => hperm.mem_iff.2 (List.mem_append_right _ hm)

/-- Messages told apart by their numbers are told apart in a row. -/
theorem eq_of_map_seq {messages kept kept' : List Message} (h : (messages.map (·.seq)).Nodup)
    (hkept : kept ⊆ messages) (hkept' : kept' ⊆ messages)
    (hseq : kept.map (·.seq) = kept'.map (·.seq)) : kept = kept' := by
  induction kept generalizing kept' with
  | nil => exact (List.map_eq_nil_iff.1 hseq.symm).symm
  | cons m kept ih =>
    obtain ⟨m', kept', rfl⟩ : ∃ m' rest, kept' = m' :: rest :=
      List.exists_cons_of_ne_nil fun hnil => by
        rw [hnil] at hseq
        cases hseq
    obtain ⟨hm, hrest⟩ := List.cons_subset.1 hkept
    obtain ⟨hm', hrest'⟩ := List.cons_subset.1 hkept'
    obtain ⟨hhead, htail⟩ := List.cons.inj hseq
    rw [List.inj_on_of_nodup_map h hm hm' hhead, ih hrest hrest' htail]

/-- Read back as they were, messages are the ones that were kept. -/
theorem map_readBack_eq_iff {messages : List Message} (h : (messages.map (·.seq)).Nodup) :
    (∃ kept, Latest kept messages ∧ (recent messages).map readBack = kept.map restored) ↔
      ∀ m ∈ recent messages, ∀ text ∈ m.content.texts, ¬ BeginsWithMark text := by
  constructor
  · rintro ⟨kept, hlatest, hmap⟩ m hm
    have hseq : (recent messages).map (·.seq) = kept.map (·.seq) := by
      have hseqs := congrArg (List.map Restored.seq) hmap
      rw [List.map_map, List.map_map] at hseqs
      have hcast : ∀ l : List Message, l.map (fun m => number m.seq) =
          (l.map (·.seq)).map fun n : Nat => number n := fun l => by rw [List.map_map]; rfl
      have hnumber : Function.Injective fun n : Nat => number n := fun n n' hn =>
        Nat.cast_injective (Number.finite.inj (Value.num.inj hn))
      refine hnumber.list_map ?_
      rw [← hcast, ← hcast]
      exact hseqs
    have hkept := eq_of_map_seq h (latest_recent h).subset hlatest.subset hseq
    rw [← hkept] at hmap
    exact (readBack_eq_iff m).1 (List.map_inj_left.1 hmap m hm)
  · intro htexts
    exact ⟨_, latest_recent h, List.map_congr_left fun m hm => (readBack_eq_iff m).2 (htexts m hm)⟩

theorem comesBack_settled_iff {digits : Rat → List Char} {cached : Cached}
    (h : CachedFits digits now cached) :
    ComesBack (some cached) (settled cached) ↔ Survives cached := by
  change Returns cached ((settled cached).getD .fresh) ↔ _
  unfold settled
  split
  next hempty =>
    obtain ⟨hmessages, houtbox⟩ := hempty
    have hrecent : recent cached.messages = [] := Hydrate.recent_eq_nil_iff.2 hmessages
    constructor
    · rintro ⟨kept, -, hthread⟩
      refine ⟨fun _ _ => ?_, fun m hm => ?_⟩
      · have hcursor := congrArg Thread.readCursor hthread
        exact (Nat.cast_eq_zero.1 (Number.finite.inj hcursor).symm)
      · rw [hrecent] at hm
        cases hm
    · intro hsurvives
      refine ⟨_, latest_recent h.distinct, ?_⟩
      rw [hrecent, houtbox, hsurvives.cursor hmessages houtbox]
      rfl
  next hheld =>
    have hcursor : cached.messages = [] → cached.outbox = [] → cached.readCursor = 0 :=
      fun hmessages houtbox => absurd ⟨hmessages, houtbox⟩ hheld
    constructor
    · rintro ⟨kept, hlatest, hthread⟩
      rw [Option.getD_some] at hthread
      have hmap : (recent cached.messages).map readBack = kept.map restored :=
        (Thread.mk.inj hthread).1
      exact ⟨hcursor, (map_readBack_eq_iff h.distinct).1 ⟨kept, hlatest, hmap⟩⟩
    · intro hsurvives
      obtain ⟨kept, hlatest, hmap⟩ := (map_readBack_eq_iff h.distinct).2 hsurvives.texts
      exact ⟨kept, hlatest, by rw [Option.getD_some, hmap]⟩

theorem roundTrips_iff_survive (now : Nat) (coerced : Value → Except Thrown Bytes)
    {conversations : Dictionary Cached} (hdigits : WritesWhole digits)
    (h : Fits digits now conversations) :
    RoundTrips digits now coerced conversations ↔
      ∀ key cached, conversations.get? key = some cached → Survives cached := by
  obtain ⟨bytes, restored, hencode, hdecode, hget⟩ :=
    decodeHistory_encodeHistory coerced hdigits h
  constructor
  · rintro ⟨bytes', restored', hencode', hdecode', hback⟩ key cached hheld
    cases hencode.symm.trans hencode'
    cases hdecode.symm.trans hdecode'
    have hcomes := hback key
    rw [hget, hheld] at hcomes
    exact (comesBack_settled_iff (h key cached hheld).2).1 hcomes
  · intro hsurvive
    refine ⟨bytes, restored, hencode, hdecode, fun key => ?_⟩
    rw [hget]
    cases hheld : conversations.get? key with
    | none => rfl
    | some cached =>
      exact (comesBack_settled_iff (h key cached hheld).2).2 (hsurvive key cached hheld)

/-- Something is read of any bytes but those that say `null` for the conversations of this version;
and what is written comes back, each conversation with its latest messages in order, its queue, all
of it failed, and its cursor, if and only if no cursor stands alone and no text that is kept begins
with a byte order mark. -/
theorem history_iff (now : Nat) (coerced : Value → Except Thrown Bytes)
    (hdigits : WritesWhole digits) :
    (∀ bytes, (∃ restored, decodeHistory now coerced bytes = .ok restored) ↔ Readable bytes) ∧
      ∀ conversations, Fits digits now conversations →
        (RoundTrips digits now coerced conversations ↔
          ∀ key cached, conversations.get? key = some cached → Survives cached) :=
  ⟨decodeHistory_eq_ok_iff now coerced, fun _ => roundTrips_iff_survive now coerced hdigits⟩

end

/-! ## Runs -/

def noCoercion (_ : Value) : Except Thrown Bytes := .error .typeError

def one (key : String) (cached : Cached) : Dictionary Cached :=
  (∅ : Dictionary Cached).set key cached

theorem get?_one (cached : Cached) :
    (one key cached).get? k = if k = key then some cached else none :=
  Dictionary.get?_set ..

theorem fits_one {key : String} (hkey : key ≠ "__proto__") (h : CachedFits digits now cached) :
    Fits digits now (one key cached) := by
  intro k cached' hget
  rw [get?_one] at hget
  split at hget
  · rename_i hk
    cases hget
    exact ⟨hk ▸ hkey, h⟩
  · cases hget

/-- A text, one that waits, and a cursor. -/
def conversation : Cached where
  messages := [⟨4, some "ana", false, some 1000, some 9000, .text "bom dia"⟩]
  outbox := [⟨"l1", "até já", 7, .sending⟩]
  readCursor := 3

theorem fits_conversation : CachedFits Wire.wholeNumber 0 conversation where
  messages := by
    have hwhole := Wire.writesWhole_wholeNumber
    refine List.forall_mem_singleton.2 ⟨numeral_natCast hwhole (show 4 < 2 ^ 53 by decide), trivial,
      ⟨_, rfl⟩, ?_, ?_⟩
    · intro t ht
      cases ht
      exact Wire.Whole.stamp ⟨1000, by decide, rfl⟩
    · intro t ht
      cases ht
      exact numeral_natCast hwhole (show 9000 < 2 ^ 53 by decide)
  distinct := List.nodup_singleton _
  outbox := List.forall_mem_singleton.2
    (numeral_natCast Wire.writesWhole_wholeNumber (show 7 < 2 ^ 53 by decide))
  readCursor := numeral_natCast Wire.writesWhole_wholeNumber (show 3 < 2 ^ 53 by decide)

theorem history_iff_conversation :
    RoundTrips Wire.wholeNumber 0 noCoercion (one "0a" conversation) := by
  refine ((history_iff 0 noCoercion Wire.writesWhole_wholeNumber).2 _
    (fits_one (by decide) fits_conversation)).2 fun key cached hheld => ?_
  rw [get?_one] at hheld
  split at hheld
  · cases hheld
    refine ⟨nofun, fun m hm => ?_⟩
    cases List.mem_singleton.1 (mem_of_mem_recent hm)
    exact List.forall_mem_singleton.2 (by decide)
  · cases hheld

def onlyRead : Cached := ⟨[], [], 3⟩

/-- A payload of this version, whose conversations are `null`. -/
def nullPayload : String := "\x7b\"v\":1,\"conversations\":null\x7d"

theorem not_readable_nullPayload : ¬ Readable (asBytes nullPayload) := by
  intro hreadable
  let document : Json.Document := .obj [("v", .num 1), ("conversations", .null)]
  have hmark : ¬ BeginsWithMark nullPayload := by
    rw [BeginsWithMark, nullPayload]
    decide
  have hwritten : nullPayload.toList = Json.write Wire.wholeNumber document := by
    rw [nullPayload]
    decide +kernel
  have hnumerals : document.Numerals Wire.wholeNumber :=
    ⟨numeral_natCast Wire.writesWhole_wholeNumber (show 1 < 2 ^ 53 by decide), trivial, trivial⟩
  have hread : Json.read (Wire.textDecode (asBytes nullPayload)).toList = some document := by
    rw [(Wire.textDecode_asBytes _).2 hmark, hwritten, Json.read_write hnumerals]
  exact hreadable document hread ⟨by decide +kernel, rfl⟩

/-- Conversations that are `null` are thrown over, and of a conversation that has been read and holds
nothing the cursor is lost. -/
theorem null_conversations_thrown :
    (∀ restored, decodeHistory 0 noCoercion (asBytes nullPayload) ≠ .ok restored) ∧
    Fits Wire.wholeNumber 0 (one "0a" onlyRead) ∧
      ¬ RoundTrips Wire.wholeNumber 0 noCoercion (one "0a" onlyRead) := by
  have hwhole := Wire.writesWhole_wholeNumber
  have hfits : Fits Wire.wholeNumber 0 (one "0a" onlyRead) :=
    fits_one (by decide) ⟨List.forall_mem_nil _, List.nodup_nil, List.forall_mem_nil _,
      numeral_natCast hwhole (by decide)⟩
  refine ⟨fun restored h => ?_, hfits, fun hround => ?_⟩
  · exact not_readable_nullPayload ((decodeHistory_eq_ok_iff 0 noCoercion _).1 ⟨restored, h⟩)
  · have hsurvive := (roundTrips_iff_survive 0 noCoercion hwhole hfits).1 hround
    exact absurd ((hsurvive "0a" onlyRead (get?_one _)).cursor rfl rfl) (by decide)

end Whispee.Session.History
