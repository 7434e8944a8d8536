import Whispee.Session.Codec

/-!
# What survives the native store

`decodeSession_encodeSession` computes the session read back from any stored one; comparing the
two field by field gives the sessions that survive (`decodeSession_encodeSession_eq_self_iff`).
-/

namespace Whispee.Session

open Json (Document Value Number)

/-! ## A field, written and read back -/

def rereadJs (value : Js) : Js := ⟨Json.readBack value.1, Json.readBack_wf value.1⟩

/-- A present `undefined` reads back as an absent field. -/
def rereadOptional (value : Option Js) : Option Js :=
  value.bind fun v => if isUndefined v.1 then none else some (rereadJs v)

def rereadNumber (value : Option Number) : Option Number :=
  value.bind fun x => isNumber (Json.readBack (.num x))

def Record.reread (r : Record) : Record where
  members := Json.readBackMembers r.members
  nodup := (Json.readBackMembers_wf r.nodup).1
  wf := (Json.readBackMembers_wf r.nodup).2

@[simp] theorem isUndefined_readBack (value : Value) :
    isUndefined (Json.readBack value) = isUndefined value := by
  cases value with
  | num x => cases x <;> rfl
  | _ => rfl

/-- The value of a field as the decoder sees it. -/
def seen (value : Value) : Js := ⟨Json.readBack value, Json.readBack_wf value⟩

section
variable (name : String)

@[simp] theorem requireString_seen (s : String) :
    requireString (seen (.str s)).1 name = pure s := rfl

@[simp] theorem fromBase64_toBase64 (bytes : Bytes) : fromBase64 (toBase64 bytes) = pure bytes := by
  simp [fromBase64, toBase64]
  rfl

@[simp] theorem requireArray_seen (items : List String) :
    requireArray (seen (strings items)) name = pure (items.map .str) := by
  simp [requireArray, seen, strings, Json.readBack_strings]
  rfl

theorem seen_toValue (r : Record) : seen r.toValue = ⟨r.reread.toValue, r.reread.toValue_wf⟩ :=
  Subtype.ext (Json.readBack_obj r.nodup)

@[simp] theorem requireObject_seen (r : Record) :
    requireObject (seen r.toValue) name = pure r.reread := by
  rw [seen_toValue]
  rfl

theorem mapStrings_map {read : String → Except DecodeError α} {f : β → String} {g : β → α}
    (h : ∀ b, read (f b) = pure (g b)) (items : List β) (index : Nat) :
    mapStrings name read index (items.map (.str ∘ f)) = pure (items.map g) := by
  induction items generalizing index with
  | nil => rfl
  | cons b items ih =>
    have head (n : String) : requireString (.str (f b)) n = pure (f b) := rfl
    simp only [List.map_cons, Function.comp_apply, mapStrings, head, pure_bind, h, ih]

@[simp] theorem mapStrings_fromBase64 (items : List Bytes) :
    mapStrings name fromBase64 0 (items.map (.str ∘ toBase64)) = pure items := by
  rw [mapStrings_map name fromBase64_toBase64, List.map_id']

@[simp] theorem mapStrings_pure (items : List String) :
    mapStrings name pure 0 (items.map .str) = pure items := by
  simpa only [List.map_id, Function.comp_id] using
    mapStrings_map name (f := id) (g := id) (fun _ => rfl) items 0

@[simp] theorem isNumber_seen (value : Option Number) :
    isNumber (seen (orUndefined .num value)).1 = rereadNumber value := by
  cases value <;> rfl

/-- An optional field whose value is never `undefined` comes back as its reader returns it. -/
theorem optional_seen (f : α → Value) (read : Js → Except DecodeError β) (g : α → β)
    (hu : ∀ a, isUndefined (f a) = false) (h : ∀ a, read (seen (f a)) = pure (g a))
    (value : Option α) : optional (seen (orUndefined f value)) read = pure (value.map g) := by
  cases value with
  | none => rfl
  | some a =>
    have defined : isUndefined (seen (f a)).1 = false := by rw [seen, isUndefined_readBack, hu]
    rw [orUndefined, optional, defined, if_neg Bool.false_ne_true, h, pure_bind, Option.map_some]

theorem optional_cast (value : Option Js) :
    optional (seen (orUndefined Subtype.val value)) cast = pure (rereadOptional value) := by
  cases value with
  | none => rfl
  | some v =>
    simp only [optional, orUndefined, seen, isUndefined_readBack, rereadOptional, Option.bind_some]
    split <;> rfl

end

/-! ## The record -/

/-- The session read back from the bytes written for `s`. -/
def StoredSession.reread (s : StoredSession) : StoredSession :=
  { s with
    account := none
    handles := none
    lock := rereadOptional s.lock
    vaultEnabled := rereadOptional s.vaultEnabled
    verified := s.verified.reread
    cursors := s.cursors.reread
    knownDevices := s.knownDevices.reread
    signals := rereadOptional s.signals
    signalsAt := rereadNumber s.signalsAt
    prefStamps := rereadOptional s.prefStamps
    postingKeys := rereadOptional s.postingKeys
    logHead := rereadOptional s.logHead
    discloseConversationName := rereadOptional s.discloseConversationName
    conversationFlags := rereadOptional s.conversationFlags
    searchCoverage := rereadOptional s.searchCoverage
    contactPolicy := rereadOptional s.contactPolicy
    skinTone := rereadOptional s.skinTone
    profiles := s.profiles.map Record.reread
    petnames := s.petnames.map Record.reread }

theorem rawSession_nodup (s : StoredSession) : ((rawSession s).map Prod.fst).Nodup := by
  simp [rawSession]

theorem parse_encodeSession (s : StoredSession) :
    Json.parse (encodeSession s) = .obj (Json.readBackMembers (rawSession s)) := by
  have h := Json.throughText_obj (rawSession_nodup s)
  simpa [Json.throughText, encodeSession, Json.stringify] using h

theorem property_encodeSession (s : StoredSession) (h : (Json.parse (encodeSession s)).Wf)
    (name : String) :
    property ⟨Json.parse (encodeSession s), h⟩ name
      = seen (Json.getMember (rawSession s) name) := by
  refine Subtype.ext ?_
  simp only [parse_encodeSession, property, seen]
  exact Json.getMember_readBackMembers (rawSession_nodup s) name

theorem decodeFields_seen (s : StoredSession) :
    decodeFields (fun name => seen (Json.getMember (rawSession s) name)) = .ok s.reread := by
  have bytes (name : String) := optional_seen (.str <| toBase64 ·)
    (fun v => do fromBase64 (← requireString v.1 name)) id (fun _ => rfl) (by simp)
  have text (name : String) := optional_seen .str
    (fun v => requireString v.1 name) id (fun _ => rfl) (by simp)
  have list (name : String) := optional_seen strings
    (fun v => do mapStrings name pure 0 (← requireArray v name)) id (fun _ => rfl) (by simp)
  have record (name : String) := optional_seen Record.toValue
    (fun v => requireObject v name) Record.reread (fun _ => rfl) (by simp)
  simp [decodeFields, rawSession, Json.getMember, optional_cast, bytes, text, list, record]
  rfl

theorem decodeSession_encodeSession (s : StoredSession) :
    decodeSession (encodeSession s) = .ok s.reread := by
  have root : isObject (Json.parse (encodeSession s)) = true := by
    rw [parse_encodeSession]
    rfl
  have version : isVersion (seen (Json.getMember (rawSession s) "v")).1 = true := rfl
  simp only [decodeSession, root, property_encodeSession, version, Bool.not_true,
    Bool.false_eq_true, if_false]
  rw [show property _ = _ from funext (property_encodeSession s _)]
  exact decodeFields_seen s

/-! ## The sessions that survive -/

theorem rereadOptional_eq_self_iff {value : Option Js} :
    rereadOptional value = value ↔ ∀ v ∈ value, v.1.Exact := by
  cases value with
  | none => simp [rereadOptional]
  | some v =>
    have exact_iff := Json.throughText_eq_some_iff v.2
    simp only [rereadOptional, Option.bind_some, Option.mem_some_iff, forall_eq', ← exact_iff]
    cases h : v.1 with
    | undefined => simp [isUndefined, Json.throughText, Json.stringify]
    | _ =>
      simp only [isUndefined, Bool.false_eq_true, if_false, Option.some.injEq, rereadJs,
        Subtype.ext_iff, h]
      rw [Json.readBack, Option.getD_eq_iff]
      simp

theorem rereadNumber_eq_self_iff {value : Option Number} :
    rereadNumber value = value ↔ ∀ x ∈ value, ∃ q, x = .finite q := by
  cases value with
  | none => simp [rereadNumber]
  | some x =>
    cases x <;> simp [rereadNumber, Json.readBack, Json.throughText, Json.stringify,
      Json.Number.toDocument, Json.parse, isNumber]

theorem Record.reread_eq_self_iff {r : Record} : r.reread = r ↔ r.Exact := by
  rw [Record.Exact, Record.toValue, Json.Value.Exact, ← Json.members_throughText_iff r.wf]
  exact Record.ext_iff

theorem map_reread_eq_self_iff {value : Option Record} :
    value.map Record.reread = value ↔ ∀ r ∈ value, r.Exact := by
  cases value <;> simp [Record.reread_eq_self_iff]

/-- Whatever the session holds that goes through JSON as it is can be said in JSON. -/
@[mk_iff] structure StoredSession.Exact (s : StoredSession) : Prop where
  lock : ∀ v ∈ s.lock, v.1.Exact
  vaultEnabled : ∀ v ∈ s.vaultEnabled, v.1.Exact
  verified : s.verified.Exact
  cursors : s.cursors.Exact
  knownDevices : s.knownDevices.Exact
  signals : ∀ v ∈ s.signals, v.1.Exact
  signalsAt : ∀ x ∈ s.signalsAt, ∃ q, x = .finite q
  prefStamps : ∀ v ∈ s.prefStamps, v.1.Exact
  postingKeys : ∀ v ∈ s.postingKeys, v.1.Exact
  logHead : ∀ v ∈ s.logHead, v.1.Exact
  discloseConversationName : ∀ v ∈ s.discloseConversationName, v.1.Exact
  conversationFlags : ∀ v ∈ s.conversationFlags, v.1.Exact
  searchCoverage : ∀ v ∈ s.searchCoverage, v.1.Exact
  contactPolicy : ∀ v ∈ s.contactPolicy, v.1.Exact
  skinTone : ∀ v ∈ s.skinTone, v.1.Exact
  profiles : ∀ r ∈ s.profiles, r.Exact
  petnames : ∀ r ∈ s.petnames, r.Exact

theorem StoredSession.reread_eq_self_iff {s : StoredSession} :
    s.reread = s ↔ s.account = none ∧ s.handles = none ∧ s.Exact := by
  rw [StoredSession.exact_iff]
  cases s
  simp only [StoredSession.reread, StoredSession.mk.injEq, rereadOptional_eq_self_iff,
    rereadNumber_eq_self_iff, Record.reread_eq_self_iff, map_reread_eq_self_iff, true_and,
    eq_comm (a := none)]

/-- What a device that keeps its session in the native store finds at its next start. -/
def reopen (document : Document) :
    Except DecodeError (Except StoredSessionTooOld (Option StoredSession)) := do
  return openStored (some (← decodeSession document))

/-- A session comes back as it was saved exactly when it holds no `account`, no `handles` and
nothing JSON cannot say; and whatever else it holds, a session with an MLS state is refused as too
old when it is reopened. -/
theorem decodeSession_encodeSession_eq_self_iff (s : StoredSession) :
    (decodeSession (encodeSession s) = .ok s ↔
      s.account = none ∧ s.handles = none ∧ s.Exact) ∧
    (reopen (encodeSession s) = .ok (.error .storedSessionTooOld) ↔ s.state.isSome) := by
  refine ⟨?_, ?_⟩
  · rw [decodeSession_encodeSession, Except.ok.injEq, StoredSession.reread_eq_self_iff]
  · have reopened : reopen (encodeSession s) = .ok (openStored (some s.reread)) := by
      rw [reopen, decodeSession_encodeSession]
      rfl
    rw [reopened, Except.ok.injEq, openStored]
    cases h : s.state <;> simp [StoredSession.reread, h]

/-- A session with an account, an MLS state and nothing else of note. -/
def savedSession : StoredSession where
  deviceId := "device-1"
  account := some "00112233445566778899aabbccddeeff"
  handle := "alice"
  handles := none
  accountSeed := [1, 2, 3, 4]
  lock := none
  vaultEnabled := none
  state := some [9, 8, 7]
  groupIds := [[1], [2, 3]]
  verified := ⟨[], .nil, trivial⟩
  cursors := ⟨[("0a0b", .num (.finite 42))], by decide, trivial, trivial⟩
  knownDevices := ⟨[], .nil, trivial⟩
  signals := none
  signalsAt := none
  prefStamps := none
  postingKeys := none
  logHead := none
  history := none
  discloseConversationName := none
  conversationFlags := none
  locale := none
  searchCoverage := none
  contactPolicy := none
  blocked := none
  recentEmojis := none
  skinTone := none
  displayName := none
  profiles := none
  petnames := none

/-- The session opens from a store that keeps it as it is; from the native store it comes back
changed, and is refused. -/
theorem savedSession_lost :
    openStored (some savedSession) = .ok (some savedSession) ∧
    decodeSession (encodeSession savedSession) ≠ .ok savedSession ∧
    reopen (encodeSession savedSession) = .ok (.error .storedSessionTooOld) := by
  refine ⟨rfl, fun h => ?_, ?_⟩
  · rw [decodeSession_encodeSession, Except.ok.injEq, StoredSession.reread_eq_self_iff] at h
    exact Option.some_ne_none _ h.1
  · rw [reopen, decodeSession_encodeSession]
    rfl

end Whispee.Session
