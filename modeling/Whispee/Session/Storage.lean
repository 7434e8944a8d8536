import Whispee.Bytes
import Whispee.Lib.Json

/-!
# The stored session

What a device keeps between two starts (`apps/web/src/lib/storage.ts`), and the door
`Session.open` puts before it. Where the source only names the type of a field and never looks
inside, the field holds any JavaScript value.
-/

namespace Whispee.Session

/-- A JavaScript value: no object in it holds a property twice. -/
abbrev Js := { value : Json.Value // value.Wf }

/-- A plain object, `Record<string, _>` in the source. -/
@[ext] structure Record where
  members : List (String × Json.Value)
  nodup : (members.map Prod.fst).Nodup
  wf : Json.Value.MembersWf members

def Record.toValue (r : Record) : Json.Value := .obj r.members

theorem Record.toValue_wf (r : Record) : r.toValue.Wf := ⟨r.nodup, r.wf⟩

/-- Nothing in the object is lost when it is written as JSON. -/
def Record.Exact (r : Record) : Prop := r.toValue.Exact

structure StoredSession where
  deviceId : String
  /-- The fingerprint of the account's genesis key; absent means old. -/
  account : Option String
  handle : String
  /-- What other accounts say they are called, by account id. -/
  handles : Option Record
  accountSeed : Bytes
  lock : Option Js
  /-- Absent means enabled; `false` is a refusal. -/
  vaultEnabled : Option Js
  state : Option Bytes
  groupIds : List Bytes
  verified : Record
  cursors : Record
  knownDevices : Record
  signals : Option Js
  signalsAt : Option Json.Number
  prefStamps : Option Js
  postingKeys : Option Js
  logHead : Option Js
  history : Option Bytes
  discloseConversationName : Option Js
  conversationFlags : Option Js
  locale : Option String
  searchCoverage : Option Js
  contactPolicy : Option Js
  blocked : Option (List String)
  recentEmojis : Option (List String)
  /-- Absent means nobody chose; `0` is the yellow glyph. -/
  skinTone : Option Js
  displayName : Option String
  profiles : Option Record
  petnames : Option Record

/-- Thirty-two lowercase hexadecimal characters. -/
def isAccountId (value : String) : Bool :=
  value.toList.length = 32 ∧ value.toList.all fun c => ('0' ≤ c ∧ c ≤ '9') ∨ ('a' ≤ c ∧ c ≤ 'f')

/-- Thrown on a session written before accounts had identifiers of their own. -/
inductive StoredSessionTooOld where
  | storedSessionTooOld

/-- The door of `Session.open`: no session without an MLS state, a refusal without an account id,
and otherwise the record that is opened. -/
def openStored (stored : Option StoredSession) :
    Except StoredSessionTooOld (Option StoredSession) :=
  match stored with
  | none => .ok none
  | some stored =>
    if stored.state.isNone then .ok none
    else match stored.account with
      | none => .error .storedSessionTooOld
      | some account =>
        if isAccountId account then .ok (some stored) else .error .storedSessionTooOld

end Whispee.Session
