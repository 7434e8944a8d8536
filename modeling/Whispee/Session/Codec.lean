import Whispee.Lib.Base64
import Whispee.Session.Storage

/-!
# The session codec

`encodeSession` and `decodeSession` of `apps/web/src/lib/session-codec.ts`, for the stores that
only hold bytes. A document stands for the bytes: the lexical layer of JSON and UTF-8 is left to
the platform. `decodeSession_encodeSession` computes what comes back for every session; the two
fields neither list names, `account` and `handles`, never do.
-/

namespace Whispee.Session

open Json (Document Value Number)

def VERSION : Rat := 1

def toBase64 (bytes : Bytes) : String := Base64.encode bytes

/-! ## Encoding -/

/-- The value of an optional field, `undefined` when it is absent. -/
def orUndefined (f : α → Value) : Option α → Value
  | none => .undefined
  | some a => f a

def strings (items : List String) : Value := .arr (items.map .str)

def rawSession (session : StoredSession) : List (String × Value) :=
  [("v", .num (.finite VERSION)),
   ("deviceId", .str session.deviceId),
   ("handle", .str session.handle),
   ("accountSeed", .str (toBase64 session.accountSeed)),
   ("lock", orUndefined Subtype.val session.lock),
   ("vaultEnabled", orUndefined Subtype.val session.vaultEnabled),
   ("state", orUndefined (.str <| toBase64 ·) session.state),
   ("groupIds", strings (session.groupIds.map toBase64)),
   ("verified", session.verified.toValue),
   ("cursors", session.cursors.toValue),
   ("knownDevices", session.knownDevices.toValue),
   ("signals", orUndefined Subtype.val session.signals),
   ("signalsAt", orUndefined .num session.signalsAt),
   ("prefStamps", orUndefined Subtype.val session.prefStamps),
   ("postingKeys", orUndefined Subtype.val session.postingKeys),
   ("logHead", orUndefined Subtype.val session.logHead),
   ("history", orUndefined (.str <| toBase64 ·) session.history),
   ("discloseConversationName", orUndefined Subtype.val session.discloseConversationName),
   ("conversationFlags", orUndefined Subtype.val session.conversationFlags),
   ("locale", orUndefined .str session.locale),
   ("searchCoverage", orUndefined Subtype.val session.searchCoverage),
   ("contactPolicy", orUndefined Subtype.val session.contactPolicy),
   ("blocked", orUndefined strings session.blocked),
   ("recentEmojis", orUndefined strings session.recentEmojis),
   ("skinTone", orUndefined Subtype.val session.skinTone),
   ("displayName", orUndefined .str session.displayName),
   ("profiles", orUndefined Record.toValue session.profiles),
   ("petnames", orUndefined Record.toValue session.petnames)]

def encodeSession (session : StoredSession) : Document :=
  (Json.stringify (.obj (rawSession session))).getD .null

/-! ## Decoding -/

inductive DecodeError where
  /-- The root is not an object. -/
  | root
  | version (found : Js)
  | field (name kind : String)
  /-- `atob` refuses the text. -/
  | invalidCharacter

/-- The text of the error; `text` is how the language writes a value in a template. -/
def DecodeError.message (text : Js → String) : DecodeError → String
  | .root => "unreadable session: the root is not an object"
  | .version found => "session is version " ++ text found ++ ", expected 1"
  | .field name kind => "unreadable session: " ++ name ++ " is not " ++ kind
  | .invalidCharacter => "InvalidCharacterError"

def fromBase64 (value : String) : Except DecodeError Bytes :=
  match Base64.decode value with
  | some bytes => .ok bytes
  | none => .error .invalidCharacter

def requireString (value : Value) (name : String) : Except DecodeError String :=
  match value with
  | .str s => .ok s
  | _ => .error (.field name "a string")

def requireArray (value : Js) (name : String) : Except DecodeError (List Value) :=
  match value.1 with
  | .arr items => .ok items
  | _ => .error (.field name "an array")

def requireObject (value : Js) (name : String) : Except DecodeError Record :=
  match value with
  | ⟨.obj members, h⟩ => .ok ⟨members, h.1, h.2⟩
  | _ => .error (.field name "an object")

/-- `.map((value, index) => read(requireString(value, ...)))`: the first item that is refused
names its index. -/
def mapStrings (name : String) (read : String → Except DecodeError α) :
    Nat → List Value → Except DecodeError (List α)
  | _, [] => .ok []
  | index, value :: values => do
    let s ← requireString value (name ++ "[" ++ toString index ++ "]")
    let a ← read s
    let rest ← mapStrings name read (index + 1) values
    return a :: rest

def isUndefined : Value → Bool
  | .undefined => true
  | _ => false

/-- An optional field: absent when it reads `undefined`, otherwise what `read` makes of it. -/
def optional (value : Js) (read : Js → Except DecodeError α) : Except DecodeError (Option α) :=
  if isUndefined value.1 then .ok none else return some (← read value)

/-- A field taken over with a cast, whatever it holds. -/
def cast (value : Js) : Except DecodeError Js := .ok value

/-- The property of a value: arrays and objects have them, but no array has one of the names the
codec asks for. -/
def property (value : Js) (name : String) : Js :=
  match value with
  | ⟨.obj members, h⟩ => ⟨Json.getMember members name, h.2.get name⟩
  | _ => ⟨.undefined, trivial⟩

def isObject : Value → Bool
  | .obj _ | .arr _ => true
  | _ => false

def isNumber : Value → Option Number
  | .num x => some x
  | _ => none

def isVersion : Value → Bool
  | .num x => x = .finite VERSION
  | _ => false

/-- The record built from the fields, in the order they are checked. -/
def decodeFields (field : String → Js) : Except DecodeError StoredSession := do
  let deviceId ← requireString (field "deviceId").1 "deviceId"
  let handle ← requireString (field "handle").1 "handle"
  let accountSeed ← fromBase64 (← requireString (field "accountSeed").1 "accountSeed")
  let lock ← optional (field "lock") cast
  let vaultEnabled ← optional (field "vaultEnabled") cast
  let state ← optional (field "state") fun v => do fromBase64 (← requireString v.1 "state")
  let groupIds ← mapStrings "groupIds" fromBase64 0 (← requireArray (field "groupIds") "groupIds")
  let verified ← requireObject (field "verified") "verified"
  let cursors ← requireObject (field "cursors") "cursors"
  let knownDevices ← requireObject (field "knownDevices") "knownDevices"
  let signals ← optional (field "signals") cast
  let signalsAt := isNumber (field "signalsAt").1
  let prefStamps ← optional (field "prefStamps") cast
  let postingKeys ← optional (field "postingKeys") cast
  let logHead ← optional (field "logHead") cast
  let history ← optional (field "history") fun v => do fromBase64 (← requireString v.1 "history")
  let discloseConversationName ← optional (field "discloseConversationName") cast
  let conversationFlags ← optional (field "conversationFlags") cast
  let locale ← optional (field "locale") fun v => requireString v.1 "locale"
  let searchCoverage ← optional (field "searchCoverage") cast
  let contactPolicy ← optional (field "contactPolicy") cast
  let blocked ← optional (field "blocked") fun v => do
    mapStrings "blocked" pure 0 (← requireArray v "blocked")
  let recentEmojis ← optional (field "recentEmojis") fun v => do
    mapStrings "recentEmojis" pure 0 (← requireArray v "recentEmojis")
  let skinTone ← optional (field "skinTone") cast
  let displayName ← optional (field "displayName") fun v => requireString v.1 "displayName"
  let profiles ← optional (field "profiles") fun v => requireObject v "profiles"
  let petnames ← optional (field "petnames") fun v => requireObject v "petnames"
  return {
    deviceId, account := none, handle, handles := none, accountSeed, lock, vaultEnabled, state,
    groupIds, verified, cursors, knownDevices, signals, signalsAt, prefStamps, postingKeys,
    logHead, history, discloseConversationName, conversationFlags, locale, searchCoverage,
    contactPolicy, blocked, recentEmojis, skinTone, displayName, profiles, petnames }

def decodeSession (document : Document) : Except DecodeError StoredSession :=
  let raw : Js := ⟨Json.parse document, Json.parse_wf document⟩
  if !isObject raw.1 then .error .root
  else if !isVersion (property raw "v").1 then .error (.version (property raw "v"))
  else decodeFields (property raw)

end Whispee.Session
