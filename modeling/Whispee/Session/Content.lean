import Whispee.Bytes
import Whispee.Lib.Fallible
import Whispee.Lib.JsonText
import Whispee.Lib.View
import Mathlib.Data.Nat.Log

/-!
# The content of a message

`encode` and `decode` of `apps/web/src/lib/content.ts`, and the `AttachmentRef` of
`apps/web/src/lib/attachments.ts`. Numbers are rationals, since the codec reads and writes nothing
else; the text that `JSON.stringify` gives a number is a parameter. `decode` is given a view into
a larger buffer, and its `DataView`s read from that buffer.
-/

namespace Whispee.Session.Wire

/-- What is thrown: an `Error` with its message, or an error of the language. -/
inductive Thrown where
  | error (message : String)
  | rangeError
  | typeError
  | syntaxError
  deriving DecidableEq, Repr

inductive CallEvent where
  | invite
  | ended
  | missed
  deriving DecidableEq, Repr

def CALL_EVENTS : List CallEvent := [.invite, .ended, .missed]

inductive MembershipEvent where
  | joined
  | removed
  | left
  deriving DecidableEq, Repr

def MEMBERSHIP_EVENTS : List MembershipEvent := [.joined, .removed, .left]

inductive ReceiptState where
  | delivered
  | read
  deriving DecidableEq, Repr

structure GossipHead where
  size : Rat
  root : Bytes
  deriving DecidableEq, Repr

/-- `padded` may be absent, and nothing checks it. -/
structure AttachmentRef where
  id : String
  key : String
  iv : String
  name : String
  mime : String
  size : Json.Number
  padded : Json.Value

inductive Content where
  | text (text : String)
  | attachment (ref : AttachmentRef)
  | gossip (head : GossipHead)
  | postingKey (key : Bytes)
  | receipt (state : ReceiptState) (seq : Rat)
  | reaction (target : Rat) (emoji : String)
  | reply (target : Rat) (text : String)
  | profile (name : String) (at_ : Rat)
  | call (event : CallEvent) (call : String) (seconds : Rat)
  | membership (event : MembershipEvent) (handle : String)
  | handle (handle : String) (at_ : Rat)
  | expiry (seconds : Rat)
  | signals (sealed : Bytes)

structure Stamped where
  body : Content
  sentAt : Option Rat

@[match_pattern] def TYPE_TEXT : UInt8 := 0
@[match_pattern] def TYPE_ATTACHMENT : UInt8 := 1
@[match_pattern] def TYPE_GOSSIP : UInt8 := 2
@[match_pattern] def TYPE_POSTING_KEY : UInt8 := 3
@[match_pattern] def TYPE_RECEIPT : UInt8 := 4
@[match_pattern] def TYPE_REACTION : UInt8 := 5
@[match_pattern] def TYPE_REPLY : UInt8 := 6
@[match_pattern] def TYPE_STAMPED : UInt8 := 7
@[match_pattern] def TYPE_PROFILE : UInt8 := 8
@[match_pattern] def TYPE_MEMBERSHIP : UInt8 := 10
@[match_pattern] def TYPE_HANDLE : UInt8 := 11
@[match_pattern] def TYPE_SIGNALS : UInt8 := 12
@[match_pattern] def TYPE_CALL : UInt8 := 13
@[match_pattern] def TYPE_EXPIRY : UInt8 := 14

def RECEIPT_DELIVERED : UInt8 := 0
def RECEIPT_READ : UInt8 := 1

def PROFILE_NAME_MAX_BYTES : Nat := 64
def HANDLE_MAX_BYTES : Nat := 32
def SEALED_SIGNALS_MIN_BYTES : Nat := 12 + 16
def SEALED_SIGNALS_MAX_BYTES : Nat := 12 + 16 + 128

/-- In milliseconds. -/
def PROFILE_CLOCK_SKEW_MS : Nat := 5 * 60 * 1000

def isControl : Content → Bool
  | .gossip _ | .postingKey _ | .receipt .. | .profile .. | .handle .. | .signals _ => true
  | .text _ | .attachment _ | .reaction .. | .reply .. | .call .. | .membership .. | .expiry _ =>
    false

/-! ## Encoding -/

/-- `Math.trunc`. -/
def trunc (x : Rat) : Int := x.num.tdiv x.den

/-- `BigInt` of a number, which throws unless it is whole. -/
def bigInt (x : Rat) : Except Thrown Int := if x.den = 1 then .ok x.num else .error .rangeError

/-- The four bytes of `setUint32(_, x, false)`. -/
def uint32 (x : Rat) : Bytes := toBeBytes 4 (trunc x % 2 ^ 32).toNat

/-- The eight bytes of `setBigUint64(_, n, false)`. -/
def bigUint64 (n : Int) : Bytes := toBeBytes 8 (n % 2 ^ 64).toNat

/-- What `out.set(bytes.subarray(0, width))` leaves of `width` zeroes. -/
def setWithin (width : Nat) (bytes : Bytes) : Bytes :=
  bytes.take width ++ List.replicate (width - bytes.length) 0

def AttachmentRef.members (ref : AttachmentRef) : List (String × Json.Value) :=
  [("id", .str ref.id), ("key", .str ref.key), ("iv", .str ref.iv), ("name", .str ref.name),
    ("mime", .str ref.mime), ("size", .num ref.size), ("padded", ref.padded)]

def encodeText (text : String) : Bytes := TYPE_TEXT :: asBytes text

def encodeCall (event : CallEvent) (call : String) (seconds : Rat) : Bytes :=
  TYPE_CALL :: UInt8.ofNat (CALL_EVENTS.idxOf event) ::
    (uint32 (max 0 (trunc seconds) : Int) ++ asBytes call)

def encodeMembership (event : MembershipEvent) (handle : String) : Bytes :=
  TYPE_MEMBERSHIP :: UInt8.ofNat (MEMBERSHIP_EVENTS.idxOf event) :: asBytes handle

def encodeExpiry (seconds : Rat) : Bytes := TYPE_EXPIRY :: uint32 seconds

def encodeGossip (head : GossipHead) : Bytes :=
  TYPE_GOSSIP :: (uint32 head.size ++ setWithin 32 head.root)

def encodeReceipt (state : ReceiptState) (seq : Rat) : Except Thrown Bytes := do
  let seq ← bigInt seq
  let stateByte := if state = .read then RECEIPT_READ else RECEIPT_DELIVERED
  return TYPE_RECEIPT :: stateByte :: bigUint64 seq

def encodeTargeted (type : UInt8) (target : Rat) (text : String) : Except Thrown Bytes := do
  let target ← bigInt target
  return type :: (bigUint64 target ++ asBytes text)

def encodePostingKey (key : Bytes) : Bytes := TYPE_POSTING_KEY :: setWithin 32 key

/-- A text behind the moment its owner claims to have set it, of a limited size. -/
def encodeDeclared (type : UInt8) (limit : Nat) (message text : String) (at_ : Rat) :
    Except Thrown Bytes :=
  if (asBytes text).length > limit then .error (.error message)
  else .ok (type :: (bigUint64 (max 0 (trunc at_)) ++ asBytes text))

def encodeProfile : String → Rat → Except Thrown Bytes :=
  encodeDeclared TYPE_PROFILE PROFILE_NAME_MAX_BYTES "display name too long"

def encodeHandle : String → Rat → Except Thrown Bytes :=
  encodeDeclared TYPE_HANDLE HANDLE_MAX_BYTES "handle too long"

def encodeSignals (sealed : Bytes) : Except Thrown Bytes :=
  if sealed.length < SEALED_SIGNALS_MIN_BYTES then .error (.error "settings blob too short")
  else if sealed.length > SEALED_SIGNALS_MAX_BYTES then .error (.error "settings blob too long")
  else .ok (TYPE_SIGNALS :: sealed)

section Encode

variable (number : Rat → List Char)

/-- `JSON.stringify`, of an object. -/
def stringify (ref : AttachmentRef) : String :=
  String.ofList (((Json.stringify (.obj ref.members)).map (Json.write number)).getD [])

def encodeAttachment (ref : AttachmentRef) : Bytes :=
  TYPE_ATTACHMENT :: asBytes (stringify number ref)

def encodeBody : Content → Except Thrown Bytes
  | .text text => .ok (encodeText text)
  | .attachment ref => .ok (encodeAttachment number ref)
  | .gossip head => .ok (encodeGossip head)
  | .postingKey key => .ok (encodePostingKey key)
  | .receipt state seq => encodeReceipt state seq
  | .reaction target emoji => encodeTargeted TYPE_REACTION target emoji
  | .reply target text => encodeTargeted TYPE_REPLY target text
  | .profile name at_ => encodeProfile name at_
  | .call event call seconds => .ok (encodeCall event call seconds)
  | .membership event handle => .ok (encodeMembership event handle)
  | .expiry seconds => .ok (encodeExpiry seconds)
  | .handle handle at_ => encodeHandle handle at_
  | .signals sealed => encodeSignals sealed

def encode (body : Content) (sentAt : Option Rat) : Except Thrown Bytes := do
  let inner ← encodeBody number body
  match sentAt with
  | none => return inner
  | some sentAt =>
    if isControl body then return inner
    else return TYPE_STAMPED :: (bigUint64 (trunc sentAt) ++ inner)

end Encode

/-! ## Decoding -/

/-- What a `TextDecoder` takes off the beginning of what it decodes. -/
def BYTE_ORDER_MARK : Bytes := [0xEF, 0xBB, 0xBF]

/-- `new TextDecoder().decode`. -/
def textDecode (bytes : Bytes) : String :=
  fromUtf8Lossy (if BYTE_ORDER_MARK <+: bytes then bytes.drop 3 else bytes)

/-- `Number` of a `bigint`: the nearest double, and of two the even one. -/
def toNumber (n : Nat) : Nat :=
  let unit := 2 ^ (Nat.log2 n - 52)
  let (quotient, rest) := (n / unit, n % unit)
  unit * if unit < 2 * rest ∨ (unit = 2 * rest ∧ quotient % 2 = 1) then quotient + 1 else quotient

/-- `getUint32` and `getBigUint64` on a `DataView` that begins where the view does and goes on to
the end of the buffer. -/
def getUint (bytes : View UInt8) (pos width : Nat) : Except Thrown Nat :=
  match bytes.read pos width with
  | some read => .ok (fromBeBytes read)
  | none => .error .rangeError

/-- `ref[field]`, of what a JSON text says. -/
def property (ref : Json.Value) (field : String) : Except Thrown Json.Value :=
  match ref with
  | .null | .undefined => .error .typeError
  | .obj members => .ok (Json.getMember members field)
  | _ => .ok .undefined

def requireString (ref : Json.Value) (field : String) : Except Thrown String := do
  match ← property ref field with
  | .str s => .ok s
  | _ => .error (.error s!"invalid attachment descriptor: {field} missing")

def decodeAttachment (text : String) : Except Thrown AttachmentRef := do
  let ref ← match Json.read text.toList with
    | some document => .ok (Json.parse document)
    | none => .error .syntaxError
  let id ← requireString ref "id"
  let key ← requireString ref "key"
  let iv ← requireString ref "iv"
  let name ← requireString ref "name"
  let mime ← requireString ref "mime"
  match ← property ref "size" with
  | .num size => .ok { id, key, iv, name, mime, size, padded := ← property ref "padded" }
  | _ => .error (.error "invalid attachment descriptor: size missing")

/-- A declared time, unless it is too far ahead of our own clock. -/
def clamp (now declared : Nat) : Nat :=
  if declared > now + PROFILE_CLOCK_SKEW_MS then now else declared

/-- The text and the moment of a profile or a handle, after the size checks they share. -/
def decodeDeclared (now : Nat) (body : View UInt8) (limit : Nat) (truncated oversized : String) :
    Except Thrown (String × Rat) :=
  if body.length < 8 then .error (.error truncated)
  else if (body.subarray 8).length > limit then .error (.error oversized)
  else do
    let declared := toNumber (← getUint body 0 8)
    return (textDecode (body.subarray 8).items, (clamp now declared : Nat))

def decodeBody (now : Nat) (bytes : View UInt8) : Except Thrown Content :=
  let body := bytes.subarray 1
  match bytes.get? 0 with
  | none => .error (.error "empty content")
  | some TYPE_TEXT => .ok (.text (textDecode body.items))
  | some TYPE_GOSSIP =>
    if body.length ≠ 4 + 32 then .error (.error "badly sized log head")
    else do return .gossip ⟨← getUint body 0 4, (body.items.drop 4).take 32⟩
  | some TYPE_POSTING_KEY =>
    if body.length ≠ 32 then .error (.error "badly sized posting key")
    else .ok (.postingKey (body.items.take 32))
  | some TYPE_RECEIPT =>
    if body.length ≠ 1 + 8 then .error (.error "badly sized receipt")
    else do
      let state := if body.get? 0 = some RECEIPT_READ then .read else .delivered
      return .receipt state (toNumber (← getUint body 1 8))
  | some TYPE_REACTION =>
    if body.length < 8 then .error (.error "missing message reference")
    else do return .reaction (toNumber (← getUint body 0 8)) (textDecode (body.subarray 8).items)
  | some TYPE_REPLY =>
    if body.length < 8 then .error (.error "missing message reference")
    else do return .reply (toNumber (← getUint body 0 8)) (textDecode (body.subarray 8).items)
  | some TYPE_CALL =>
    if body.length < 5 then .error (.error "truncated call event")
    else match (body.get? 0).bind fun b => CALL_EVENTS[b.toNat]? with
      | none => .error (.error "unknown call event")
      | some event => do
        return .call event (textDecode (body.subarray 5).items) (← getUint body 1 4)
  | some TYPE_EXPIRY =>
    if body.length ≠ 4 then .error (.error "badly sized expiry notice")
    else do return .expiry (← getUint body 0 4)
  | some TYPE_MEMBERSHIP =>
    if body.length < 1 then .error (.error "truncated membership event")
    else match (body.get? 0).bind fun b => MEMBERSHIP_EVENTS[b.toNat]? with
      | none => .error (.error "unknown membership event")
      | some event => .ok (.membership event (textDecode (body.subarray 1).items))
  | some TYPE_HANDLE => do
    let (handle, at_) ← decodeDeclared now body HANDLE_MAX_BYTES
      "truncated handle timestamp" "badly sized handle"
    return .handle handle at_
  | some TYPE_SIGNALS =>
    if body.length < SEALED_SIGNALS_MIN_BYTES then .error (.error "truncated settings blob")
    else if body.length > SEALED_SIGNALS_MAX_BYTES then .error (.error "oversized settings blob")
    else .ok (.signals body.items)
  | some TYPE_PROFILE => do
    let (name, at_) ← decodeDeclared now body PROFILE_NAME_MAX_BYTES
      "truncated profile timestamp" "badly sized display name"
    return .profile name at_
  | some TYPE_ATTACHMENT => do return .attachment (← decodeAttachment (textDecode body.items))
  | some type => .error (.error s!"unknown content type: {type}")

/-- One level of stamp, never two. -/
def decode (now : Nat) (bytes : View UInt8) : Except Thrown Stamped :=
  if bytes.length < 1 then .error (.error "empty content")
  else if bytes.get? 0 = some TYPE_STAMPED then
    if bytes.length < 1 + 8 then .error (.error "truncated timestamp")
    else do
      let sentAt := toNumber (← getUint bytes 1 8)
      return ⟨← decodeBody now (bytes.subarray 9), some sentAt⟩
  else do return ⟨← decodeBody now bytes, none⟩

/-! ## Texts -/

def BeginsWithMark (text : String) : Prop := text.toList.head? = some '\uFEFF'

instance (text : String) : Decidable (BeginsWithMark text) :=
  inferInstanceAs (Decidable (_ = _))

theorem utf8EncodeChar_mark : String.utf8EncodeChar '\uFEFF' = BYTE_ORDER_MARK := by decide

theorem asBytes_mark (cs : List Char) :
    asBytes (String.ofList ('\uFEFF' :: cs)) = BYTE_ORDER_MARK ++ asBytes (String.ofList cs) := by
  rw [asBytes_ofList, asBytes_ofList, List.flatMap_cons, utf8EncodeChar_mark]

theorem beginsWithMark_iff (text : String) :
    BeginsWithMark text ↔ BYTE_ORDER_MARK <+: asBytes text := by
  constructor
  · intro h
    obtain ⟨cs, hcs⟩ := List.head?_eq_some_iff.1 h
    have htext : text = String.ofList ('\uFEFF' :: cs) := by rw [← hcs, String.ofList_toList]
    rw [htext, asBytes_mark]
    exact List.prefix_append ..
  · rintro ⟨rest, hrest⟩
    have hmark : ['\uFEFF'].utf8Encode = ⟨BYTE_ORDER_MARK.toArray⟩ := by
      rw [List.utf8Encode_singleton, utf8EncodeChar_mark]
      rfl
    -- what comes after a character of a text is a text
    have hvalid : (['\uFEFF'].utf8Encode ++ ⟨rest.toArray⟩ : ByteArray).IsValidUTF8 := by
      have heq : (['\uFEFF'].utf8Encode ++ ⟨rest.toArray⟩ : ByteArray) = text.toByteArray := by
        apply ByteArray.ext
        apply Array.toList_inj.1
        rw [hmark, ByteArray.data_append, Array.toList_append]
        exact hrest
      rw [heq]
      exact text.isValidUTF8
    obtain ⟨cs, hcs⟩ := ByteArray.isValidUTF8_utf8Encode_singleton_append_iff.1 hvalid
    have hbytes : asBytes text = asBytes (String.ofList ('\uFEFF' :: cs)) := by
      rw [← hrest, asBytes_mark, asBytes, String.toUTF8_eq_toByteArray, String.toByteArray_ofList,
        ← hcs]
    rw [asBytes_injective hbytes, BeginsWithMark, String.toList_ofList]
    rfl

theorem textDecode_asBytes (text : String) :
    textDecode (asBytes text) = text ↔ ¬ BeginsWithMark text := by
  rw [beginsWithMark_iff, textDecode]
  split
  · rename_i h
    refine iff_of_false (fun heq => ?_) (fun hn => hn h)
    obtain ⟨cs, hcs⟩ := List.head?_eq_some_iff.1 ((beginsWithMark_iff text).2 h)
    have htext : text = String.ofList ('\uFEFF' :: cs) := by rw [← hcs, String.ofList_toList]
    rw [htext, asBytes_mark] at heq
    change fromUtf8Lossy (asBytes (String.ofList cs)) = _ at heq
    rw [fromUtf8Lossy_asBytes, String.ofList_inj] at heq
    have hlength := congrArg List.length heq
    simp at hlength
  · rename_i h
    exact iff_of_true (fromUtf8Lossy_asBytes text) h

/-! ## Numbers -/

/-- A whole number in a documented range. -/
def Whole (bound : Nat) (x : Rat) : Prop := ∃ n : Nat, n < bound ∧ x = n

@[simp] theorem trunc_natCast (n : Nat) : trunc n = n := by
  rw [trunc, Rat.num_natCast, Rat.den_natCast]
  exact Int.tdiv_one n

@[simp] theorem trunc_intCast (n : Int) : trunc n = n := by
  rw [trunc, Rat.num_intCast, Rat.den_intCast]
  exact Int.tdiv_one n

@[simp] theorem bigInt_natCast (n : Nat) : bigInt n = .ok (n : Int) := rfl

theorem uint32_natCast {n : Nat} (h : n < 2 ^ 32) : uint32 n = toBeBytes 4 n := by
  rw [uint32, trunc_natCast]
  congr 1
  omega

theorem bigUint64_natCast {n : Nat} (h : n < 2 ^ 64) : bigUint64 n = toBeBytes 8 n := by
  rw [bigUint64]
  congr 1
  omega

theorem toNumber_of_lt (h : n < 2 ^ 53) : toNumber n = n := by
  have hlog : Nat.log2 n - 52 = 0 := by
    by_cases hn : n = 0
    · rw [hn]; rfl
    · have := (Nat.log2_lt hn).2 h
      omega
  simp [toNumber, hlog]
  omega

theorem getUint_eq (v : View UInt8) (h : pos + width ≤ v.length) :
    getUint v pos width = .ok (fromBeBytes ((v.items.drop pos).take width)) := by
  rw [getUint, v.read_eq h]

theorem getUint_toBeBytes {v : View UInt8} (before : Bytes)
    (h : v.items = before ++ (toBeBytes width n ++ after)) (hn : n < 256 ^ width) :
    getUint v before.length width = .ok n := by
  have hlength := v.length_items
  rw [h, List.length_append, List.length_append, length_toBeBytes] at hlength
  rw [getUint_eq v (by omega), h, List.drop_left, List.take_left' length_toBeBytes,
    fromBeBytes_toBeBytes hn]

theorem getUint_zero {v : View UInt8} (h : v.items = toBeBytes width n ++ after)
    (hn : n < 256 ^ width) : getUint v 0 width = .ok n :=
  getUint_toBeBytes [] h hn

theorem view_of_cons {v : View UInt8} (h : v.items = x :: xs) :
    v.get? 0 = some x ∧ (v.subarray 1).items = xs ∧ (v.subarray 1).length = xs.length := by
  have hitems : (v.subarray 1).items = xs := by
    rw [View.items_subarray, h, List.drop_one, List.tail_cons]
  refine ⟨?_, hitems, ?_⟩
  · rw [View.get?_eq, h]
    rfl
  · rw [← View.length_items, hitems]

/-! ## Attachments -/

/-- `Number.prototype.toString`, of the whole numbers that are exact. -/
def WritesWhole (number : Rat → List Char) : Prop :=
  ∀ n : Nat, n < 2 ^ 53 → number n = Nat.toDigits 10 n

/-- A size is a number of bytes, and the flag is one or is not there. -/
def AttachmentRef.Documented (ref : AttachmentRef) : Prop :=
  (∃ n : Nat, n < 2 ^ 53 ∧ ref.size = .finite n) ∧
    (ref.padded = .undefined ∨ ∃ b, ref.padded = .bool b)

theorem AttachmentRef.members_nodup (ref : AttachmentRef) :
    (ref.members.map Prod.fst).Nodup := by
  simp [AttachmentRef.members]

variable {number : Rat → List Char}

theorem stringify_eq (ref : AttachmentRef) : stringify number ref =
    String.ofList (Json.write number (.obj (Json.stringifyMembers ref.members))) := rfl

theorem AttachmentRef.Documented.numerals {ref : AttachmentRef} (h : ref.Documented)
    (hnumber : WritesWhole number) :
    (Json.Document.obj (Json.stringifyMembers ref.members)).Numerals number := by
  obtain ⟨⟨n, hn, hsize⟩, hpadded⟩ := h
  have hnumeral : Json.Numeral number n := fun rest hrest => by
    rw [hnumber n hn, Json.readNumber_toDigits n hrest]
  rcases hpadded with hpadded | ⟨b, hpadded⟩ <;>
    simp [AttachmentRef.members, hsize, hpadded, Json.stringifyMembers, Json.stringify,
      Json.Number.toDocument, Json.Document.Numerals, Json.Document.MembersNumerals, hnumeral]

theorem parse_stringify (ref : AttachmentRef) :
    Json.parse (.obj (Json.stringifyMembers ref.members)) =
      .obj (Json.readBackMembers ref.members) :=
  Option.some.inj (Json.throughText_obj ref.members_nodup)

theorem property_members (ref : AttachmentRef) (field : String) :
    property (.obj (Json.readBackMembers ref.members)) field =
      .ok (Json.readBack (Json.getMember ref.members field)) := by
  rw [property, Json.getMember_readBackMembers ref.members_nodup]

theorem requireString_members (ref : AttachmentRef) (field : String)
    (h : Json.getMember ref.members field = .str s) :
    requireString (.obj (Json.readBackMembers ref.members)) field = .ok s := by
  rw [requireString, property_members, h]
  rfl

theorem decodeAttachment_stringify {ref : AttachmentRef} (h : ref.Documented)
    (hnumber : WritesWhole number) : decodeAttachment (stringify number ref) = .ok ref := by
  have hread := Json.read_write (h.numerals hnumber)
  obtain ⟨⟨n, _, hsize⟩, hpadded⟩ := h
  have hflag : Json.readBack ref.padded = ref.padded := by
    rcases hpadded with hpadded | ⟨b, hpadded⟩ <;> rw [hpadded] <;> rfl
  have hid := requireString_members ref "id" rfl
  have hkey := requireString_members ref "key" rfl
  have hiv := requireString_members ref "iv" rfl
  have hname := requireString_members ref "name" rfl
  have hmime := requireString_members ref "mime" rfl
  have hnum : property (.obj (Json.readBackMembers ref.members)) "size" = .ok (.num ref.size) := by
    rw [property_members]
    change Except.ok (Json.readBack (.num ref.size)) = _
    rw [hsize, Json.readBack_finite]
  have hflagged : property (.obj (Json.readBackMembers ref.members)) "padded" = .ok ref.padded :=
    (property_members ref "padded").trans (congrArg Except.ok hflag)
  simp only [decodeAttachment, stringify_eq, String.toList_ofList, hread, parse_stringify, bind,
    Except.bind, hid, hkey, hiv, hname, hmime, hnum, hflagged]

theorem not_beginsWithMark_stringify (ref : AttachmentRef) :
    ¬ BeginsWithMark (stringify number ref) := by
  rw [BeginsWithMark, stringify_eq, String.toList_ofList, Json.write, List.head?_cons]
  decide

/-! ## The round trip -/

/-- The documented domains of the fields, where `now` is the clock of the device that decodes. -/
def Content.Documented (now : Nat) : Content → Prop
  | .attachment ref => ref.Documented
  | .gossip head => Whole (2 ^ 32) head.size ∧ head.root.length = 32
  | .postingKey key => key.length = 32
  | .receipt _ seq => Whole (2 ^ 53) seq
  | .reaction target _ | .reply target _ => Whole (2 ^ 53) target
  | .profile _ at_ | .handle _ at_ => Whole (2 ^ 53) at_ ∧ at_ ≤ now
  | .call _ _ seconds | .expiry seconds => Whole (2 ^ 32) seconds
  | .text _ | .membership .. | .signals _ => True

/-- The texts that stand in a message as they are. -/
def Content.texts : Content → List String
  | .text s | .reaction _ s | .reply _ s | .profile s _ | .call _ s _ | .membership _ s
  | .handle s _ => [s]
  | .attachment _ | .gossip _ | .postingKey _ | .receipt .. | .expiry _ | .signals _ => []

/-- What arrives of a content: its texts as they are decoded, and the rest. -/
def Content.received : Content → Content
  | .text s => .text (textDecode (asBytes s))
  | .reaction target s => .reaction target (textDecode (asBytes s))
  | .reply target s => .reply target (textDecode (asBytes s))
  | .profile s at_ => .profile (textDecode (asBytes s)) at_
  | .call event s seconds => .call event (textDecode (asBytes s)) seconds
  | .membership event s => .membership event (textDecode (asBytes s))
  | .handle s at_ => .handle (textDecode (asBytes s)) at_
  | body => body

theorem Content.received_eq_iff (body : Content) :
    body.received = body ↔ ∀ text ∈ body.texts, ¬ BeginsWithMark text := by
  cases body <;> simp [Content.received, Content.texts, textDecode_asBytes]

theorem setWithin_of_length (h : bytes.length = width) : setWithin width bytes = bytes := by
  rw [setWithin, ← h, List.take_length, Nat.sub_self, List.replicate_zero, List.append_nil]

theorem decodeTargeted {v : View UInt8} (h : v.items = toBeBytes 8 n ++ asBytes text)
    (hn : n < 2 ^ 53) :
    ¬ v.length < 8 ∧ getUint v 0 8 = .ok n ∧ toNumber n = n ∧
      (v.subarray 8).items = asBytes text := by
  have hlength := v.length_items
  rw [h, List.length_append, length_toBeBytes] at hlength
  refine ⟨by omega, getUint_zero h (by omega), toNumber_of_lt hn, ?_⟩
  rw [View.items_subarray, h, List.drop_left' length_toBeBytes]

theorem clamp_of_le (h : declared ≤ now) : clamp now declared = declared :=
  if_neg (by omega)

theorem decodeDeclared_encodeDeclared {v : View UInt8} {now : Nat} (hat : Whole (2 ^ 53) at_)
    (hnow : at_ ≤ now) (henc : encodeDeclared type limit message text at_ = .ok v.items) :
    v.get? 0 = some type ∧ decodeDeclared now (v.subarray 1) limit truncated oversized =
      .ok (textDecode (asBytes text), at_) := by
  obtain ⟨n, hn, rfl⟩ := hat
  rw [encodeDeclared] at henc
  split at henc
  · cases henc
  · rename_i hlimit
    obtain ⟨htype, hitems, _⟩ := view_of_cons (Except.ok.inj henc).symm
    rw [trunc_natCast, max_eq_right (Int.natCast_nonneg n), bigUint64_natCast (by omega)] at hitems
    obtain ⟨hlength, hget, hnumber, htext⟩ := decodeTargeted hitems hn
    have hshort : ¬ ((v.subarray 1).subarray 8).length > limit := by
      rwa [← View.length_items, htext]
    refine ⟨htype, ?_⟩
    rw [decodeDeclared, if_neg hlength, if_neg hshort, hget, htext]
    change Except.ok (_, ((clamp now (toNumber n) : Nat) : Rat)) = _
    rw [hnumber, clamp_of_le (by exact_mod_cast hnow)]

/-- The branch that a reaction and a reply share. -/
theorem decodeTargeted_encodeTargeted {v : View UInt8} (make : Rat → String → Content)
    (hwhole : Whole (2 ^ 53) target) (henc : encodeTargeted type target text = .ok v.items) :
    v.get? 0 = some type ∧
      (if (v.subarray 1).length < 8 then .error (.error "missing message reference")
      else do
        return make (toNumber (← getUint (v.subarray 1) 0 8))
          (textDecode ((v.subarray 1).subarray 8).items)) =
      (.ok (make target (textDecode (asBytes text))) : Except Thrown Content) := by
  obtain ⟨n, hn, rfl⟩ := hwhole
  obtain ⟨htype, hitems, _⟩ := view_of_cons (Except.ok.inj henc).symm
  rw [Rat.num_natCast, bigUint64_natCast (by omega)] at hitems
  obtain ⟨hlength, hget, hnumber, htext⟩ := decodeTargeted hitems hn
  refine ⟨htype, ?_⟩
  rw [if_neg hlength, hget]
  change Except.ok (make (toNumber n : Nat) _) = _
  rw [hnumber, htext]

/-- What the decoder makes of an encoded content. -/
theorem decodeBody_encodeBody {body : Content} {v : View UInt8} (hnumber : WritesWhole number)
    (h : body.Documented now) (henc : encodeBody number body = .ok v.items) :
    decodeBody now v = .ok body.received := by
  cases body with
  | text s =>
    obtain ⟨htype, hitems, _⟩ := view_of_cons (Except.ok.inj henc).symm
    rw [decodeBody, htype]
    change Except.ok (Content.text (textDecode (v.subarray 1).items)) = _
    rw [hitems]
    rfl
  | attachment ref =>
    obtain ⟨htype, hitems, _⟩ := view_of_cons (Except.ok.inj henc).symm
    rw [decodeBody, htype]
    change (decodeAttachment (textDecode (v.subarray 1).items)).bind _ = _
    rw [hitems, (textDecode_asBytes _).2 (not_beginsWithMark_stringify ref),
      decodeAttachment_stringify h hnumber]
    rfl
  | gossip head =>
    obtain ⟨size, root⟩ := head
    obtain ⟨⟨n, hn, rfl⟩, hroot⟩ := h
    obtain ⟨htype, hitems, hlength⟩ := view_of_cons (Except.ok.inj henc).symm
    dsimp only at hroot hitems hlength
    rw [uint32_natCast hn, setWithin_of_length hroot] at hitems hlength
    have hsized : (v.subarray 1).length = 4 + 32 := by
      rw [hlength, List.length_append, length_toBeBytes, hroot]
    rw [decodeBody, htype]
    change (if (v.subarray 1).length ≠ 4 + 32 then _ else (getUint _ 0 4).bind _) = _
    rw [if_neg (not_not.2 hsized), getUint_zero hitems (by omega)]
    change Except.ok (Content.gossip ⟨n, (List.drop 4 (v.subarray 1).items).take 32⟩) = _
    rw [hitems, List.drop_left' length_toBeBytes, List.take_of_length_le hroot.le]
    rfl
  | postingKey key =>
    obtain ⟨htype, hitems, hlength⟩ := view_of_cons (Except.ok.inj henc).symm
    rw [setWithin_of_length h] at hitems hlength
    rw [decodeBody, htype]
    change (if (v.subarray 1).length ≠ 32 then _ else
      Except.ok (Content.postingKey ((v.subarray 1).items.take 32))) = _
    rw [if_neg (not_not.2 (hlength.trans h)), hitems, List.take_of_length_le (le_of_eq h)]
    rfl
  | receipt state seq =>
    obtain ⟨n, hn, rfl⟩ := h
    obtain ⟨htype, hitems, hlength⟩ := view_of_cons (Except.ok.inj henc).symm
    rw [Rat.num_natCast, bigUint64_natCast (by omega)] at hitems hlength
    obtain ⟨hstate, _, _⟩ := view_of_cons hitems
    have hget : getUint (v.subarray 1) 1 8 = .ok n :=
      getUint_toBeBytes [_] (hitems.trans (by rw [List.append_nil]; rfl)) (by omega)
    have hsized : (v.subarray 1).length = 1 + 8 := by
      rw [hlength, List.length_cons, length_toBeBytes]
    rw [decodeBody, htype]
    change (if (v.subarray 1).length ≠ 1 + 8 then _ else (getUint _ 1 8).bind _) = _
    rw [if_neg (not_not.2 hsized), hget, hstate]
    change Except.ok (Content.receipt _ (toNumber n : Nat)) = _
    rw [toNumber_of_lt hn]
    cases state <;> rfl
  | reaction target s =>
    obtain ⟨htype, hbranch⟩ := decodeTargeted_encodeTargeted .reaction h henc
    rw [decodeBody, htype]
    exact hbranch
  | reply target s =>
    obtain ⟨htype, hbranch⟩ := decodeTargeted_encodeTargeted .reply h henc
    rw [decodeBody, htype]
    exact hbranch
  | profile name at_ =>
    obtain ⟨htype, hdeclared⟩ := decodeDeclared_encodeDeclared h.1 h.2 henc
    rw [decodeBody, htype]
    change (decodeDeclared _ _ _ _ _).bind _ = _
    rw [hdeclared]
    rfl
  | call event call seconds =>
    obtain ⟨n, hn, rfl⟩ := h
    obtain ⟨htype, hitems, hlength⟩ := view_of_cons (Except.ok.inj henc).symm
    rw [trunc_natCast, max_eq_right (Int.natCast_nonneg n), Int.cast_natCast, uint32_natCast hn]
      at hitems hlength
    obtain ⟨hevent, _, _⟩ := view_of_cons hitems
    have hget : getUint (v.subarray 1) 1 4 = .ok n :=
      getUint_toBeBytes [_] hitems (by omega)
    have htext : ((v.subarray 1).subarray 5).items = asBytes call := by
      rw [View.items_subarray, hitems, List.drop_succ_cons, List.drop_left' length_toBeBytes]
    have hsized : ¬ (v.subarray 1).length < 5 := by
      rw [hlength, List.length_cons, List.length_append, length_toBeBytes]
      omega
    rw [decodeBody, htype]
    change (if (v.subarray 1).length < 5 then _ else _) = _
    rw [if_neg hsized, hevent, hget, htext]
    cases event <;> rfl
  | membership event handle =>
    obtain ⟨htype, hitems, hlength⟩ := view_of_cons (Except.ok.inj henc).symm
    obtain ⟨hevent, htext, _⟩ := view_of_cons hitems
    rw [decodeBody, htype]
    change (if (v.subarray 1).length < 1 then _ else _) = _
    rw [if_neg (by simp [hlength]), hevent, htext]
    cases event <;> rfl
  | handle handle at_ =>
    obtain ⟨htype, hdeclared⟩ := decodeDeclared_encodeDeclared h.1 h.2 henc
    rw [decodeBody, htype]
    change (decodeDeclared _ _ _ _ _).bind _ = _
    rw [hdeclared]
    rfl
  | expiry seconds =>
    obtain ⟨n, hn, rfl⟩ := h
    obtain ⟨htype, hitems, hlength⟩ := view_of_cons (Except.ok.inj henc).symm
    rw [uint32_natCast hn] at hitems hlength
    rw [length_toBeBytes] at hlength
    rw [decodeBody, htype]
    change (if (v.subarray 1).length ≠ 4 then _ else (getUint _ 0 4).bind _) = _
    rw [if_neg (not_not.2 hlength), getUint_zero (hitems.trans (List.append_nil _).symm) (by omega)]
    rfl
  | signals sealed =>
    change encodeSignals sealed = _ at henc
    rw [encodeSignals] at henc
    split at henc
    · cases henc
    · rename_i hshort
      split at henc
      · cases henc
      · rename_i hlong
        obtain ⟨htype, hitems, hlength⟩ := view_of_cons (Except.ok.inj henc).symm
        rw [decodeBody, htype]
        change (if (v.subarray 1).length < SEALED_SIGNALS_MIN_BYTES then _ else
          if (v.subarray 1).length > SEALED_SIGNALS_MAX_BYTES then _ else
            Except.ok (Content.signals (v.subarray 1).items)) = _
        rw [hlength, if_neg hshort, if_neg hlong, hitems]
        rfl

/-- No content begins like a stamp. -/
theorem encodeBody_type {body : Content} (h : encodeBody number body = .ok bytes) :
    ∃ type rest, bytes = type :: rest ∧ type ≠ TYPE_STAMPED := by
  have whole : ∀ {x : Rat} {make : Int → Bytes},
      ((bigInt x).bind fun n => .ok (make n)) = .ok bytes → ∃ n, bytes = make n := by
    intro x make h
    cases hx : bigInt x with
    | error thrown => rw [hx] at h; cases h
    | ok n => rw [hx] at h; exact ⟨n, (Except.ok.inj h).symm⟩
  have declared : ∀ {type limit message text at_},
      encodeDeclared type limit message text at_ = .ok bytes → ∃ rest, bytes = type :: rest := by
    intro type limit message text at_ h
    rw [encodeDeclared] at h
    split at h
    · cases h
    · exact ⟨_, (Except.ok.inj h).symm⟩
  cases body with
  | text | attachment | gossip | postingKey | call | membership | expiry =>
    exact ⟨_, _, (Except.ok.inj h).symm, by decide⟩
  | receipt state seq =>
    obtain ⟨n, rfl⟩ := whole h
    exact ⟨_, _, rfl, by decide⟩
  | reaction target s | reply target s =>
    obtain ⟨n, rfl⟩ := whole h
    exact ⟨_, _, rfl, by decide⟩
  | profile name at_ | handle handle at_ =>
    obtain ⟨rest, rfl⟩ := declared h
    exact ⟨_, _, rfl, by decide⟩
  | signals sealed =>
    change encodeSignals sealed = _ at h
    rw [encodeSignals] at h
    split at h
    · cases h
    · split at h
      · cases h
      · exact ⟨_, _, (Except.ok.inj h).symm, by decide⟩

/-- A time that eight octets hold and a number is exact about. -/
def Stamp (t : Rat) : Prop := ∃ n : Nat, n < 2 ^ 64 ∧ toNumber n = n ∧ t = n

theorem Whole.stamp (h : Whole (2 ^ 53) t) : Stamp t := by
  obtain ⟨n, hn, rfl⟩ := h
  exact ⟨n, by omega, toNumber_of_lt hn, rfl⟩

theorem decode_encode {body : Content} {v : View UInt8} (hnumber : WritesWhole number)
    (h : body.Documented now) (hsent : ∀ t ∈ sentAt, Stamp t)
    (henc : encode number body sentAt = .ok v.items) :
    decode now v = .ok ⟨body.received, if isControl body then none else sentAt⟩ := by
  cases hbody : encodeBody number body with
  | error thrown =>
    rw [encode, hbody] at henc
    cases henc
  | ok inner =>
    obtain ⟨type, rest, rfl, htype⟩ := encodeBody_type hbody
    have bare : v.items = type :: rest → decode now v = .ok ⟨body.received, none⟩ := by
      intro hitems
      obtain ⟨hget, _, _⟩ := view_of_cons hitems
      have hlength : ¬ v.length < 1 := by
        rw [← v.length_items, hitems, List.length_cons]
        omega
      rw [decode, if_neg hlength, hget, if_neg (by simpa using htype),
        decodeBody_encodeBody hnumber h (hbody.trans (congrArg Except.ok hitems.symm))]
      rfl
    rw [encode, hbody] at henc
    cases sentAt with
    | none =>
      rw [bare (Except.ok.inj henc).symm, ite_self]
    | some t =>
      change (if isControl body then Except.ok (type :: rest) else
        Except.ok (TYPE_STAMPED :: (bigUint64 (trunc t) ++ (type :: rest)))) = _ at henc
      split at henc
      · rename_i hcontrol
        rw [bare (Except.ok.inj henc).symm, if_pos hcontrol]
      · rename_i hcontrol
        obtain ⟨n, hn, hexact, rfl⟩ := hsent t rfl
        obtain hitems := (Except.ok.inj henc).symm
        rw [trunc_natCast, bigUint64_natCast hn] at hitems
        obtain ⟨hget, _, _⟩ := view_of_cons hitems
        have hstamp : getUint v 1 8 = .ok n :=
          getUint_toBeBytes [_] hitems (by omega)
        have hinner : (v.subarray 9).items = type :: rest := by
          rw [View.items_subarray, hitems, List.drop_succ_cons, List.drop_left' length_toBeBytes]
        have hlength : v.length = 1 + (8 + (rest.length + 1)) := by
          rw [← v.length_items, hitems]
          simp [Nat.add_comm]
        rw [decode, if_neg (by omega), hget, if_pos rfl, if_neg (by omega), hstamp,
          decodeBody_encodeBody hnumber h (hbody.trans (congrArg Except.ok hinner.symm)),
          if_neg hcontrol]
        change Except.ok (Stamped.mk body.received (some (toNumber n : Nat))) = _
        rw [hexact]

/-! ## Views -/

section Views

variable {v v' : View UInt8}

theorem length_of_items (h : v.items = v'.items) : v.length = v'.length := by
  rw [← v.length_items, h, v'.length_items]

theorem get?_of_items (h : v.items = v'.items) : v.get? i = v'.get? i := by
  rw [v.get?_eq, h, v'.get?_eq]

theorem getUint_of_items (h : v.items = v'.items) (hin : pos + width ≤ v.length) :
    getUint v pos width = getUint v' pos width := by
  rw [getUint_eq v hin, getUint_eq v' (length_of_items h ▸ hin), h]

theorem subarray_of_items (h : v.items = v'.items) :
    (v.subarray n).items = (v'.subarray n).items := by
  rw [View.items_subarray, View.items_subarray, h]

theorem decodeDeclared_of_items (h : v.items = v'.items) :
    decodeDeclared now v limit truncated oversized =
      decodeDeclared now v' limit truncated oversized := by
  have hrest : (v.subarray 8).items = (v'.subarray 8).items := subarray_of_items h
  rw [decodeDeclared, decodeDeclared, length_of_items h, length_of_items hrest, hrest]
  split
  · rfl
  · rename_i hlength
    rw [getUint_of_items h (by rw [length_of_items h]; omega)]

theorem decodeBody_of_items (h : v.items = v'.items) : decodeBody now v = decodeBody now v' := by
  have hbody : (v.subarray 1).items = (v'.subarray 1).items := subarray_of_items h
  have hlength := length_of_items hbody
  unfold decodeBody
  dsimp only
  simp only [get?_of_items h, hbody, hlength, get?_of_items hbody, decodeDeclared_of_items hbody,
    subarray_of_items hbody]
  split
  -- the branches that read a number, each behind the check that keeps it within the view
  case h_3 | h_5 | h_6 | h_7 | h_9 =>
    split
    · rfl
    · rw [getUint_of_items hbody (by omega)]
  case h_8 =>
    split
    · rfl
    · split
      · rfl
      · rw [getUint_of_items hbody (by omega)]
  all_goals rfl

theorem decode_of_items (h : v.items = v'.items) : decode now v = decode now v' := by
  rw [decode, decode, length_of_items h, get?_of_items h,
    decodeBody_of_items (subarray_of_items (n := 9) h), decodeBody_of_items h]
  split
  · rfl
  split
  · split
    · rfl
    · rename_i hlength
      rw [getUint_of_items h (by rw [length_of_items h]; omega)]
  · rfl

end Views

theorem length_of_decodeBody {v : View UInt8} (h : decodeBody now v = .ok (.postingKey key)) :
    key.length = 32 := by
  unfold decodeBody at h
  dsimp only at h
  split at h
  case h_4 =>
    split at h
    · cases h
    · rename_i hlength
      cases h
      rw [List.length_take, View.length_items]
      omega
  -- no other type gives a posting key, whether or not it has a check to pass or a number to read
  case h_3 | h_5 | h_6 | h_7 | h_9 =>
    split at h
    · cases h
    · obtain ⟨_, _, h⟩ := Fallible.bind_eq_ok_iff.1 h
      cases h
  case h_8 =>
    split at h
    · cases h
    · split at h
      · cases h
      · obtain ⟨_, _, h⟩ := Fallible.bind_eq_ok_iff.1 h
        cases h
  case h_11 | h_13 | h_14 =>
    obtain ⟨_, _, h⟩ := Fallible.bind_eq_ok_iff.1 h
    cases h
  case h_10 | h_12 =>
    split at h
    · cases h
    · split at h <;> cases h
  all_goals cases h

/-- A posting key that arrives is as long as one. -/
theorem length_of_decode {v : View UInt8} (h : decode now v = .ok ⟨.postingKey key, sentAt⟩) :
    key.length = 32 := by
  rw [decode] at h
  split at h
  · cases h
  split at h
  · split at h
    · cases h
    · obtain ⟨_, _, h⟩ := Fallible.bind_eq_ok_iff.1 h
      obtain ⟨_, hbody, h⟩ := Fallible.bind_eq_ok_iff.1 h
      cases h
      exact length_of_decodeBody hbody
  · obtain ⟨_, hbody, h⟩ := Fallible.bind_eq_ok_iff.1 h
    cases h
    exact length_of_decodeBody hbody

/-- A content and its stamp come back if and only if no text of it begins with a byte order mark,
and what is decoded depends on nothing of the buffer that is not in view. -/
theorem roundTrip_iff (hnumber : WritesWhole number) :
    (∀ {now body sentAt} {v : View UInt8}, body.Documented now →
      (∀ t ∈ sentAt, Whole (2 ^ 53) t) → encode number body sentAt = .ok v.items →
      (decode now v = .ok ⟨body, if isControl body then none else sentAt⟩ ↔
        ∀ text ∈ body.texts, ¬ BeginsWithMark text)) ∧
    ∀ {now} {v v' : View UInt8}, v.items = v'.items → decode now v = decode now v' := by
  refine ⟨fun h hsent henc => ?_, decode_of_items⟩
  rw [decode_encode hnumber h (fun t ht => (hsent t ht).stamp) henc, ← Content.received_eq_iff, Except.ok.injEq,
    Stamped.mk.injEq]
  exact and_iff_left rfl

def wholeNumber (q : Rat) : List Char := Nat.toDigits 10 q.num.toNat

theorem writesWhole_wholeNumber : WritesWhole wholeNumber := fun _ _ => rfl

/-- A stamped reply in the middle of a buffer. -/
def replyInView : View UInt8 where
  buffer := [1, 2, 7, 0, 0, 0, 0, 0, 0, 3, 232, 6, 0, 0, 0, 0, 0, 0, 0, 5, 0xC3, 0xA9, 9]
  offset := 2
  length := 20
  fits := by decide

theorem roundTrip_replyInView :
    decode 0 replyInView = .ok ⟨.reply 5 "é", some 1000⟩ ∧
      decode 0 replyInView = decode 0 (View.whole replyInView.items) := by
  have hreply : decode 0 replyInView = .ok ⟨.reply 5 "é", some 1000⟩ ↔
      ∀ text ∈ (Content.reply 5 "é").texts, ¬ BeginsWithMark text :=
    (roundTrip_iff writesWhole_wholeNumber).1 ⟨5, by decide, rfl⟩
      (fun t ht => ⟨1000, by decide, (Option.some.inj ht).symm⟩) (by decide +kernel)
  exact ⟨hreply.2 (by decide),
    (roundTrip_iff writesWhole_wholeNumber).2 (View.items_whole _).symm⟩

/-- A text that begins with a byte order mark arrives without it. -/
theorem mark_lost :
    (Content.text "\uFEFFhi").Documented 0 ∧
      encode wholeNumber (.text "\uFEFFhi") none = .ok [0, 0xEF, 0xBB, 0xBF, 0x68, 0x69] ∧
      decode 0 (View.whole [0, 0xEF, 0xBB, 0xBF, 0x68, 0x69]) = .ok ⟨.text "hi", none⟩ ∧
      Content.text "hi" ≠ .text "\uFEFFhi" := by
  refine ⟨trivial, by decide +kernel, ?_, fun h => ?_⟩
  · change Except.ok (Stamped.mk (.text (textDecode [0xEF, 0xBB, 0xBF, 0x68, 0x69])) none) = _
    rw [show textDecode [0xEF, 0xBB, 0xBF, 0x68, 0x69] = "hi" by decide +kernel]
  · exact absurd (Content.text.inj h) (by decide)

end Whispee.Session.Wire
