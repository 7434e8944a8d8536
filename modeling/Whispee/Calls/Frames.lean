import Whispee.Calls.Calls
import Whispee.Session.Content

/-!
# Call frames

`encodeCall` and `decodeCall` of `apps/web/src/lib/signals.ts`, in the plaintext that `openSignal`
tells apart by its first byte. The id of a call comes from an invitation, whose codec puts no bound
on it; a frame has one byte for its length (`carried_iff`).
-/

namespace Whispee.Calls

open Session.Wire (textDecode BeginsWithMark textDecode_asBytes BYTE_ORDER_MARK)

def TYPE_TYPING : UInt8 := 0
def TYPE_CALL : UInt8 := 1

/-- Order of the events on the wire. -/
def CALL_EVENTS : List CallSignalEvent :=
  [.ringing, .accepted, .declined, .left, .muted, .unmuted, .alive]

structure CallSignal where
  event : CallSignalEvent
  /-- Which call this is about. -/
  call : String
  /-- Who emits. -/
  account : String
  device : String
  deriving DecidableEq

inductive Frame where
  | typing (account : String)
  | call (signal : CallSignal)
  deriving DecidableEq

/-- An element of an array read where the array has none. -/
inductive OutOfRange where
  | mk
  deriving DecidableEq

/-- `[event][len call][call][len device][device][account]`, after the type. -/
def encodeCall (signal : CallSignal) : Bytes :=
  let call := asBytes signal.call
  let device := asBytes signal.device
  let account := asBytes signal.account
  [TYPE_CALL, .ofNat (CALL_EVENTS.idxOf signal.event), .ofNat call.length] ++ call ++
    [.ofNat device.length] ++ device ++ account

def byteAt (body : Bytes) (i : Nat) : Except OutOfRange UInt8 :=
  match body[i]? with
  | some b => .ok b
  | none => .error .mk

/-- `body.subarray(begin, end)` -/
def subarray (body : Bytes) (first stop : Nat) : Except OutOfRange Bytes :=
  if first ≤ stop ∧ stop ≤ body.length then .ok ((body.drop first).take (stop - first))
  else .error .mk

def decodeCall (body : Bytes) : Except OutOfRange (Option CallSignal) :=
  if body.length < 3 then .ok none
  else do
    let index ← byteAt body 0
    match CALL_EVENTS[index.toNat]? with
    | none => .ok none
    | some event => do
      let callLength ← byteAt body 1
      let deviceAt := 2 + callLength.toNat
      if deviceAt ≥ body.length then .ok none
      else do
        let deviceLength ← byteAt body deviceAt
        let accountAt := deviceAt + 1 + deviceLength.toNat
        if accountAt > body.length then .ok none
        else do
          let call ← subarray body 2 deviceAt
          let device ← subarray body (deviceAt + 1) accountAt
          let account ← subarray body accountAt body.length
          return some ⟨event, textDecode call, textDecode account, textDecode device⟩

/-- What `openSignal` makes of a plaintext. -/
def openPlaintext : Bytes → Except OutOfRange (Option Frame)
  | [] => .ok none
  | type :: body =>
    if type = TYPE_TYPING then .ok (some (.typing (textDecode body)))
    else if type = TYPE_CALL then do return (← decodeCall body).map .call
    else .ok none

/-- No input makes `decodeCall` read past it. -/
def ReadsWithin : Prop := ∀ body, ∃ signal, decodeCall body = .ok signal

/-- The other members read what the frame was made from. -/
def Carries (signal : CallSignal) : Prop :=
  openPlaintext (encodeCall signal) = .ok (some (.call signal))

/-- Both lengths fit their byte, and no text begins with the mark a decoder takes off. -/
def Framed (signal : CallSignal) : Prop :=
  (asBytes signal.call).length < 256 ∧ (asBytes signal.device).length < 256 ∧
    ¬ BeginsWithMark signal.call ∧ ¬ BeginsWithMark signal.device ∧
    ¬ BeginsWithMark signal.account

/-! ## Texts that are cut -/

theorem asBytes_replacement : asBytes "\uFFFD" = [0xEF, 0xBF, 0xBD] := by decide

theorem continuations_0xEF : continuations 0xEF = some [(0x80, 0xBF), (0x80, 0xBF)] := by decide

@[simp] theorem replaceInvalid_nil : replaceInvalid fuel [] = "" := by
  cases fuel <;> rfl

theorem countInRanges_le (ranges : List (UInt8 × UInt8)) (bytes : Bytes) :
    countInRanges ranges bytes ≤ bytes.length := by
  induction ranges generalizing bytes with
  | nil => simp [countInRanges]
  | cons range ranges ih =>
    cases bytes with
    | nil => simp [countInRanges]
    | cons b bytes =>
      rw [countInRanges]
      split
      · exact Nat.succ_le_succ (ih bytes)
      · exact Nat.zero_le _

/-- What a turn of the decoder comes to: a character, or a replacement for `n + 1` bytes. -/
inductive Turn (fuel : Nat) (first : UInt8) (rest : Bytes) : Prop where
  | char (ranges : List (UInt8 × UInt8)) (char : String) :
    continuations first = some ranges → ranges.length ≤ rest.length →
    asBytes char = first :: rest.take ranges.length →
    replaceInvalid (fuel + 1) (first :: rest) =
      char ++ replaceInvalid fuel (rest.drop ranges.length) → Turn fuel first rest
  | replaced (n : Nat) :
    (∀ ranges, continuations first = some ranges → countInRanges ranges rest = n ∧
      (n = ranges.length → fromUtf8 (first :: rest.take n) = none)) →
    (continuations first = none → n = 0) →
    replaceInvalid (fuel + 1) (first :: rest) = "\uFFFD" ++ replaceInvalid fuel (rest.drop n) →
    Turn fuel first rest

theorem turn (fuel : Nat) (first : UInt8) (rest : Bytes) : Turn fuel first rest := by
  cases hc : continuations first with
  | none =>
    refine .replaced 0 (fun ranges h => ?_) (fun _ => rfl) (by simp only [replaceInvalid, hc]; rfl)
    cases hc.symm.trans h
  | some ranges =>
    by_cases hn : countInRanges ranges rest = ranges.length
    · cases hchar : fromUtf8 (first :: rest.take ranges.length) with
      | some char =>
        refine .char ranges char hc (hn ▸ countInRanges_le ranges rest)
          (asBytes_of_fromUtf8 hchar) ?_
        simp only [replaceInvalid, hc, hn, if_true, hchar]
        rfl
      | none =>
        refine .replaced ranges.length (fun ranges' h => ?_) (fun h => ?_) ?_
        · cases hc.symm.trans h
          exact ⟨hn, fun _ => hchar⟩
        · cases hc.symm.trans h
        · simp only [replaceInvalid, hc, hn, if_true, hchar]
          rfl
    · refine .replaced (countInRanges ranges rest) (fun ranges' h => ?_) (fun h => ?_) ?_
      · cases hc.symm.trans h
        exact ⟨rfl, fun h => absurd h hn⟩
      · cases hc.symm.trans h
      · simp only [replaceInvalid, hc, hn, if_false]
        rfl

/-- A replacement character is only replaced by another one where it is cut. -/
theorem cut_of_replaced
    (hranges : ∀ ranges, continuations 0xEF = some ranges → countInRanges ranges rest = n ∧
      (n = ranges.length → fromUtf8 (0xEF :: rest.take n) = none))
    (h : rest <+: [0xBF, 0xBD] ++ after) : rest.drop n = [] ∧ rest.length ≤ 1 := by
  obtain ⟨hcount, hnone⟩ := hranges _ continuations_0xEF
  match rest, h with
  | [], _ => exact ⟨List.drop_nil, Nat.zero_le _⟩
  | [b], h =>
    obtain ⟨rfl, -⟩ := List.cons_prefix_cons.mp h
    have hn : n = 1 := hcount.symm
    exact ⟨by rw [hn]; rfl, Nat.le_refl _⟩
  | b :: c :: rest, h =>
    obtain ⟨hb, htail⟩ := List.cons_prefix_cons.mp h
    obtain ⟨hc, -⟩ := List.cons_prefix_cons.mp htail
    subst hb hc
    have hn : n = 2 := by
      rw [← hcount]
      rfl
    subst hn
    have hchar := hnone rfl
    rw [List.take_succ_cons, List.take_succ_cons, List.take_zero, ← asBytes_replacement,
      fromUtf8_asBytes] at hchar
    cases hchar

/-- A beginning of a text that decodes to the text lacks no more than the end of a replacement. -/
theorem length_replaceInvalid (hfuel : bytes.length ≤ fuel)
    (h : bytes <+: asBytes (replaceInvalid fuel bytes)) :
    (asBytes (replaceInvalid fuel bytes)).length ≤ bytes.length + 2 := by
  induction fuel generalizing bytes with
  | zero =>
    rw [List.eq_nil_of_length_eq_zero (Nat.le_zero.mp hfuel), replaceInvalid_nil]
    exact Nat.zero_le _
  | succ fuel ih =>
    match bytes, h with
    | [], _ =>
      rw [replaceInvalid_nil]
      exact Nat.zero_le _
    | first :: rest, h =>
      have hrest : rest.length ≤ fuel := by simpa using hfuel
      rcases turn fuel first rest with
        ⟨ranges, char, _, hle, hchar, heq⟩ | ⟨n, hranges, hzero, heq⟩
      · rw [heq, asBytes_append, hchar, List.cons_append] at h ⊢
        have htail := (List.cons_prefix_cons.mp h).2
        nth_rw 1 [← List.take_append_drop ranges.length rest] at htail
        have hcut := ih (by rw [List.length_drop]; omega)
          ((List.prefix_append_right_inj _).mp htail)
        simp only [List.length_cons, List.length_append, List.length_take, List.length_drop]
          at hcut ⊢
        omega
      · rw [heq, asBytes_append, asBytes_replacement] at h ⊢
        obtain ⟨rfl, htail⟩ := List.cons_prefix_cons.mp h
        obtain ⟨hnil, hshort⟩ := cut_of_replaced hranges htail
        rw [hnil, replaceInvalid_nil]
        simp only [List.length_cons, List.length_append]
        exact Nat.le_add_left 3 _

/-- Nor can a text with a mark before it come from what follows the mark. -/
theorem not_mark_prefix (hfuel : bytes.length ≤ fuel) :
    ¬ BYTE_ORDER_MARK ++ bytes <+: asBytes (replaceInvalid fuel bytes) := by
  intro h
  induction fuel generalizing bytes with
  | zero =>
    rw [List.eq_nil_of_length_eq_zero (Nat.le_zero.mp hfuel), replaceInvalid_nil] at h
    exact absurd h (by decide)
  | succ fuel ih =>
    match bytes, h with
    | [], h =>
      rw [replaceInvalid_nil] at h
      exact absurd h (by decide)
    | first :: rest, h =>
      have hrest : rest.length ≤ fuel := by simpa using hfuel
      rcases turn fuel first rest with
        ⟨ranges, char, hc, hle, hchar, heq⟩ | ⟨n, hranges, hzero, heq⟩
      · rw [heq, asBytes_append, hchar] at h
        obtain ⟨hfirst, h⟩ := List.cons_prefix_cons.mp h
        subst hfirst
        cases continuations_0xEF.symm.trans hc
        match rest, hle, h with
        | b :: c :: rest, _, h =>
          obtain ⟨hb, htail⟩ := List.cons_prefix_cons.mp h
          obtain ⟨hc, htail⟩ := List.cons_prefix_cons.mp htail
          subst hb hc
          exact ih (by simp at hrest ⊢; omega) htail
      · rw [heq, asBytes_append, asBytes_replacement] at h
        obtain ⟨-, h⟩ := List.cons_prefix_cons.mp h
        obtain ⟨hbyte, -⟩ := List.cons_prefix_cons.mp h
        exact absurd hbyte (by decide)

/-- What is cut from a text by more than two bytes does not decode to it. -/
theorem textDecode_ne (hcut : bytes <+: asBytes text)
    (hshort : bytes.length + 2 < (asBytes text).length) : textDecode bytes ≠ text := by
  intro heq
  rw [textDecode] at heq
  split at heq
  · next hmark =>
    obtain ⟨rest, rfl⟩ := hmark
    rw [List.length_append] at hshort
    change fromUtf8Lossy rest = text at heq
    rw [fromUtf8Lossy] at heq
    cases hutf : fromUtf8 rest with
    | some value =>
      rw [hutf, Option.getD_some] at heq
      rw [← heq, asBytes_of_fromUtf8 hutf] at hshort
      omega
    | none =>
      rw [hutf, Option.getD_none] at heq
      exact not_mark_prefix (Nat.le_refl _) (heq ▸ hcut)
  · rw [fromUtf8Lossy] at heq
    cases hutf : fromUtf8 bytes with
    | some value =>
      rw [hutf, Option.getD_some] at heq
      rw [← heq, asBytes_of_fromUtf8 hutf] at hshort
      omega
    | none =>
      rw [hutf, Option.getD_none] at heq
      have hlength := length_replaceInvalid (Nat.le_refl _) (heq ▸ hcut)
      rw [heq] at hlength
      omega

/-! ## Frames -/

theorem byteAt_ok (h : i < body.length) : byteAt body i = .ok body[i] := by
  rw [byteAt, List.getElem?_eq_getElem h]

theorem subarray_ok (h : first ≤ stop) (h' : stop ≤ body.length) :
    subarray body first stop = .ok ((body.drop first).take (stop - first)) := if_pos ⟨h, h'⟩

theorem readsWithin : ReadsWithin := by
  intro body
  rw [decodeCall]
  split
  · exact ⟨_, rfl⟩
  · next hlength =>
    rw [byteAt_ok (i := 0) (by omega)]
    dsimp only [bind, Except.bind]
    split
    · exact ⟨_, rfl⟩
    · rw [byteAt_ok (i := 1) (by omega)]
      dsimp only
      split
      · exact ⟨_, rfl⟩
      · next hdevice =>
        rw [byteAt_ok (by omega)]
        dsimp only
        split
        · exact ⟨_, rfl⟩
        · rw [subarray_ok (by omega) (by omega), subarray_ok (by omega) (by omega),
            subarray_ok (by omega) (Nat.le_refl _)]
          exact ⟨_, rfl⟩

/-- What `decodeCall` makes of a body whose first length is that of `call`. -/
theorem decodeCall_eq (hcall : call.length = x.toNat)
    (hevent : CALL_EVENTS[e.toNat]? = some event) :
    decodeCall (e :: x :: (call ++ y :: rest)) =
      if rest.length < y.toNat then .ok none
      else .ok (some ⟨event, textDecode call, textDecode (rest.drop y.toNat),
        textDecode (rest.take y.toNat)⟩) := by
  obtain ⟨body, hbody⟩ : ∃ body, body = e :: x :: (call ++ y :: rest) := ⟨_, rfl⟩
  have hlength : body.length = 3 + x.toNat + rest.length := by
    rw [hbody]
    simp
    omega
  have hevt : byteAt body 0 = .ok e := by rw [hbody]; rfl
  have hlen : byteAt body 1 = .ok x := by rw [hbody]; rfl
  have hdrop : body.drop (2 + x.toNat) = y :: rest := by
    rw [hbody, ← hcall, Nat.add_comm]
    exact List.drop_left
  have hdev : byteAt body (2 + x.toNat) = .ok y := by
    rw [byteAt, ← List.head?_drop, hdrop]
    rfl
  have hafter : body.drop (2 + x.toNat + 1) = rest := by
    rw [← List.drop_drop, hdrop]
    rfl
  rw [← hbody, decodeCall, if_neg (by omega), hevt]
  dsimp only [bind, Except.bind]
  rw [hevent, hlen]
  dsimp only
  rw [if_neg (by omega), hdev]
  dsimp only
  by_cases hshort : rest.length < y.toNat
  · rw [if_pos hshort, if_pos (by omega)]
  · rw [if_neg hshort, if_neg (by omega), subarray_ok (by omega) (by omega),
      subarray_ok (by omega) (by omega), subarray_ok (by omega) (Nat.le_refl _), hafter,
      ← List.drop_drop, hafter]
    have hcut : (body.drop 2).take x.toNat = call := by
      rw [hbody, ← hcall]
      exact List.take_left
    dsimp only
    rw [Nat.add_sub_cancel_left, Nat.add_sub_cancel_left, hcut,
      List.take_of_length_le (by rw [List.length_drop]; omega)]
    rfl

theorem event_index (event : CallSignalEvent) :
    CALL_EVENTS[(UInt8.ofNat (CALL_EVENTS.idxOf event)).toNat]? = some event := by
  cases event <;> decide

variable {signal : CallSignal}

theorem openPlaintext_encodeCall (signal : CallSignal) :
    openPlaintext (encodeCall signal) =
      (decodeCall (.ofNat (CALL_EVENTS.idxOf signal.event) ::
        .ofNat (asBytes signal.call).length :: (asBytes signal.call ++
          .ofNat (asBytes signal.device).length ::
            (asBytes signal.device ++ asBytes signal.account)))).map (·.map .call) := by
  have hcons : encodeCall signal = TYPE_CALL :: .ofNat (CALL_EVENTS.idxOf signal.event) ::
      .ofNat (asBytes signal.call).length :: (asBytes signal.call ++
        .ofNat (asBytes signal.device).length ::
          (asBytes signal.device ++ asBytes signal.account)) := by
    simp [encodeCall]
  rw [hcons, openPlaintext, if_neg (by decide), if_pos rfl]
  cases decodeCall _ <;> rfl

theorem toNat_ofNat_length (h : n < 256) : (UInt8.ofNat n).toNat = n := by
  rw [UInt8.toNat_ofNat']
  omega

/-- Of two texts that fit their bytes only the marks are lost. -/
theorem carries_iff_of_fits (hcall : (asBytes signal.call).length < 256)
    (hdevice : (asBytes signal.device).length < 256) :
    Carries signal ↔ ¬ BeginsWithMark signal.call ∧ ¬ BeginsWithMark signal.device ∧
      ¬ BeginsWithMark signal.account := by
  obtain ⟨event, call, account, device⟩ := signal
  dsimp only at hcall hdevice ⊢
  rw [Carries, openPlaintext_encodeCall]
  dsimp only
  rw [decodeCall_eq (toNat_ofNat_length hcall).symm (event_index event),
    toNat_ofNat_length hdevice, if_neg (by simp), List.drop_left, List.take_left]
  simp only [Except.map, Option.map_some, Except.ok.injEq, Option.some.injEq, Frame.call.injEq,
    CallSignal.mk.injEq, true_and, textDecode_asBytes]
  tauto

/-- A field that is longer than its length says does not come out as it went in. -/
theorem wrapped_ne (h : 256 ≤ (asBytes text).length)
    (hbytes : bytes = (asBytes text).take (UInt8.ofNat (asBytes text).length).toNat) :
    textDecode bytes ≠ text := by
  rw [UInt8.toNat_ofNat'] at hbytes
  refine textDecode_ne (hbytes ▸ List.take_prefix _ _) ?_
  rw [hbytes, List.length_take]
  omega

theorem fits_of_carries (h : Carries signal) :
    (asBytes signal.call).length < 256 ∧ (asBytes signal.device).length < 256 := by
  obtain ⟨event, call, account, device⟩ := signal
  rw [Carries, openPlaintext_encodeCall] at h
  dsimp only at h ⊢
  by_contra hlong
  by_cases hcall : (asBytes call).length < 256
  · -- the device is read short of its end
    have hdevice : 256 ≤ (asBytes device).length := by
      by_contra hshort
      exact hlong ⟨hcall, by omega⟩
    rw [decodeCall_eq (toNat_ofNat_length hcall).symm (event_index event)] at h
    split at h
    · cases h
    · simp only [Except.map, Option.map_some, Except.ok.injEq, Option.some.injEq,
        Frame.call.injEq, CallSignal.mk.injEq] at h
      refine wrapped_ne hdevice ?_ h.2.2.2
      rw [List.take_append_of_le_length (by rw [UInt8.toNat_ofNat']; omega)]
  · have hcall : 256 ≤ (asBytes call).length := by omega
    obtain ⟨k, hk⟩ : ∃ k, (UInt8.ofNat (asBytes call).length).toNat = k := ⟨_, rfl⟩
    have hlt : k < (asBytes call).length := by
      rw [← hk, UInt8.toNat_ofNat']
      omega
    -- the call is cut, and the byte after it taken for the length of the device
    obtain ⟨y, rest, hrest⟩ : ∃ y rest, (asBytes call).drop k = y :: rest := by
      cases hdrop : (asBytes call).drop k with
      | nil => exact absurd (List.drop_eq_nil_iff.mp hdrop) (by omega)
      | cons y rest => exact ⟨y, rest, rfl⟩
    nth_rw 2 [← List.take_append_drop k (asBytes call)] at h
    rw [hrest, List.append_assoc, List.cons_append,
      decodeCall_eq (by rw [hk, List.length_take]; omega) (event_index event)] at h
    split at h
    · cases h
    · simp only [Except.map, Option.map_some, Except.ok.injEq, Option.some.injEq,
        Frame.call.injEq, CallSignal.mk.injEq] at h
      exact wrapped_ne hcall (by rw [hk]) h.2.1

theorem carries_iff (signal : CallSignal) : Carries signal ↔ Framed signal := by
  constructor
  · intro h
    obtain ⟨hcall, hdevice⟩ := fits_of_carries h
    exact ⟨hcall, hdevice, (carries_iff_of_fits hcall hdevice).mp h⟩
  · rintro ⟨hcall, hdevice, hmarks⟩
    exact (carries_iff_of_fits hcall hdevice).mpr hmarks

/-- A frame is read as what it was made from exactly when its call and its device fit one byte of
length and none of its texts begins with a byte order mark. -/
theorem carried_iff (signal : CallSignal) : ReadsWithin ∧ Carries signal ↔ Framed signal :=
  (and_iff_right readsWithin).trans (carries_iff signal)

/-! ## An invitation with a long id -/

open Session.Wire (Content encode decode decode_encode wholeNumber writesWhole_wholeNumber)

theorem decode_invitation (h : ¬ BeginsWithMark call) :
    decode now (.whole (Session.Wire.encodeCall .invite call 0)) =
      .ok ⟨.call .invite call 0, none⟩ := by
  let body : Content := .call .invite call 0
  have hdocumented : body.Documented now := ⟨0, by decide, rfl⟩
  have hencoded : encode wholeNumber body none =
      .ok (View.whole (Session.Wire.encodeCall .invite call 0)).items := by
    rw [View.items_whole]
    rfl
  have hreceived : body.received = body :=
    body.received_eq_iff.mpr fun text htext => List.mem_singleton.mp htext ▸ h
  rw [decode_encode writesWhole_wholeNumber hdocumented (by simp) hencoded, hreceived]
  rfl

theorem length_repeated (n : Nat) :
    (asBytes (String.ofList (List.replicate n 'a'))).length = n := by
  rw [asBytes_ofList]
  induction n with
  | zero => rfl
  | succ n ih =>
    rw [List.replicate_succ, List.flatMap_cons, List.length_append, ih,
      utf8EncodeChar_of_ascii (by decide), List.length_singleton, Nat.add_comm]

theorem misread :
    ¬ ∀ now bytes call seconds sentAt event device account,
      decode now bytes = .ok ⟨.call .invite call seconds, sentAt⟩ →
        ReadsWithin ∧ Carries ⟨event, call, account, device⟩ := by
  intro h
  have hmark : ¬ BeginsWithMark (String.ofList (List.replicate 256 'a')) := by
    rw [BeginsWithMark, String.toList_ofList]
    decide
  have hcarries := (h 0 _ _ 0 none .ringing "d" "a" (decode_invitation hmark)).2
  have hlength := (fits_of_carries hcarries).1
  dsimp only at hlength
  rw [length_repeated] at hlength
  exact absurd hlength (by decide)

end Whispee.Calls
