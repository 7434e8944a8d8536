import Whispee.Group.Roles

/-!
# The bytes of a roster

What `Roster::decode` of `crates/crypto-core/src/roles.rs` accepts, and which of it is what
`Roster::encode` writes: `Roster::new` takes the admin out of the moderators after the bytes were
read, so a string that lists the admin among them reads as a roster with another encoding.
-/

namespace Whispee.Group

open Fallible

/-! ## Lengths that are read are lengths that are written -/

theorem u16ToBeBytes_u16FromBeBytes (high low : UInt8) :
    u16ToBeBytes (u16FromBeBytes high low) = [high, low] := by
  have hhigh := high.toNat_lt
  have hlow := low.toNat_lt
  rw [u16ToBeBytes, u16FromBeBytes]
  congr 1
  · rw [← UInt8.toNat_inj, UInt8.toNat_ofNat']
    omega
  · congr 1
    rw [← UInt8.toNat_inj, UInt8.toNat_ofNat']
    omega

theorem takeU16_eq_ok_iff : takeU16 bytes = .ok (n, rest) ↔
    n < 65536 ∧ bytes = u16ToBeBytes n ++ rest := by
  constructor
  · intro h
    match bytes, h with
    | high :: low :: bytes, h =>
      cases h
      have hhigh := high.toNat_lt
      have hlow := low.toNat_lt
      refine ⟨?_, by rw [u16ToBeBytes_u16FromBeBytes]; rfl⟩
      rw [u16FromBeBytes]
      omega
  · rintro ⟨h, rfl⟩
    exact takeU16_append h rest

/-- The bytes of a string behind its length. -/
def prefixedBytes (value : String) : Bytes :=
  u16ToBeBytes (asBytes value).length ++ asBytes value

def Fits (value : String) : Prop := (asBytes value).length ≤ 65535

theorem pushString_eq_ok_iff :
    pushString value = .ok bytes ↔ Fits value ∧ bytes = prefixedBytes value := by
  rw [Fits, prefixedBytes]
  change (if (asBytes value).length > 65535 then _ else _) = _ ↔ _
  by_cases hlong : (asBytes value).length > 65535
  · rw [if_pos hlong]
    exact ⟨nofun, fun h => absurd h.1 (by omega)⟩
  · rw [if_neg hlong, Except.ok.injEq]
    exact ⟨fun h => ⟨by omega, h.symm⟩, fun h => h.2.symm⟩

theorem takeString_eq_ok_iff : takeString bytes = .ok (value, rest) ↔
    Fits value ∧ bytes = prefixedBytes value ++ rest := by
  constructor
  · intro h
    rw [takeString] at h
    obtain ⟨⟨len, after⟩, hlen, h⟩ := bind_eq_ok_iff.1 h
    dsimp only at h
    obtain ⟨⟨raw, after'⟩, hraw, h⟩ := bind_eq_ok_iff.1 h
    obtain ⟨hlt, rfl⟩ := takeU16_eq_ok_iff.1 hlen
    rw [take] at hraw
    split at hraw
    · rename_i hin
      cases hraw
      dsimp only at h
      split at h
      · rename_i value' hvalue
        cases h
        have hbytes := asBytes_of_fromUtf8 hvalue
        have hlength : (asBytes value).length = len := by
          rw [hbytes, List.length_take]
          omega
        refine ⟨by rw [Fits, hlength]; omega, ?_⟩
        rw [prefixedBytes, hlength, hbytes, List.append_assoc, List.take_append_drop]
      · cases h
    · cases hraw
  · rintro ⟨hfits, rfl⟩
    exact takeString_append (pushString_eq_ok_iff.2 ⟨hfits, rfl⟩)

theorem takeStrings_eq_ok_iff {values : List String} :
    takeStrings count bytes = .ok (values, rest) ↔ values.length = count ∧
      (∀ value ∈ values, Fits value) ∧ bytes = values.flatMap prefixedBytes ++ rest := by
  induction count generalizing bytes values with
  | zero =>
    constructor
    · intro h
      cases h
      exact ⟨rfl, fun _ hv => (List.not_mem_nil hv).elim, rfl⟩
    · rintro ⟨hlength, _, rfl⟩
      cases List.length_eq_zero_iff.1 hlength
      rfl
  | succ count ih =>
    constructor
    · intro h
      rw [takeStrings] at h
      obtain ⟨⟨value, after⟩, hvalue, h⟩ := bind_eq_ok_iff.1 h
      dsimp only at h
      obtain ⟨⟨tail, after'⟩, htail, h⟩ := bind_eq_ok_iff.1 h
      cases h
      obtain ⟨hfits, rfl⟩ := takeString_eq_ok_iff.1 hvalue
      obtain ⟨rfl, hall, rfl⟩ := ih.1 htail
      refine ⟨rfl, fun v hv => ?_, by rw [List.flatMap_cons, List.append_assoc]⟩
      rcases List.mem_cons.1 hv with rfl | hv
      · exact hfits
      · exact hall v hv
    · rintro ⟨hlength, hall, rfl⟩
      cases values with
      | nil => cases hlength
      | cons value tail =>
        have hvalue : takeString (prefixedBytes value ++ (tail.flatMap prefixedBytes ++ rest)) =
            .ok (value, tail.flatMap prefixedBytes ++ rest) :=
          takeString_eq_ok_iff.2 ⟨hall value List.mem_cons_self, rfl⟩
        have htail : takeStrings count (tail.flatMap prefixedBytes ++ rest) = .ok (tail, rest) :=
          ih.2 ⟨Nat.succ.inj hlength, fun v hv => hall v (List.mem_cons_of_mem _ hv), rfl⟩
        rw [List.flatMap_cons, List.append_assoc]
        simp only [takeStrings, hvalue, bind, Except.bind, htail]

/-! ## Rosters -/

/-- The bytes name this admin and these moderators, in this order. -/
structure Names (admin : String) (moderators : List String) (bytes : Bytes) : Prop where
  adminFits : Fits admin
  moderatorsFit : ∀ moderator ∈ moderators, Fits moderator
  countFits : moderators.length ≤ 65535
  written : bytes = prefixedBytes admin ++
    (u16ToBeBytes moderators.length ++ moderators.flatMap prefixedBytes)

theorem decode_eq_ok_iff {r : Roster} : Roster.decode bytes = .ok r ↔
    ∃ admin moderators, Names admin moderators bytes ∧ Roster.new admin moderators = .ok r := by
  constructor
  · intro h
    rw [Roster.decode] at h
    obtain ⟨⟨admin, after⟩, hadmin, hafter⟩ := bind_eq_ok_iff.1 h
    dsimp only at hafter
    obtain ⟨⟨count, after'⟩, hcount, hafter⟩ := bind_eq_ok_iff.1 hafter
    dsimp only at hafter
    obtain ⟨⟨moderators, rest⟩, hmoderators, hnew⟩ := bind_eq_ok_iff.1 hafter
    dsimp only at hnew
    split at hnew
    · rename_i hempty
      rw [List.isEmpty_iff] at hempty
      obtain ⟨hfits, rfl⟩ := takeString_eq_ok_iff.1 hadmin
      obtain ⟨hlt, rfl⟩ := takeU16_eq_ok_iff.1 hcount
      obtain ⟨rfl, hall, rfl⟩ := takeStrings_eq_ok_iff.1 hmoderators
      exact ⟨admin, moderators, ⟨hfits, hall, by omega, by rw [hempty, List.append_nil]⟩, hnew⟩
    · cases hnew
  · rintro ⟨admin, moderators, ⟨hfits, hall, hcount, rfl⟩, hnew⟩
    have hcount : takeU16 (u16ToBeBytes moderators.length ++ moderators.flatMap prefixedBytes) =
        .ok (moderators.length, moderators.flatMap prefixedBytes) :=
      takeU16_eq_ok_iff.2 ⟨by omega, rfl⟩
    have hmoderators : takeStrings moderators.length (moderators.flatMap prefixedBytes) =
        .ok (moderators, []) :=
      takeStrings_eq_ok_iff.2 ⟨rfl, hall, (List.append_nil _).symm⟩
    rw [Roster.decode, takeString_eq_ok_iff.2 ⟨hfits, rfl⟩]
    simp only [bind, Except.bind, hcount, hmoderators, List.isEmpty_nil, if_true, hnew]

theorem mapM_pushString_eq_ok_iff {values : List String} {parts : List Bytes} :
    values.mapM pushString = .ok parts ↔
      (∀ value ∈ values, Fits value) ∧ parts = values.map prefixedBytes := by
  rw [mapM_eq_ok_iff]
  constructor
  · intro h
    induction h with
    | nil => exact ⟨fun _ hv => (List.not_mem_nil hv).elim, rfl⟩
    | cons hvalue _ ih =>
      obtain ⟨hfits, rfl⟩ := pushString_eq_ok_iff.1 hvalue
      refine ⟨fun v hv => ?_, by rw [ih.2]; rfl⟩
      rcases List.mem_cons.1 hv with rfl | hv
      · exact hfits
      · exact ih.1 v hv
  · rintro ⟨hall, rfl⟩
    exact List.forall₂_map_right_iff.2
      (List.forall₂_same.2 fun v hv => pushString_eq_ok_iff.2 ⟨hall v hv, rfl⟩)

theorem encode_eq_ok_iff {r : Roster} :
    r.encode = .ok bytes ↔ Names r.admin r.moderators bytes := by
  constructor
  · intro h
    obtain ⟨admin, hadmin, h⟩ := bind_eq_ok_iff.1 h
    split at h
    · cases h
    · obtain ⟨parts, hparts, h⟩ := bind_eq_ok_iff.1 h
      cases h
      obtain ⟨hfits, rfl⟩ := pushString_eq_ok_iff.1 hadmin
      obtain ⟨hall, rfl⟩ := mapM_pushString_eq_ok_iff.1 hparts
      exact ⟨hfits, hall, by omega, by rw [List.append_assoc]; rfl⟩
  · rintro ⟨hfits, hall, hcount, rfl⟩
    rw [Roster.encode, pushString_eq_ok_iff.2 ⟨hfits, rfl⟩]
    change (if r.moderators.length > 65535 then _ else _) = _
    rw [if_neg (by omega), mapM_pushString_eq_ok_iff.2 ⟨hall, rfl⟩, ← List.append_assoc]
    rfl

/-- The names can be read off the bytes. -/
theorem Names.unique (h : Names admin moderators bytes) (h' : Names admin' moderators' bytes) :
    admin = admin' ∧ moderators = moderators' := by
  have hadmin := takeString_eq_ok_iff.2 ⟨h.adminFits, h.written⟩
  rw [takeString_eq_ok_iff.2 ⟨h'.adminFits, h'.written⟩] at hadmin
  obtain ⟨rfl, hafter⟩ := Prod.mk.inj (Except.ok.inj hadmin)
  have hcount := takeU16_eq_ok_iff.2 ⟨Nat.lt_succ_of_le h.countFits, hafter⟩
  rw [takeU16_append (Nat.lt_succ_of_le h'.countFits)] at hcount
  obtain ⟨hlength, hrest⟩ := Prod.mk.inj (Except.ok.inj hcount)
  have hread := takeStrings_eq_ok_iff.2 ⟨rfl, h.moderatorsFit, (List.append_nil _).symm⟩
  rw [← hlength, ← hrest, takeStrings_eq_ok_iff.2 ⟨rfl, h'.moderatorsFit, (List.append_nil _).symm⟩]
    at hread
  exact ⟨rfl, (Prod.mk.inj (Except.ok.inj hread)).1.symm⟩

/-! ## Reading at a cursor

The source keeps a cursor into one slice. It adds to it as a `usize` of `w` bits, and `expect`
panics where the two bytes of a length are not two. -/

/-- `none` is a panic. -/
abbrev Reading := ExceptT CryptoError Option

def takeAt (w : Nat) (bytes : Bytes) (cursor n : Nat) : Reading (Bytes × Nat) :=
  -- `checked_add`, then `get`
  if cursor + n < 2 ^ w then
    if cursor + n ≤ bytes.length then
      pure ((bytes.drop cursor).take n, cursor + n)
    else throw (.malformed "truncated roster")
  else throw (.malformed "truncated roster")

def takeU16At (w : Nat) (bytes : Bytes) (cursor : Nat) : Reading (Nat × Nat) := do
  match ← takeAt w bytes cursor 2 with
  | ([high, low], cursor) => pure (u16FromBeBytes high low, cursor)
  | _ => (none : Option (Except CryptoError (Nat × Nat)))

def takeStringAt (w : Nat) (bytes : Bytes) (cursor : Nat) : Reading (String × Nat) := do
  let (len, cursor) ← takeU16At w bytes cursor
  let (raw, cursor) ← takeAt w bytes cursor len
  match fromUtf8 raw with
  | some value => pure (value, cursor)
  | none => throw (.malformed "non-UTF-8 handle in the roster")

def takeStringsAt (w : Nat) (bytes : Bytes) : Nat → Nat → Reading (List String × Nat)
  | 0, cursor => pure ([], cursor)
  | count + 1, cursor => do
    let (value, cursor) ← takeStringAt w bytes cursor
    let (values, cursor) ← takeStringsAt w bytes count cursor
    pure (value :: values, cursor)

def Roster.decodeAt (w : Nat) (bytes : Bytes) : Reading Roster := do
  let (admin, cursor) ← takeStringAt w bytes 0
  let (count, cursor) ← takeU16At w bytes cursor
  let (moderators, cursor) ← takeStringsAt w bytes count cursor
  if cursor = bytes.length then
    (some (Roster.new admin moderators) : Option (Except CryptoError Roster))
  else throw (.malformed "trailing bytes after the roster")

/-- Reading at a cursor does not panic, and reads what reading the bytes after it does. -/
inductive Agree (bytes : Bytes) : Reading (α × Nat) → Except CryptoError (α × Bytes) → Prop where
  | ok (h : cursor ≤ bytes.length) : Agree bytes (pure (a, cursor)) (.ok (a, bytes.drop cursor))
  | error : Agree bytes (throw e) (.error e)

theorem Agree.bind {x : Reading (α × Nat)} {y : Except CryptoError (α × Bytes)}
    {f : α × Nat → Reading (β × Nat)} {g : α × Bytes → Except CryptoError (β × Bytes)}
    (h : Agree bytes x y)
    (hf : ∀ a cursor, cursor ≤ bytes.length →
      Agree bytes (f (a, cursor)) (g (a, bytes.drop cursor))) :
    Agree bytes (x >>= f) (y >>= g) := by
  cases h with
  | ok h => exact hf _ _ h
  | error => exact .error

theorem Agree.bind_eq {x : Reading (α × Nat)} {y : Except CryptoError (α × Bytes)}
    {f : α × Nat → Reading β} {g : α × Bytes → Except CryptoError β} (h : Agree bytes x y)
    (hf : ∀ a cursor, cursor ≤ bytes.length → f (a, cursor) = some (g (a, bytes.drop cursor))) :
    x >>= f = some (y >>= g) := by
  cases h with
  | ok h => exact hf _ _ h
  | error => rfl

section
variable {bytes : Bytes} (hbytes : bytes.length < 2 ^ w)
include hbytes

theorem takeAt_agree (h : cursor ≤ bytes.length) :
    Agree bytes (takeAt w bytes cursor n) (take (bytes.drop cursor) n) := by
  unfold takeAt take
  rw [List.length_drop]
  by_cases hin : cursor + n ≤ bytes.length
  · rw [if_pos (by omega), if_pos hin, if_pos (by omega), List.drop_drop]
    exact .ok hin
  · rw [if_neg (by omega : ¬n ≤ bytes.length - cursor), if_neg hin, ite_self]
    exact .error

theorem takeU16At_agree (h : cursor ≤ bytes.length) :
    Agree bytes (takeU16At w bytes cursor) (takeU16 (bytes.drop cursor)) := by
  have hlength := List.length_drop (i := cursor) (l := bytes)
  match hrest : bytes.drop cursor with
  | [] | [_] =>
    rw [hrest] at hlength
    have hshort : takeAt w bytes cursor 2 = throw (.malformed "truncated roster") := by
      rw [takeAt, if_neg (by simp at hlength; omega : ¬cursor + 2 ≤ bytes.length), ite_self]
    rw [takeU16At, hshort]
    exact .error
  | high :: low :: rest =>
    rw [hrest] at hlength
    simp only [List.length_cons] at hlength
    have hpair : takeAt w bytes cursor 2 = pure ([high, low], cursor + 2) := by
      rw [takeAt, if_pos (by omega), if_pos (by omega), hrest]
      rfl
    have hdrop : rest = bytes.drop (cursor + 2) := by
      rw [← List.drop_drop, hrest]
      rfl
    rw [takeU16At, hpair, hdrop]
    exact .ok (by omega)

theorem takeStringAt_agree (h : cursor ≤ bytes.length) :
    Agree bytes (takeStringAt w bytes cursor) (takeString (bytes.drop cursor)) := by
  refine .bind (takeU16At_agree hbytes h) fun len cursor h => ?_
  refine .bind (takeAt_agree hbytes h) fun raw cursor h => ?_
  dsimp only
  cases fromUtf8 raw with
  | none => exact .error
  | some value => exact .ok h

theorem takeStringsAt_agree (h : cursor ≤ bytes.length) :
    Agree bytes (takeStringsAt w bytes count cursor) (takeStrings count (bytes.drop cursor)) := by
  induction count generalizing cursor with
  | zero => exact .ok h
  | succ count ih =>
    refine .bind (takeStringAt_agree hbytes h) fun value cursor h => ?_
    exact .bind (ih h) fun values cursor h => .ok h

/-- No string of bytes makes `decode` panic. -/
theorem decodeAt_eq : Roster.decodeAt w bytes = some (Roster.decode bytes) := by
  refine (takeStringAt_agree hbytes (Nat.zero_le _)).bind_eq fun admin cursor h => ?_
  refine (takeU16At_agree hbytes h).bind_eq fun count cursor h => ?_
  refine (takeStringsAt_agree hbytes h).bind_eq fun moderators cursor h => ?_
  dsimp only
  by_cases hend : cursor = bytes.length
  · rw [if_pos hend, hend, List.drop_length]
    rfl
  · have hrest : bytes.drop cursor ≠ [] := fun hrest =>
      hend (Nat.le_antisymm h (List.drop_eq_nil_iff.1 hrest))
    rw [if_neg hend, if_neg (by rwa [List.isEmpty_iff])]
    rfl

end

/-! ## Canonical strings -/

/-- The admin the bytes name is not among the moderators they list. -/
def Clean (bytes : Bytes) : Prop :=
  ∀ admin moderators, Names admin moderators bytes → admin ∉ moderators

theorem encode_of_decode_iff {r : Roster} (h : Roster.decode bytes = .ok r) :
    r.encode = .ok bytes ↔ Clean bytes := by
  obtain ⟨admin, moderators, hnames, hnew⟩ := decode_eq_ok_iff.1 h
  have hne : admin ≠ "" := by
    rintro rfl
    cases hnew
  rw [Roster.new, dif_neg hne] at hnew
  cases hnew
  rw [encode_eq_ok_iff]
  constructor
  · intro hwritten admin' moderators' hnames'
    obtain ⟨rfl, rfl⟩ := hnames'.unique hwritten
    simp
  · intro hclean
    have hfilter : moderators.filter (· ≠ admin) = moderators :=
      List.filter_eq_self.2 fun m hm => decide_eq_true fun heq =>
        hclean admin moderators hnames (heq ▸ hm)
    change Names admin (moderators.filter (· ≠ admin)) bytes
    rw [hfilter]
    exact hnames

theorem encode_of_fits {r : Roster} (hadmin : Fits r.admin)
    (hmoderators : ∀ moderator ∈ r.moderators, Fits moderator)
    (hcount : r.moderators.length ≤ 65535) : ∃ bytes, r.encode = .ok bytes :=
  ⟨_, encode_eq_ok_iff.2 ⟨hadmin, hmoderators, hcount, rfl⟩⟩

/-- What is encoded reads back. What reads was encoded, and has no other string, where the
moderators listed do not include the admin named; no string makes the reader panic. -/
theorem codec_canonical (r : Roster) (bytes : Bytes) :
    (Fits r.admin → (∀ moderator ∈ r.moderators, Fits moderator) → r.moderators.length ≤ 65535 →
      ∃ bytes, r.encode = .ok bytes ∧ Roster.decode bytes = .ok r) ∧
    (Roster.decode bytes = .ok r → (r.encode = .ok bytes ↔ Clean bytes)) ∧
    (Roster.decode bytes = .ok r → Clean bytes → ∀ bytes', Roster.decode bytes' = .ok r →
      (bytes' = bytes ↔ Clean bytes')) ∧
    ∀ w, bytes.length < 2 ^ w → Roster.decodeAt w bytes = some (Roster.decode bytes) := by
  refine ⟨fun hadmin hmoderators hcount => ?_, fun h => encode_of_decode_iff h,
    fun h hclean bytes' h' => ?_, fun w h => decodeAt_eq h⟩
  · obtain ⟨bytes, hbytes⟩ := encode_of_fits hadmin hmoderators hcount
    exact ⟨bytes, hbytes, Roster.decode_encode hbytes⟩
  · refine ⟨fun heq => heq ▸ hclean, fun hclean' => ?_⟩
    have hencode := (encode_of_decode_iff h).2 hclean
    have hencode' := (encode_of_decode_iff h').2 hclean'
    exact Except.ok.inj (hencode'.symm.trans hencode)

/-- Admin `a`, and `a` again as the one moderator: the string reads as the roster of `a` alone. -/
theorem two_strings_of_one_roster :
    ¬(∀ bytes r, Roster.decode bytes = .ok r → r.encode = .ok bytes) ∧
    ¬∀ bytes bytes' r, Roster.decode bytes = .ok r → Roster.decode bytes' = .ok r →
      bytes = bytes' := by
  have hrepeated : Roster.decode [0, 1, 97, 0, 1, 0, 1, 97] =
      .ok ⟨"a", [], by decide, List.not_mem_nil⟩ := rfl
  have halone : Roster.decode [0, 1, 97, 0, 0] = .ok ⟨"a", [], by decide, List.not_mem_nil⟩ := rfl
  have hencode : Roster.encode ⟨"a", [], by decide, List.not_mem_nil⟩ = .ok [0, 1, 97, 0, 0] := rfl
  refine ⟨fun h => ?_, fun h => ?_⟩
  · cases hencode.symm.trans (h _ _ hrepeated)
  · cases h _ _ _ hrepeated halone

end Whispee.Group
