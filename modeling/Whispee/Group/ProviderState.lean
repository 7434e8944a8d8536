import Whispee.Group.Roles
import Mathlib.Data.Finmap

/-!
# The exported state of a provider

`export_state` and `import_state` of `crates/crypto-core/src/provider.rs`, on a target whose
`usize` has `w` bits. The storage is a map from bytes to bytes; a `HashMap` is walked in some order
of its own, and the order is what an `AList` adds to a `Finmap`.
-/

namespace Whispee.Group

open Fallible

abbrev Values := Finmap fun _ : Bytes => Bytes

/-- The values in the order a walk over them has. -/
abbrev Walk := AList fun _ : Bytes => Bytes

/-! ## `export_state` -/

def entryBytes (entry : (_ : Bytes) × Bytes) : Bytes :=
  toBeBytes 8 entry.1.length ++ (toBeBytes 8 entry.2.length ++ (entry.1 ++ entry.2))

def exportState (values : Walk) : Bytes :=
  toBeBytes 8 values.entries.length ++ values.entries.flatMap entryBytes

/-! ## `import_state` -/

namespace Reader

/-- The next `len` bytes, and the bytes after them. Past the end, and past the largest `usize`,
there is nothing to read. -/
def bytes (rest : Bytes) (len : Nat) : Except CryptoError (Bytes × Bytes) :=
  if len ≤ rest.length then .ok (rest.take len, rest.drop len)
  else .error (.storage "truncated state")

def u64 (rest : Bytes) : Except CryptoError (Nat × Bytes) := do
  let (raw, rest) ← bytes rest 8
  .ok (fromBeBytes raw, rest)

end Reader

/-- The loop of `import_state`. `as usize` keeps the low bits of a length. -/
def importEntries (w : Nat) : (count : Nat) → Bytes → Values → Except CryptoError Values
  | 0, _, values => .ok values
  | count + 1, rest, values => do
    let (keyLen, rest) ← Reader.u64 rest
    let (valueLen, rest) ← Reader.u64 rest
    let (key, rest) ← Reader.bytes rest (keyLen % 2 ^ w)
    let (value, rest) ← Reader.bytes rest (valueLen % 2 ^ w)
    importEntries w count rest (values.insert key value)

def importState (w : Nat) (state : Bytes) : Except CryptoError Values := do
  let (count, rest) ← Reader.u64 state
  importEntries w count rest ∅

/-! ## What is read -/

theorem toBeBytes_fromBeBytes (bytes : Bytes) :
    toBeBytes bytes.length (fromBeBytes bytes) = bytes := by
  induction bytes using List.reverseRecOn with
  | nil => rfl
  | append_singleton bytes byte ih =>
    have hbyte := byte.toNat_lt
    have hvalue : fromBeBytes (bytes ++ [byte]) = 256 * fromBeBytes bytes + byte.toNat := by
      rw [fromBeBytes, List.foldl_append]
      rfl
    rw [List.length_append, List.length_singleton, toBeBytes, hvalue]
    have hhigh : (256 * fromBeBytes bytes + byte.toNat) / 256 = fromBeBytes bytes := by omega
    have hlow : UInt8.ofNat (256 * fromBeBytes bytes + byte.toNat) = byte := by
      rw [← UInt8.toNat_inj, UInt8.toNat_ofNat']
      omega
    rw [hhigh, hlow, ih]

theorem fromBeBytes_lt (bytes : Bytes) : fromBeBytes bytes < 256 ^ bytes.length := by
  induction bytes using List.reverseRecOn with
  | nil => exact Nat.one_pos
  | append_singleton bytes byte ih =>
    have hbyte := byte.toNat_lt
    have hvalue : fromBeBytes (bytes ++ [byte]) = 256 * fromBeBytes bytes + byte.toNat := by
      rw [fromBeBytes, List.foldl_append]
      rfl
    rw [List.length_append, List.length_singleton, Nat.pow_succ', hvalue]
    omega

theorem Reader.bytes_eq_ok_iff : Reader.bytes state len = .ok (raw, rest) ↔
    raw.length = len ∧ state = raw ++ rest := by
  rw [Reader.bytes]
  constructor
  · intro h
    split at h
    · rename_i hin
      cases h
      exact ⟨by rw [List.length_take]; omega, (List.take_append_drop _ _).symm⟩
    · cases h
  · rintro ⟨rfl, rfl⟩
    rw [if_pos (by rw [List.length_append]; omega), List.take_left', List.drop_left'] <;> rfl

theorem Reader.u64_eq_ok_iff : Reader.u64 state = .ok (n, rest) ↔
    n < 2 ^ 64 ∧ state = toBeBytes 8 n ++ rest := by
  constructor
  · intro h
    obtain ⟨⟨raw, after⟩, hraw, h⟩ := bind_eq_ok_iff.1 h
    cases h
    obtain ⟨hlength, rfl⟩ := Reader.bytes_eq_ok_iff.1 hraw
    have hlt := fromBeBytes_lt raw
    have hbytes := toBeBytes_fromBeBytes raw
    rw [hlength] at hlt hbytes
    exact ⟨hlt, by rw [hbytes]⟩
  · rintro ⟨hlt, rfl⟩
    rw [Reader.u64, Reader.bytes_eq_ok_iff.2 ⟨length_toBeBytes, rfl⟩]
    change Except.ok (fromBeBytes (toBeBytes 8 n), rest) = _
    rw [fromBeBytes_toBeBytes hlt]

/-- An entry as it is read: the lengths announced, and the bytes taken for them. -/
structure Record where
  keyLen : Nat
  valueLen : Nat
  key : Bytes
  value : Bytes

def recordBytes (r : Record) : Bytes :=
  toBeBytes 8 r.keyLen ++ (toBeBytes 8 r.valueLen ++ (r.key ++ r.value))

/-- The lengths are `u64`s, and as many bytes were taken as they have low bits for. -/
structure Record.Read (w : Nat) (r : Record) : Prop where
  keyLen : r.keyLen < 2 ^ 64
  valueLen : r.valueLen < 2 ^ 64
  key : r.key.length = r.keyLen % 2 ^ w
  value : r.value.length = r.valueLen % 2 ^ w

def insertRecord (values : Values) (r : Record) : Values := values.insert r.key r.value

theorem importEntries_eq_ok_iff {values values' : Values} :
    importEntries w count state values = .ok values' ↔ ∃ (records : List Record) (rest : Bytes),
      records.length = count ∧
      (∀ r ∈ records, r.Read w) ∧ state = records.flatMap recordBytes ++ rest ∧
      values' = records.foldl insertRecord values := by
  induction count generalizing state values with
  | zero =>
    constructor
    · intro h
      cases h
      exact ⟨[], state, rfl, fun _ hr => (List.not_mem_nil hr).elim, rfl, rfl⟩
    · rintro ⟨records, rest, hlength, _, _, rfl⟩
      cases List.length_eq_zero_iff.1 hlength
      rfl
  | succ count ih =>
    constructor
    · intro h
      rw [importEntries] at h
      obtain ⟨⟨keyLen, _⟩, hkeyLen, h⟩ := bind_eq_ok_iff.1 h
      dsimp only at h
      obtain ⟨⟨valueLen, _⟩, hvalueLen, h⟩ := bind_eq_ok_iff.1 h
      dsimp only at h
      obtain ⟨⟨key, _⟩, hkey, h⟩ := bind_eq_ok_iff.1 h
      dsimp only at h
      obtain ⟨⟨value, after⟩, hvalue, h⟩ := bind_eq_ok_iff.1 h
      dsimp only at h
      obtain ⟨records, rest, rfl, hread, rfl, rfl⟩ := ih.1 h
      obtain ⟨hvalueLength, rfl⟩ := Reader.bytes_eq_ok_iff.1 hvalue
      obtain ⟨hkeyLength, rfl⟩ := Reader.bytes_eq_ok_iff.1 hkey
      obtain ⟨hvalueLt, rfl⟩ := Reader.u64_eq_ok_iff.1 hvalueLen
      obtain ⟨hkeyLt, rfl⟩ := Reader.u64_eq_ok_iff.1 hkeyLen
      refine ⟨⟨keyLen, valueLen, key, value⟩ :: records, rest, rfl, ?_, ?_, rfl⟩
      · exact List.forall_mem_cons.2 ⟨⟨hkeyLt, hvalueLt, hkeyLength, hvalueLength⟩, hread⟩
      · rw [List.flatMap_cons, recordBytes]
        simp only [List.append_assoc]
    · rintro ⟨records, rest, hlength, hread, rfl, rfl⟩
      cases records with
      | nil => cases hlength
      | cons r records =>
        rw [List.forall_mem_cons] at hread
        obtain ⟨hr, hread⟩ := hread
        have htail : importEntries w count (records.flatMap recordBytes ++ rest)
            (insertRecord values r) = .ok (records.foldl insertRecord (insertRecord values r)) :=
          ih.2 ⟨records, rest, Nat.succ.inj hlength, hread, rfl, rfl⟩
        have hvalue := Reader.bytes_eq_ok_iff.2
          ⟨hr.value, (rfl : r.value ++ (records.flatMap recordBytes ++ rest) = _)⟩
        have hkey := Reader.bytes_eq_ok_iff.2
          ⟨hr.key, (rfl : r.key ++ (r.value ++ (records.flatMap recordBytes ++ rest)) = _)⟩
        have hvalueLen := Reader.u64_eq_ok_iff.2 ⟨hr.valueLen, (rfl : toBeBytes 8 r.valueLen ++
          (r.key ++ (r.value ++ (records.flatMap recordBytes ++ rest))) = _)⟩
        have hkeyLen := Reader.u64_eq_ok_iff.2 ⟨hr.keyLen, (rfl : toBeBytes 8 r.keyLen ++
          (toBeBytes 8 r.valueLen ++
            (r.key ++ (r.value ++ (records.flatMap recordBytes ++ rest)))) = _)⟩
        rw [List.flatMap_cons, recordBytes]
        simp only [List.append_assoc]
        simp only [importEntries, hkeyLen, hvalueLen, hkey, hvalue, bind, Except.bind]
        exact htail

/-- The state holds these records, and then `rest`, which nobody reads. -/
structure Lists (w : Nat) (records : List Record) (rest state : Bytes) : Prop where
  count : records.length < 2 ^ 64
  read : ∀ r ∈ records, r.Read w
  written : state = toBeBytes 8 records.length ++ (records.flatMap recordBytes ++ rest)

theorem importState_eq_ok_iff {values : Values} : importState w state = .ok values ↔
    ∃ records rest, Lists w records rest state ∧ values = records.foldl insertRecord ∅ := by
  constructor
  · intro h
    obtain ⟨⟨count, after⟩, hcount, h⟩ := bind_eq_ok_iff.1 h
    obtain ⟨records, rest, rfl, hread, rfl, rfl⟩ := importEntries_eq_ok_iff.1 h
    obtain ⟨hlt, rfl⟩ := Reader.u64_eq_ok_iff.1 hcount
    exact ⟨records, rest, ⟨hlt, hread, rfl⟩, rfl⟩
  · rintro ⟨records, rest, ⟨hlt, hread, rfl⟩, rfl⟩
    rw [importState, Reader.u64_eq_ok_iff.2 ⟨hlt, rfl⟩]
    exact importEntries_eq_ok_iff.2 ⟨records, rest, rfl, hread, rfl, rfl⟩

theorem toBeBytes_append_inj {n n' : Nat} (hn : n < 2 ^ 64) (hn' : n' < 2 ^ 64)
    (h : toBeBytes 8 n ++ rest = toBeBytes 8 n' ++ rest') : n = n' ∧ rest = rest' := by
  obtain ⟨hbytes, hrest⟩ := List.append_inj h (by rw [length_toBeBytes, length_toBeBytes])
  have hvalue := congrArg fromBeBytes hbytes
  rw [fromBeBytes_toBeBytes hn, fromBeBytes_toBeBytes hn'] at hvalue
  exact ⟨hvalue, hrest⟩

theorem recordBytes_append_inj {r r' : Record} (hr : r.Read w) (hr' : r'.Read w)
    (h : recordBytes r ++ rest = recordBytes r' ++ rest') : r = r' ∧ rest = rest' := by
  simp only [recordBytes, List.append_assoc] at h
  obtain ⟨hkeyLen, hafter⟩ := toBeBytes_append_inj hr.keyLen hr'.keyLen h
  obtain ⟨hvalueLen, hafter⟩ := toBeBytes_append_inj hr.valueLen hr'.valueLen hafter
  obtain ⟨hkey, hafter⟩ := List.append_inj hafter (by rw [hr.key, hr'.key, hkeyLen])
  obtain ⟨hvalue, hrest⟩ := List.append_inj hafter (by rw [hr.value, hr'.value, hvalueLen])
  cases r
  cases r'
  cases hkeyLen
  cases hvalueLen
  cases hkey
  cases hvalue
  exact ⟨rfl, hrest⟩

theorem flatMap_recordBytes_inj {records records' : List Record}
    (hread : ∀ r ∈ records, r.Read w) (hread' : ∀ r ∈ records', r.Read w)
    (hlength : records.length = records'.length)
    (h : records.flatMap recordBytes ++ rest = records'.flatMap recordBytes ++ rest') :
    records = records' ∧ rest = rest' := by
  induction records generalizing records' with
  | nil =>
    cases List.length_eq_zero_iff.1 hlength.symm
    exact ⟨rfl, h⟩
  | cons r records ih =>
    cases records' with
    | nil => cases hlength
    | cons r' records' =>
      rw [List.forall_mem_cons] at hread hread'
      rw [List.flatMap_cons, List.flatMap_cons, List.append_assoc, List.append_assoc] at h
      obtain ⟨rfl, hafter⟩ := recordBytes_append_inj hread.1 hread'.1 h
      obtain ⟨rfl, hrest⟩ := ih hread.2 hread'.2 (Nat.succ.inj hlength) hafter
      exact ⟨rfl, hrest⟩

theorem Lists.unique (h : Lists w records rest state) (h' : Lists w records' rest' state) :
    records = records' ∧ rest = rest' := by
  obtain ⟨hcount, hafter⟩ := toBeBytes_append_inj h.count h'.count (h.written.symm.trans h'.written)
  exact flatMap_recordBytes_inj h.read h'.read hcount hafter

/-! ## What is exported -/

def Record.ofEntry (entry : (_ : Bytes) × Bytes) : Record where
  keyLen := entry.1.length
  valueLen := entry.2.length
  key := entry.1
  value := entry.2

/-- Entries whose lengths are the ones announced, and something after them or nothing. -/
structure Written (entries : List ((_ : Bytes) × Bytes)) (rest state : Bytes) : Prop where
  count : entries.length < 2 ^ 64
  lengths : ∀ entry ∈ entries, entry.1.length < 2 ^ 64 ∧ entry.2.length < 2 ^ 64
  written : state = toBeBytes 8 entries.length ++ (entries.flatMap entryBytes ++ rest)

/-- No length is inconsistent with the bytes there are. -/
def Consistent (state : Bytes) : Prop := ∃ entries rest, Written entries rest state

/-- The lengths that are read are lengths of slices of the target. -/
def Fitting (w : Nat) (state : Bytes) : Prop :=
  ∀ records rest, Lists w records rest state →
    ∀ r ∈ records, r.keyLen < 2 ^ w ∧ r.valueLen < 2 ^ w

/-- Nothing comes after the last entry, and no key comes twice. -/
def Exact (w : Nat) (state : Bytes) : Prop :=
  ∀ records rest, Lists w records rest state → rest = [] ∧ (records.map (·.key)).Nodup

def Record.entry (r : Record) : (_ : Bytes) × Bytes := ⟨r.key, r.value⟩

theorem flatMap_ofEntry (entries : List ((_ : Bytes) × Bytes)) :
    (entries.map Record.ofEntry).flatMap recordBytes = entries.flatMap entryBytes := by
  rw [List.flatMap_map]
  rfl

theorem map_entry_ofEntry (entries : List ((_ : Bytes) × Bytes)) :
    (entries.map Record.ofEntry).map Record.entry = entries := by
  rw [List.map_map]
  exact List.map_id entries

theorem fitting_ofEntry {entries : List ((_ : Bytes) × Bytes)}
    (h : ∀ entry ∈ entries, entry.1.length < 2 ^ w ∧ entry.2.length < 2 ^ w) :
    ∀ r ∈ entries.map Record.ofEntry, r.keyLen < 2 ^ w ∧ r.valueLen < 2 ^ w := by
  intro r hr
  obtain ⟨entry, hentry, rfl⟩ := List.mem_map.1 hr
  exact h entry hentry

theorem length_le_flatMap (entries : List ((_ : Bytes) × Bytes)) :
    entries.length ≤ (entries.flatMap entryBytes).length := by
  induction entries with
  | nil => exact Nat.le_refl _
  | cons entry entries ih =>
    rw [List.flatMap_cons, List.length_append, List.length_cons, entryBytes, List.length_append,
      length_toBeBytes]
    omega

theorem lengths_le_flatMap {entries : List ((_ : Bytes) × Bytes)} (hentry : entry ∈ entries) :
    entry.1.length ≤ (entries.flatMap entryBytes).length ∧
      entry.2.length ≤ (entries.flatMap entryBytes).length := by
  have hsub : (entryBytes entry).length ≤ (entries.flatMap entryBytes).length :=
    (List.sublist_flatten_of_mem (List.mem_map_of_mem hentry)).length_le
  simp only [entryBytes, List.length_append] at hsub
  simp only [List.flatMap_def] at hsub ⊢
  omega

/-- What is written announces lengths that its own length bounds. -/
theorem Written.lengths_lt (h : Written entries rest state) (hstate : state.length < 2 ^ w) :
    ∀ entry ∈ entries, entry.1.length < 2 ^ w ∧ entry.2.length < 2 ^ w := by
  intro entry hentry
  obtain ⟨hkey, hvalue⟩ := lengths_le_flatMap hentry
  have hlength := congrArg List.length h.written
  simp only [List.length_append] at hlength
  omega

theorem Written.lists (h : Written entries rest state) (hstate : state.length < 2 ^ w) :
    Lists w (entries.map Record.ofEntry) rest state where
  count := by rw [List.length_map]; exact h.count
  read r hr := by
    obtain ⟨entry, hentry, rfl⟩ := List.mem_map.1 hr
    obtain ⟨hkey, hvalue⟩ := h.lengths_lt hstate entry hentry
    obtain ⟨hkey64, hvalue64⟩ := h.lengths entry hentry
    exact ⟨hkey64, hvalue64, (Nat.mod_eq_of_lt hkey).symm, (Nat.mod_eq_of_lt hvalue).symm⟩
  written := by rw [flatMap_ofEntry, List.length_map]; exact h.written

/-- A record whose lengths fit is the entry it holds. -/
theorem Record.Read.ofEntry_entry {r : Record} (h : r.Read w) (hkey : r.keyLen < 2 ^ w)
    (hvalue : r.valueLen < 2 ^ w) : Record.ofEntry r.entry = r := by
  have hkeyLen : r.key.length = r.keyLen := h.key.trans (Nat.mod_eq_of_lt hkey)
  have hvalueLen : r.value.length = r.valueLen := h.value.trans (Nat.mod_eq_of_lt hvalue)
  rw [ofEntry, entry, hkeyLen, hvalueLen]

theorem Lists.written_entries (h : Lists w records rest state)
    (hfit : ∀ r ∈ records, r.keyLen < 2 ^ w ∧ r.valueLen < 2 ^ w) :
    Written (records.map Record.entry) rest state where
  count := by rw [List.length_map]; exact h.count
  lengths entry hentry := by
    obtain ⟨r, hr, rfl⟩ := List.mem_map.1 hentry
    have hkey : r.key.length ≤ r.keyLen := (h.read r hr).key ▸ Nat.mod_le ..
    have hvalue : r.value.length ≤ r.valueLen := (h.read r hr).value ▸ Nat.mod_le ..
    exact ⟨Nat.lt_of_le_of_lt hkey (h.read r hr).keyLen,
      Nat.lt_of_le_of_lt hvalue (h.read r hr).valueLen⟩
  written := by
    have hmap : (records.map Record.entry).map Record.ofEntry = records := by
      rw [List.map_map]
      exact (List.map_congr_left fun r hr =>
        (h.read r hr).ofEntry_entry (hfit r hr).1 (hfit r hr).2).trans (List.map_id records)
    rw [← flatMap_ofEntry, hmap, List.length_map]
    exact h.written

theorem lookup_foldl_insertRecord {records : List Record} (hnodup : (records.map (·.key)).Nodup)
    (values : Values) (key : Bytes) : (records.foldl insertRecord values).lookup key =
      ((records.map Record.entry).dlookup key).or (values.lookup key) := by
  induction records generalizing values with
  | nil => rfl
  | cons r records ih =>
    obtain ⟨hfresh, hnodup⟩ := List.nodup_cons.1 hnodup
    rw [List.foldl_cons, ih hnodup, List.map_cons]
    by_cases hkey : key = r.key
    · subst hkey
      have hnone : (records.map Record.entry).dlookup r.key = none := by
        rw [List.dlookup_eq_none, List.keys, List.map_map]
        exact hfresh
      rw [hnone, insertRecord, Finmap.lookup_insert, Record.entry, List.dlookup_cons_eq]
      rfl
    · rw [insertRecord, Finmap.lookup_insert_of_ne _ hkey, List.dlookup_cons_ne _ _ hkey]

/-- Entries inserted one after the other make up their map. -/
theorem foldl_insertRecord_eq {records : List Record} {values : Walk}
    (h : records.map Record.entry = values.entries) :
    records.foldl insertRecord ∅ = values.toFinmap := by
  have hnodup : (records.map (·.key)).Nodup := by
    have hkeys := values.nodupKeys
    rw [← h, List.NodupKeys, List.keys, List.map_map] at hkeys
    exact hkeys
  refine Finmap.ext_lookup fun key => ?_
  rw [lookup_foldl_insertRecord hnodup, Finmap.lookup_toFinmap, AList.lookup, h,
    Finmap.lookup_empty, Option.or_none]

/-- What fits in a slice of the target announces lengths of slices of the target. -/
theorem written_exportState {values : Walk} (hw : w ≤ 64)
    (h : (exportState values).length < 2 ^ w) :
    Written values.entries [] (exportState values) := by
  have hlarge : 2 ^ w ≤ 2 ^ 64 := Nat.pow_le_pow_right Nat.two_pos hw
  have hcount := length_le_flatMap values.entries
  rw [exportState, List.length_append, length_toBeBytes] at h
  refine ⟨by omega, fun entry hentry => ?_, by rw [exportState, List.append_nil]⟩
  obtain ⟨hkey, hvalue⟩ := lengths_le_flatMap hentry
  omega

theorem importState_exportState {values : Walk} (hw : w ≤ 64)
    (h : (exportState values).length < 2 ^ w) :
    importState w (exportState values) = .ok values.toFinmap :=
  importState_eq_ok_iff.2 ⟨_, _, (written_exportState hw h).lists h,
    (foldl_insertRecord_eq (map_entry_ofEntry values.entries)).symm⟩

/-- An export reads back as its map, on both widths. What is read from other bytes announced its
lengths, unless one does not fit in a `usize`, and was exported, unless a key comes twice or
something comes after the last entry as well. -/
theorem importState_canonical (w : Nat) (hw : w ≤ 64) :
    (∀ values : Walk, (exportState values).length < 2 ^ w →
      importState w (exportState values) = .ok values.toFinmap) ∧
    ∀ state : Bytes, state.length < 2 ^ w →
      ((∀ values, importState w state = .ok values → Consistent state) ↔ Fitting w state) ∧
      ((∀ values, importState w state = .ok values →
          ∃ walk : Walk, walk.toFinmap = values ∧ exportState walk = state) ↔
        Fitting w state ∧ Exact w state) := by
  refine ⟨fun values h => importState_exportState hw h, fun state hstate => ⟨⟨?_, ?_⟩, ⟨?_, ?_⟩⟩⟩
  · intro h records rest hlists
    obtain ⟨entries, rest', hwritten⟩ := h _ (importState_eq_ok_iff.2 ⟨_, _, hlists, rfl⟩)
    obtain ⟨rfl, rfl⟩ := hlists.unique (hwritten.lists hstate)
    exact fitting_ofEntry (hwritten.lengths_lt hstate)
  · intro hfit values h
    obtain ⟨records, rest, hlists, _⟩ := importState_eq_ok_iff.1 h
    exact ⟨_, rest, hlists.written_entries (hfit records rest hlists)⟩
  · intro h
    have hunique : ∀ records rest, Lists w records rest state → rest = [] ∧
        ∃ walk : Walk, Written walk.entries [] state ∧
          records = walk.entries.map Record.ofEntry := by
      intro records rest hlists
      obtain ⟨walk, _, rfl⟩ := h _ (importState_eq_ok_iff.2 ⟨_, _, hlists, rfl⟩)
      have hwritten := written_exportState hw hstate
      obtain ⟨hrecords, hrest⟩ := hlists.unique (hwritten.lists hstate)
      exact ⟨hrest, walk, hwritten, hrecords⟩
    refine ⟨fun records rest hlists => ?_, fun records rest hlists => ?_⟩
    · obtain ⟨_, walk, hwritten, rfl⟩ := hunique records rest hlists
      exact fitting_ofEntry (hwritten.lengths_lt hstate)
    · obtain ⟨hrest, walk, _, rfl⟩ := hunique records rest hlists
      refine ⟨hrest, ?_⟩
      rw [List.map_map]
      exact walk.nodupKeys
  · rintro ⟨hfit, hexact⟩ values h
    obtain ⟨records, rest, hlists, rfl⟩ := importState_eq_ok_iff.1 h
    obtain ⟨rfl, hnodup⟩ := hexact records rest hlists
    have hkeys : (records.map Record.entry).NodupKeys := by
      rw [List.NodupKeys, List.keys, List.map_map]
      exact hnodup
    refine ⟨⟨records.map Record.entry, hkeys⟩, (foldl_insertRecord_eq rfl).symm, ?_⟩
    have hwritten := (hlists.written_entries (hfit records [] hlists)).written
    rw [List.append_nil] at hwritten
    exact hwritten.symm

/-- Every `u64` is a `usize` of 64 bits. -/
theorem fitting_64 (state : Bytes) : Fitting 64 state := fun _ _ hlists r hr =>
  ⟨(hlists.read r hr).keyLen, (hlists.read r hr).valueLen⟩

def oneValue : Walk := ⟨[⟨[1], [2, 3]⟩], List.nodupKeys_singleton _⟩

theorem importState_canonical_oneValue :
    importState 32 (exportState oneValue) = .ok oneValue.toFinmap :=
  (importState_canonical 32 (by decide)).1 oneValue (by decide)

/-- One entry, whose key announces 2^32 + 1 bytes and is one byte long. -/
def wrappedLength : Bytes := toBeBytes 8 1 ++ (toBeBytes 8 (2 ^ 32 + 1) ++ (toBeBytes 8 0 ++ [7]))

/-- No entry, and a byte after them. -/
def trailingByte : Bytes := toBeBytes 8 0 ++ [1]

/-- The first is read on 32 bits, the second on either width. -/
theorem importState_not_strict :
    (¬∀ w ∈ [32, 64], ∀ state : Bytes, state.length < 2 ^ w → ∀ values,
      importState w state = .ok values → Consistent state) ∧
    ¬∀ w ∈ [32, 64], ∀ state : Bytes, state.length < 2 ^ w → ∀ values,
      importState w state = .ok values →
        ∃ walk : Walk, walk.toFinmap = values ∧ exportState walk = state := by
  have hwrapped : Lists 32 [⟨2 ^ 32 + 1, 0, [7], []⟩] [] wrappedLength :=
    ⟨by decide, fun r hr => by
      cases List.mem_singleton.1 hr
      exact ⟨by decide, by decide, by decide, by decide⟩, rfl⟩
  have htrailing : Lists 64 [] [1] trailingByte :=
    ⟨by decide, fun _ hr => (List.not_mem_nil hr).elim, rfl⟩
  refine ⟨fun h => ?_, fun h => ?_⟩
  · obtain ⟨entries, rest, hwritten⟩ := h 32 List.mem_cons_self wrappedLength (by decide) _
      (importState_eq_ok_iff.2 ⟨_, _, hwrapped, rfl⟩)
    obtain ⟨hrecords, -⟩ := hwrapped.unique (hwritten.lists (by decide))
    cases entries with
    | nil => cases hrecords
    | cons entry entries =>
      obtain ⟨hrecord, -⟩ := List.cons.inj hrecords
      have hkey : [7] = entry.1 := congrArg Record.key hrecord
      have hlength : 2 ^ 32 + 1 = entry.1.length := congrArg Record.keyLen hrecord
      rw [← hkey] at hlength
      cases hlength
  · obtain ⟨walk, -, hwalk⟩ := h 64 (List.mem_cons_of_mem _ List.mem_cons_self) trailingByte
      (by decide) _ (importState_eq_ok_iff.2 ⟨_, _, htrailing, rfl⟩)
    have hwritten : Written walk.entries [] (exportState walk) :=
      written_exportState (Nat.le_refl 64) (by rw [hwalk]; decide)
    rw [hwalk] at hwritten
    cases (htrailing.unique (hwritten.lists (by decide))).2

/-! ## The identity around it

`Identity::export_state` and `Identity::restore`, whose reader refuses a length that is not a
`usize`. The signature key pair is what OpenMLS reads in the restored storage. -/

structure Identity (Signer : Type u) where
  name : String
  publicKey : Bytes
  signer : Signer
  values : Values

def lengthPrefix (part : Bytes) : Bytes := toBeBytes 8 part.length ++ part

def exportIdentity (name : String) (publicKey : Bytes) (values : Walk) : Bytes :=
  lengthPrefix (asBytes name) ++ (lengthPrefix publicKey ++ lengthPrefix (exportState values))

def Reader.lengthPrefixed (w : Nat) (rest : Bytes) : Except CryptoError (Bytes × Bytes) := do
  let (len, rest) ← Reader.u64 rest
  if len < 2 ^ w then Reader.bytes rest len else .error (.storage "length out of range")

def restore (w : Nat) (read : Values → Bytes → Option Signer) (state : Bytes) :
    Except CryptoError (Identity Signer) := do
  let (name, rest) ← Reader.lengthPrefixed w state
  match fromUtf8 name with
  | none => .error (.storage "unreadable identity name")
  | some name =>
    let (publicKey, rest) ← Reader.lengthPrefixed w rest
    let (storage, _) ← Reader.lengthPrefixed w rest
    let values ← importState w storage
    match read values publicKey with
    | none => .error (.storage "signature key missing from restored state")
    | some signer => .ok ⟨name, publicKey, signer, values⟩

theorem Reader.lengthPrefixed_append {part : Bytes} (hw : w ≤ 64) (h : part.length < 2 ^ w)
    (rest : Bytes) : Reader.lengthPrefixed w (lengthPrefix part ++ rest) = .ok (part, rest) := by
  have hlarge : 2 ^ w ≤ 2 ^ 64 := Nat.pow_le_pow_right Nat.two_pos hw
  have hlen : Reader.u64 (toBeBytes 8 part.length ++ (part ++ rest)) =
      .ok (part.length, part ++ rest) :=
    Reader.u64_eq_ok_iff.2 ⟨by omega, rfl⟩
  rw [Reader.lengthPrefixed, lengthPrefix, List.append_assoc, hlen]
  change (if part.length < 2 ^ w then Reader.bytes (part ++ rest) part.length else _) = _
  rw [if_pos h]
  exact Reader.bytes_eq_ok_iff.2 ⟨rfl, rfl⟩

/-- An identity comes back with its storage, where its key pair is in it. -/
theorem restore_exportIdentity {name : String} {publicKey : Bytes} {values : Walk}
    {read : Values → Bytes → Option Signer} (hw : w ≤ 64)
    (hstate : (exportIdentity name publicKey values).length < 2 ^ w)
    (hread : read values.toFinmap publicKey = some signer) :
    restore w read (exportIdentity name publicKey values) =
      .ok ⟨name, publicKey, signer, values.toFinmap⟩ := by
  simp only [exportIdentity, lengthPrefix, List.length_append, length_toBeBytes] at hstate
  have hname := Reader.lengthPrefixed_append hw (show (asBytes name).length < 2 ^ w by omega)
    (lengthPrefix publicKey ++ lengthPrefix (exportState values))
  have hkey := Reader.lengthPrefixed_append hw (show publicKey.length < 2 ^ w by omega)
    (lengthPrefix (exportState values))
  have hstorage := Reader.lengthPrefixed_append hw
    (show (exportState values).length < 2 ^ w by omega) []
  have himport : importState w (exportState values) = .ok values.toFinmap :=
    importState_exportState hw (by omega)
  rw [List.append_nil] at hstorage
  simp only [restore, exportIdentity, hname, fromUtf8_asBytes, hkey, hstorage, himport, hread, bind,
    Except.bind]

end Whispee.Group
