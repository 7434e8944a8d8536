import Mathlib.Data.List.Nodup

/-!
# Dictionaries

A JavaScript object used as a dictionary: its own properties in the order they were first set, no
name twice. A loop over the entries of one that, in each turn, touches what belongs to the entry's
name alone is read off name by name (`view_foldl`).
-/

@[ext] structure Dictionary (α : Type u) where
  entries : List (String × α)
  nodup : (entries.map Prod.fst).Nodup
  deriving DecidableEq

namespace Dictionary

variable {α : Type u} {β : Type v} {σ : Type w}

def empty : Dictionary α := ⟨[], List.nodup_nil⟩

instance : EmptyCollection (Dictionary α) := ⟨empty⟩

/-- The property `key`, `none` for `undefined`. -/
def get? (d : Dictionary α) (key : String) : Option α := d.entries.lookup key

/-- `key in d`. -/
def has (d : Dictionary α) (key : String) : Bool := (d.get? key).isSome

/-- `Object.keys`. -/
def keys (d : Dictionary α) : List String := d.entries.map Prod.fst

def setEntry (key : String) (value : α) : List (String × α) → List (String × α)
  | [] => [(key, value)]
  | (k, v) :: entries =>
    if k = key then (k, value) :: entries else (k, v) :: setEntry key value entries

theorem mem_map_fst_setEntry {entries : List (String × α)} :
    k ∈ (setEntry key value entries).map Prod.fst ↔ k = key ∨ k ∈ entries.map Prod.fst := by
  induction entries with
  | nil => simp [setEntry]
  | cons entry entries ih =>
    rw [setEntry]
    split
    next h => simp [h]
    · simp only [List.map_cons, List.mem_cons, ih]
      exact or_left_comm

theorem nodup_setEntry {entries : List (String × α)} (h : (entries.map Prod.fst).Nodup) :
    ((setEntry key value entries).map Prod.fst).Nodup := by
  induction entries with
  | nil => exact List.nodup_singleton _
  | cons entry entries ih =>
    obtain ⟨hnot, h⟩ := List.nodup_cons.1 h
    rw [setEntry]
    split
    · exact List.nodup_cons.2 ⟨hnot, h⟩
    next hne =>
      refine List.nodup_cons.2 ⟨fun hmem => ?_, ih h⟩
      exact (mem_map_fst_setEntry.1 hmem).elim hne hnot

/-- `d[key] = value`. -/
def set (d : Dictionary α) (key : String) (value : α) : Dictionary α :=
  ⟨setEntry key value d.entries, nodup_setEntry d.nodup⟩

/-- `delete d[key]`. -/
def erase (d : Dictionary α) (key : String) : Dictionary α :=
  ⟨d.entries.filter (·.1 ≠ key), d.nodup.sublist (List.filter_sublist.map _)⟩

/-- The same properties, each value replaced. -/
def map (f : α → β) (d : Dictionary α) : Dictionary β :=
  ⟨d.entries.map fun entry => (entry.1, f entry.2), by
    have names : (d.entries.map fun entry => (entry.1, f entry.2)).map Prod.fst = d.keys :=
      List.map_map
    exact names ▸ d.nodup⟩

theorem map_fst_filterMap (f : α → Option β) (entries : List (String × α)) :
    ((entries.filterMap fun entry => (f entry.2).map (entry.1, ·)).map Prod.fst).Sublist
      (entries.map Prod.fst) := by
  induction entries with
  | nil => exact .slnil
  | cons entry entries ih =>
    rw [List.filterMap_cons]
    cases f entry.2 with
    | none => exact .cons _ ih
    | some value => exact .cons_cons _ ih

/-- The properties whose value becomes another one, in their order. -/
def filterMap (f : α → Option β) (d : Dictionary α) : Dictionary β :=
  ⟨d.entries.filterMap fun entry => (f entry.2).map (entry.1, ·),
    d.nodup.sublist (map_fst_filterMap f d.entries)⟩

/-- `Object.fromEntries`. -/
def ofEntries (entries : List (String × α)) : Dictionary α :=
  entries.foldl (fun d entry => d.set entry.1 entry.2) ∅

@[simp] theorem get?_empty : (∅ : Dictionary α).get? key = none := rfl

theorem get?_set_self (d : Dictionary α) (key : String) (value : α) :
    (d.set key value).get? key = some value := by
  obtain ⟨entries, _⟩ := d
  change (setEntry key value entries).lookup key = some value
  induction entries with
  | nil => exact List.lookup_cons_self
  | cons entry entries ih =>
    rw [setEntry]
    split
    next h => rw [h, List.lookup_cons_self]
    next h =>
      rw [List.lookup_cons, beq_false_of_ne (Ne.symm h)]
      exact ih (List.nodup_cons.1 ‹_›).2

theorem get?_set_of_ne (d : Dictionary α) (value : α) (h : k ≠ key) :
    (d.set key value).get? k = d.get? k := by
  obtain ⟨entries, _⟩ := d
  change (setEntry key value entries).lookup k = entries.lookup k
  induction entries with
  | nil => rw [setEntry, List.lookup_cons, beq_false_of_ne h]
  | cons entry entries ih =>
    rw [setEntry]
    split
    next heq =>
      rw [List.lookup_cons, List.lookup_cons, heq, beq_false_of_ne h]
    · rw [List.lookup_cons, List.lookup_cons, ih (List.nodup_cons.1 ‹_›).2]

theorem get?_set (d : Dictionary α) (key : String) (value : α) (k : String) :
    (d.set key value).get? k = if k = key then some value else d.get? k := by
  split
  next h => rw [h, get?_set_self]
  next h => exact get?_set_of_ne d value h

theorem get?_erase (d : Dictionary α) (key k : String) :
    (d.erase key).get? k = if k = key then none else d.get? k := by
  obtain ⟨entries, _⟩ := d
  change (entries.filter (·.1 ≠ key)).lookup k = if k = key then none else entries.lookup k
  induction entries with
  | nil => exact (ite_self _).symm
  | cons entry entries ih =>
    have ih := ih (List.nodup_cons.1 ‹_›).2
    rw [List.filter_cons, List.lookup_cons]
    rcases eq_or_ne entry.1 key with heq | hne
    · rw [if_neg (by simpa using heq), ih]
      split
      · rfl
      next h => rw [heq, beq_false_of_ne h]
    · rw [if_pos (by simpa using hne), List.lookup_cons]
      split
      next heq =>
        rw [if_neg (fun h => hne ((beq_iff_eq.1 heq).symm.trans h))]
      · exact ih

theorem get?_map (f : α → β) (d : Dictionary α) (key : String) :
    (d.map f).get? key = (d.get? key).map f := by
  obtain ⟨entries, nodup⟩ := d
  change (entries.map _).lookup key = (entries.lookup key).map f
  clear nodup
  induction entries with
  | nil => rfl
  | cons entry entries ih =>
    rw [List.map_cons, List.lookup_cons, List.lookup_cons, ih]
    cases key == entry.1 <;> rfl

/-- Deleting a property that is not there changes nothing. -/
theorem erase_of_not_has {d : Dictionary α} (h : d.has key = false) : d.erase key = d := by
  have absent := List.lookup_eq_none_iff.1 (Option.isSome_eq_false_iff.1 h |> Option.isNone_iff_eq_none.1)
  refine Dictionary.ext (List.filter_eq_self.2 fun entry hentry => ?_)
  exact decide_eq_true fun heq => bne_iff_ne.1 (absent entry hentry) heq.symm

theorem mem_keys_iff {d : Dictionary α} : key ∈ d.keys ↔ d.has key = true := by
  rw [keys, has, get?, List.lookup_isSome_iff, List.mem_map]
  exact exists_congr fun entry => and_congr_right' (by rw [beq_iff_eq, eq_comm])

/-- A loop over the entries, where the turn `t` of an entry changes what `v` sees of its own name by
`g` and what it sees of other names not at all. -/
theorem view_foldl {v : σ → String → γ} {t : σ → String × α → σ} {g : String → γ → α → γ}
    (frame : ∀ s entry key, key ≠ entry.1 → v (t s entry) key = v s key)
    (own : ∀ s entry, v (t s entry) entry.1 = g entry.1 (v s entry.1) entry.2)
    (d : Dictionary α) (s : σ) (key : String) :
    v (d.entries.foldl t s) key = (d.get? key).elim (v s key) (g key (v s key)) := by
  obtain ⟨entries, nodup⟩ := d
  change _ = (entries.lookup key).elim _ _
  induction entries generalizing s with
  | nil => rfl
  | cons entry entries ih =>
    obtain ⟨hnot, nodup⟩ := List.nodup_cons.1 nodup
    rw [List.foldl_cons, ih _ nodup, List.lookup_cons]
    rcases eq_or_ne key entry.1 with rfl | hne
    · have absent : entries.lookup entry.1 = none :=
        List.lookup_eq_none_iff.2 fun other hother =>
          bne_iff_ne.2 fun heq => hnot (heq ▸ List.mem_map_of_mem hother)
      rw [absent, own, beq_self_eq_true]
      rfl
    · rw [frame s entry key hne, beq_false_of_ne hne]

theorem get?_ofEntries_units {names : List String} {value : α} :
    (ofEntries (names.map fun name => (name, value))).get? key =
      if key ∈ names then some value else none := by
  have go : ∀ (d : Dictionary α), ((names.map fun name => (name, value)).foldl
      (fun d entry => d.set entry.1 entry.2) d).get? key =
        if key ∈ names then some value else d.get? key := by
    induction names with
    | nil => exact fun d => (if_neg List.not_mem_nil).symm
    | cons name names ih =>
      intro d
      rw [List.map_cons, List.foldl_cons, ih, get?_set]
      simp only [List.mem_cons]
      split
      next h => rw [if_pos (.inr h)]
      next h => exact if_congr ⟨Or.inl, fun h' => h'.resolve_right h⟩ rfl rfl
  exact go ∅

theorem get?_filterMap (f : α → Option β) (d : Dictionary α) (key : String) :
    (d.filterMap f).get? key = (d.get? key).bind f := by
  obtain ⟨entries, nodup⟩ := d
  change (entries.filterMap _).lookup key = (entries.lookup key).bind f
  induction entries with
  | nil => rfl
  | cons entry entries ih =>
    obtain ⟨hnot, nodup⟩ := List.nodup_cons.1 nodup
    have ih := ih nodup
    rw [List.filterMap_cons, List.lookup_cons]
    rcases eq_or_ne key entry.1 with rfl | hne
    · have absent : entries.lookup entry.1 = none :=
        List.lookup_eq_none_iff.2 fun other hother =>
          bne_iff_ne.2 fun heq => hnot (heq ▸ List.mem_map_of_mem hother)
      rw [absent] at ih
      rw [beq_self_eq_true]
      cases h : f entry.2 with
      | none => exact ih.trans h.symm
      | some value => exact List.lookup_cons_self.trans h.symm
    · rw [beq_false_of_ne hne]
      cases f entry.2 with
      | none => exact ih
      | some value =>
        rw [Option.map_some, List.lookup_cons, beq_false_of_ne hne]
        exact ih

theorem setEntry_of_notMem {entries : List (String × α)} (h : key ∉ entries.map Prod.fst) :
    setEntry key value entries = entries ++ [(key, value)] := by
  induction entries with
  | nil => rfl
  | cons entry entries ih =>
    rw [List.map_cons, List.mem_cons, not_or] at h
    rw [setEntry, if_neg (Ne.symm h.1), ih h.2, List.cons_append]

/-- Entries that name nothing twice are those of what is made of them. -/
theorem entries_ofEntries {entries : List (String × α)} (h : (entries.map Prod.fst).Nodup) :
    (ofEntries entries).entries = entries := by
  have go : ∀ (d : Dictionary α), ((d.entries ++ entries).map Prod.fst).Nodup →
      (entries.foldl (fun d entry => d.set entry.1 entry.2) d).entries = d.entries ++ entries := by
    clear h
    induction entries with
    | nil => exact fun d _ => (List.append_nil _).symm
    | cons entry entries ih =>
      intro d hd
      have hset : (d.set entry.1 entry.2).entries = d.entries ++ [entry] := by
        refine setEntry_of_notMem fun hmem => ?_
        rw [List.map_append, List.nodup_append] at hd
        exact hd.2.2 _ hmem _ (.head _) rfl
      have happend : (d.set entry.1 entry.2).entries ++ entries = d.entries ++ entry :: entries := by
        rw [hset, List.append_assoc, List.singleton_append]
      rw [List.foldl_cons, ih _ (happend ▸ hd), happend]
  exact go ∅ h

theorem ofEntries_entries (d : Dictionary α) : ofEntries d.entries = d :=
  Dictionary.ext (entries_ofEntries d.nodup)

theorem get?_eq_some_iff {d : Dictionary α} : d.get? key = some value ↔ (key, value) ∈ d.entries := by
  obtain ⟨entries, nodup⟩ := d
  change entries.lookup key = some value ↔ _
  induction entries with
  | nil => simp
  | cons entry entries ih =>
    obtain ⟨hnot, nodup⟩ := List.nodup_cons.1 nodup
    rw [List.lookup_cons, List.mem_cons]
    rcases eq_or_ne key entry.1 with rfl | hne
    · have absent : (entry.1, value) ∉ entries := fun h => hnot (List.mem_map.2 ⟨_, h, rfl⟩)
      rw [beq_self_eq_true]
      change some entry.2 = some value ↔ _
      rw [Option.some.injEq, or_iff_left absent, Prod.ext_iff]
      exact ⟨fun h => ⟨rfl, h.symm⟩, fun h => h.2.symm⟩
    · rw [beq_false_of_ne hne, or_iff_right (fun h => hne (congrArg Prod.fst h))]
      exact ih nodup

theorem lookup_forall₂ {R : α → β → Prop} {entries : List (String × α)}
    {entries' : List (String × β)}
    (h : List.Forall₂ (fun e e' => e'.1 = e.1 ∧ R e.2 e'.2) entries entries') (key : String) :
    Option.Rel R (entries.lookup key) (entries'.lookup key) := by
  induction h with
  | nil => exact .none
  | cons hentry _ ih =>
    rw [List.lookup_cons, List.lookup_cons, hentry.1]
    split
    · exact .some hentry.2
    · exact ih

theorem map_fst_of_forall₂ {R : α → β → Prop} {entries : List (String × α)}
    {entries' : List (String × β)}
    (h : List.Forall₂ (fun e e' => e'.1 = e.1 ∧ R e.2 e'.2) entries entries') :
    entries'.map Prod.fst = entries.map Prod.fst := by
  induction h with
  | nil => rfl
  | cons hentry _ ih => rw [List.map_cons, List.map_cons, hentry.1, ih]

theorem lookup_map_key (f : String → α) (keys : List String) (key : String) :
    (keys.map fun key => (key, f key)).lookup key = if key ∈ keys then some (f key) else none := by
  induction keys with
  | nil => rfl
  | cons k keys ih =>
    rw [List.map_cons, List.lookup_cons]
    rcases eq_or_ne key k with rfl | hne
    · rw [beq_self_eq_true, if_pos (.head _)]
    · rw [beq_false_of_ne hne, ih]
      exact if_congr (by simp [hne]) rfl rfl

end Dictionary
