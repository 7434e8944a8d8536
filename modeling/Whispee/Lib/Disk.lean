import Mathlib.Data.List.Basic
import Mathlib.Logic.Function.Basic

/-!
# A directory that may lose power

The files of one directory. What a process does to them is seen at once, and lasts once it is
synced. When the power goes, of the changes made to the directory since it was last synced any may
be lost, and nothing is known of what a file holds that was written since it was last synced.

`Careful` is what a process owes the files it cares for: they only ever come to be by renaming a file
that is synced. Then none of them is lost nor torn, whenever the power goes.
-/

namespace Disk

/-- What names come to stand for, all at once. -/
abbrev Change (Name : Type u) := List (Name × Option Nat)

/-- The names after a change. -/
def Change.apply {Name : Type u} [DecidableEq Name] (names : Name → Option Nat) (change : Change Name) :
    Name → Option Nat :=
  change.foldl (fun names (name, inode) => Function.update names name inode) names

structure Dir (Name : Type u) (Byte : Type v) where
  /-- The file of each name, as a process sees it. -/
  names : Name → Option Nat
  /-- As the directory was last synced. -/
  durable : Name → Option Nat
  /-- The changes since. -/
  pending : List (Change Name)
  content : Nat → List Byte
  /-- The files not written since they were last synced. -/
  synced : Nat → Bool
  next : Nat

variable {Name : Type u} {Byte : Type v} [DecidableEq Name]

namespace Dir

def read (d : Dir Name Byte) (name : Name) : Option (List Byte) := (d.names name).map d.content

/-- The changes a mask keeps. -/
def kept (pending : List α) (mask : List Bool) : List α :=
  ((pending.zip mask).filter (·.2)).map (·.1)

def change (d : Dir Name Byte) (change : Change Name) : Dir Name Byte :=
  { d with names := change.apply d.names, pending := d.pending ++ [change] }

/-- A file of this name, empty: the one there is, or a new one. -/
def create (d : Dir Name Byte) (name : Name) : Dir Name Byte :=
  match d.names name with
  | some inode =>
    { d with
      content := Function.update d.content inode []
      synced := Function.update d.synced inode false }
  | none =>
    let d := d.change [(name, some d.next)]
    { d with
      content := Function.update d.content d.next []
      synced := Function.update d.synced d.next false
      next := d.next + 1 }

def write (d : Dir Name Byte) (name : Name) (content : List Byte) : Dir Name Byte :=
  match d.names name with
  | some inode =>
    { d with
      content := Function.update d.content inode content
      synced := Function.update d.synced inode false }
  | none => d

def sync (d : Dir Name Byte) (name : Name) : Dir Name Byte :=
  match d.names name with
  | some inode => { d with synced := Function.update d.synced inode true }
  | none => d

def rename (d : Dir Name Byte) (source target : Name) : Dir Name Byte :=
  match d.names source with
  | some inode => d.change [(source, none), (target, some inode)]
  | none => d

def remove (d : Dir Name Byte) (name : Name) : Dir Name Byte := d.change [(name, none)]

def syncDir (d : Dir Name Byte) : Dir Name Byte := { d with durable := d.names, pending := [] }

/-- The names as the power goes. -/
def survivors (d : Dir Name Byte) (mask : List Bool) : Name → Option Nat :=
  (kept d.pending mask).foldl Change.apply d.durable

/-- The power goes, and comes back. -/
def crash (d : Dir Name Byte) (mask : List Bool) (garbage : Nat → List Byte) : Dir Name Byte where
  names := d.survivors mask
  durable := d.survivors mask
  pending := []
  content inode := if d.synced inode then d.content inode else garbage inode
  synced _ := true
  next := d.next

def empty : Dir Name Byte := ⟨fun _ => none, fun _ => none, [], fun _ => [], fun _ => true, 0⟩

/-! ## What a process sees -/

theorem names_create (d : Dir Name Byte) (name : Name) :
    ∃ inode, (d.create name).names name = some inode := by
  unfold create
  cases hinode : d.names name with
  | some inode => exact ⟨inode, hinode⟩
  | none => exact ⟨d.next, Function.update_self ..⟩

omit [DecidableEq Name] in
theorem content_write {d : Dir Name Byte} (h : d.names name = some inode) (content : List Byte) :
    (d.write name content).names name = some inode ∧
      (d.write name content).content inode = content := by
  rw [write, h]
  exact ⟨h, Function.update_self ..⟩

omit [DecidableEq Name] in
theorem synced_sync {d : Dir Name Byte} (h : d.names name = some inode) :
    (d.sync name).names name = some inode ∧ (d.sync name).content inode = d.content inode ∧
      (d.sync name).synced inode := by
  rw [sync, h]
  exact ⟨h, rfl, Function.update_self ..⟩

omit [DecidableEq Name] in
theorem read_sync (d : Dir Name Byte) (name name' : Name) : (d.sync name).read name' = d.read name' := by
  unfold sync
  cases d.names name with
  | some inode => rfl
  | none => rfl

theorem read_rename {d : Dir Name Byte} (h : d.names source = some inode) (name : Name) :
    (d.rename source target).read name =
      if name = target then some (d.content inode)
      else if name = source then none else d.read name := by
  rw [rename, h]
  change (Function.update (Function.update d.names source none) target (some inode) name).map _ = _
  by_cases htarget : name = target
  · rw [if_pos htarget, htarget, Function.update_self]
    rfl
  · rw [if_neg htarget, Function.update_of_ne htarget]
    by_cases hsource : name = source
    · rw [if_pos hsource, hsource, Function.update_self]
      rfl
    · rw [if_neg hsource, Function.update_of_ne hsource]
      rfl

theorem read_remove (d : Dir Name Byte) (name name' : Name) :
    (d.remove name).read name' = if name' = name then none else d.read name' := by
  change (Function.update d.names name none name').map _ = _
  by_cases h : name' = name
  · rw [if_pos h, h, Function.update_self]
    rfl
  · rw [if_neg h, Function.update_of_ne h]
    rfl

/-! ## What a name may stand for -/

/-- On disk, or after one of the changes, the name is this file. -/
def Assigned (d : Dir Name Byte) (name : Name) (value : Option Nat) : Prop :=
  d.durable name = value ∨ ∃ change ∈ d.pending, (name, value) ∈ change

theorem apply_cases (names : Name → Option Nat) (change : Change Name) (name : Name) :
    change.apply names name = names name ∨ (name, change.apply names name) ∈ change := by
  induction change generalizing names with
  | nil => exact .inl rfl
  | cons assignment change ih =>
    obtain ⟨name', value⟩ := assignment
    rcases ih (Function.update names name' value) with h | h
    · by_cases hname : name = name'
      · subst hname
        rw [Function.update_self] at h
        have hvalue : Change.apply names ((name, value) :: change) name = value := h
        rw [hvalue]
        exact .inr (List.mem_cons_self ..)
      · rw [Function.update_of_ne hname] at h
        exact .inl h
    · exact .inr (List.mem_cons_of_mem _ h)

theorem foldl_cases (names : Name → Option Nat) (changes : List (Change Name)) (name : Name) :
    changes.foldl Change.apply names name = names name ∨
      ∃ change ∈ changes, (name, changes.foldl Change.apply names name) ∈ change := by
  induction changes generalizing names with
  | nil => exact .inl rfl
  | cons change changes ih =>
    rcases ih (change.apply names) with h | ⟨change', hmem, h⟩
    · rcases apply_cases names change name with h' | h'
      · exact .inl (h.trans h')
      · exact .inr ⟨change, List.mem_cons_self .., h.symm ▸ h'⟩
    · exact .inr ⟨change', List.mem_cons_of_mem _ hmem, h⟩

theorem assigned_of_sublist {d : Dir Name Byte} {changes : List (Change Name)}
    (h : changes.Sublist d.pending) (name : Name) :
    d.Assigned name (changes.foldl Change.apply d.durable name) := by
  rcases foldl_cases d.durable changes name with h' | ⟨change, hmem, h'⟩
  · exact .inl h'.symm
  · exact .inr ⟨change, h.subset hmem, h'⟩

theorem kept_sublist (pending : List α) (mask : List Bool) : (kept pending mask).Sublist pending := by
  induction pending generalizing mask with
  | nil => simp [kept]
  | cons a pending ih =>
    cases mask with
    | nil => simp [kept]
    | cons keep mask =>
      cases keep with
      | true => exact (ih mask).cons_cons a
      | false => exact (ih mask).cons a

theorem assigned_change {d : Dir Name Byte} {change : Change Name} :
    (d.change change).Assigned name value ↔ d.Assigned name value ∨ (name, value) ∈ change := by
  simp only [Assigned, Dir.change, List.mem_append, List.mem_singleton]
  constructor
  · rintro (h | ⟨change', h | rfl, h'⟩)
    · exact .inl (.inl h)
    · exact .inl (.inr ⟨change', h, h'⟩)
    · exact .inr h'
  · rintro ((h | ⟨change', h, h'⟩) | h)
    · exact .inl h
    · exact .inr ⟨change', .inl h, h'⟩
    · exact .inr ⟨change, .inr rfl, h⟩

theorem sublist_concat {changes pending : List α} {change : α}
    (h : changes.Sublist (pending ++ [change])) :
    changes.Sublist pending ∨ ∃ before : List α, before.Sublist pending ∧ changes = before ++ [change] := by
  obtain ⟨before, last, rfl, hbefore, hlast⟩ := List.sublist_append_iff.1 h
  cases last with
  | nil => exact .inl (by rwa [List.append_nil])
  | cons a last =>
    obtain ⟨rfl, hnil⟩ : a = change ∧ last = [] := by
      have hlength := hlast.length_le
      have hmem := hlast.subset (List.mem_cons_self ..)
      exact ⟨List.mem_singleton.1 hmem, List.length_eq_zero_iff.1 (by simpa using hlength)⟩
    exact .inr ⟨before, hbefore, by rw [hnil]⟩

/-! ## Files that are cared for -/

/-- The names of `T` come to be by renaming synced files and no other way. `past` is what each has
held since the directory was last synced. -/
structure Careful (T : Name → Prop) (d : Dir Name Byte) (past : Name → List (Option (List Byte))) :
    Prop where
  coherent : d.names = d.pending.foldl Change.apply d.durable
  fresh : ∀ {name inode}, d.Assigned name (some inode) → inode < d.next
  own : ∀ {name name' inode}, ¬ T name → ¬ T name' → d.Assigned name (some inode) →
    d.Assigned name' (some inode) → name = name'
  free : ∀ {name target inode}, ¬ T name → T target → d.names name = some inode →
    ¬ d.Assigned target (some inode)
  apart : ∀ {changes : List (Change Name)}, changes.Sublist d.pending → ∀ {name target inode},
    ¬ T name → T target → changes.foldl Change.apply d.durable target = some inode →
      changes.foldl Change.apply d.durable name ≠ some inode
  synced : ∀ {target inode}, T target → d.Assigned target (some inode) → d.synced inode
  present : ∀ {target value}, T target → d.Assigned target value → value.map d.content ∈ past target

namespace Careful

variable {T : Name → Prop} {d : Dir Name Byte} {past : Name → List (Option (List Byte))}

theorem empty : Careful T (.empty : Dir Name Byte) fun _ => [none] where
  coherent := rfl
  fresh := by simp [Assigned, Dir.empty]
  own := by simp [Assigned, Dir.empty]
  free := by simp [Dir.empty]
  apart := by
    intro changes h
    rw [List.sublist_nil.1 h]
    simp [Dir.empty]
  synced := by simp [Assigned, Dir.empty]
  present := by simp [Assigned, Dir.empty, eq_comm]

theorem assigned_names (h : Careful T d past) (name : Name) : d.Assigned name (d.names name) := by
  rw [h.coherent]
  exact assigned_of_sublist (List.Sublist.refl _) name

/-- What is written under a name that is not cared for is no matter of those that are. -/
theorem scribble (h : Careful T d past) (hname : ¬ T name) (hinode : d.names name = some inode)
    (content : List Byte) (synced : Bool) :
    Careful T { d with
      content := Function.update d.content inode content
      synced := Function.update d.synced inode synced } past := by
  have other : ∀ {target inode'}, T target → d.Assigned target (some inode') → inode' ≠ inode :=
    fun htarget hassigned heq => h.free hname htarget hinode (heq ▸ hassigned)
  refine { h with synced := ?_, present := ?_ }
  · intro target inode' htarget hassigned
    change Function.update d.synced inode synced inode' = true
    rw [Function.update_of_ne (other htarget hassigned)]
    exact h.synced htarget hassigned
  · intro target value htarget hassigned
    cases value with
    | none => exact h.present htarget hassigned
    | some inode' =>
      have hpresent := h.present htarget hassigned
      rw [Option.map_some] at hpresent ⊢
      change some (Function.update d.content inode content inode') ∈ past target
      rwa [Function.update_of_ne (other htarget hassigned)]

theorem coherent_change (h : Careful T d past) (change : Change Name) :
    (d.change change).names = (d.change change).pending.foldl Change.apply d.durable := by
  rw [Dir.change, List.foldl_append, ← h.coherent]
  rfl

/-- A new file has a name that is not cared for. -/
theorem change_fresh (h : Careful T d past) (hname : ¬ T name) :
    Careful T { d.change [(name, some d.next)] with next := d.next + 1 } past := by
  have assigned : ∀ {name' value}, (d.change [(name, some d.next)]).Assigned name' value →
      d.Assigned name' value ∨ name' = name ∧ value = some d.next := by
    intro name' value hassigned
    rcases assigned_change.1 hassigned with hassigned | hmem
    · exact .inl hassigned
    · exact .inr (Prod.mk.inj (List.mem_singleton.1 hmem))
  have new : ∀ {name'}, ¬ d.Assigned name' (some d.next) :=
    fun hassigned => Nat.lt_irrefl _ (h.fresh hassigned)
  have target : ∀ {target value}, T target →
      (d.change [(name, some d.next)]).Assigned target value → d.Assigned target value := by
    intro target value htarget hassigned
    rcases assigned hassigned with hassigned | ⟨rfl, _⟩
    · exact hassigned
    · exact absurd htarget hname
  constructor
  · exact h.coherent_change _
  · intro name' inode hassigned
    rcases assigned hassigned with hassigned | ⟨_, heq⟩
    · exact Nat.lt_succ_of_lt (h.fresh hassigned)
    · cases heq
      exact Nat.lt_succ_self _
  · intro name' name'' inode hname' hname'' hassigned hassigned'
    rcases assigned hassigned with hassigned | ⟨rfl, heq⟩
    · rcases assigned hassigned' with hassigned' | ⟨_, heq⟩
      · exact h.own hname' hname'' hassigned hassigned'
      · exact absurd (heq ▸ hassigned) new
    · rcases assigned hassigned' with hassigned' | ⟨rfl, _⟩
      · exact absurd (heq ▸ hassigned') new
      · rfl
  · intro name' target' inode hname' htarget hnames hassigned
    have hassigned : d.Assigned target' (some inode) := target htarget hassigned
    change Function.update d.names name (some d.next) name' = some inode at hnames
    by_cases hsame : name' = name
    · rw [hsame, Function.update_self] at hnames
      exact new (hnames ▸ hassigned)
    · rw [Function.update_of_ne hsame] at hnames
      exact h.free hname' htarget hnames hassigned
  · intro changes hsub name' target' inode hname' htarget hvalue hvalue'
    rcases sublist_concat hsub with hsub | ⟨before, hbefore, rfl⟩
    · exact h.apart hsub hname' htarget hvalue hvalue'
    · rw [List.foldl_append] at hvalue hvalue'
      have hne : target' ≠ name := fun heq => hname (heq ▸ htarget)
      change Function.update (before.foldl _ d.durable) name (some d.next) target' = _ at hvalue
      change Function.update (before.foldl _ d.durable) name (some d.next) name' = _ at hvalue'
      rw [Function.update_of_ne hne] at hvalue
      by_cases hsame : name' = name
      · rw [hsame, Function.update_self] at hvalue'
        have hassigned := assigned_of_sublist hbefore target'
        rw [hvalue, ← hvalue'] at hassigned
        exact new hassigned
      · rw [Function.update_of_ne hsame] at hvalue'
        exact h.apart hbefore hname' htarget hvalue hvalue'
  · exact fun htarget hassigned => h.synced htarget (target htarget hassigned)
  · exact fun htarget hassigned => h.present htarget (target htarget hassigned)

theorem create (h : Careful T d past) (hname : ¬ T name) : Careful T (d.create name) past := by
  unfold Dir.create
  cases hinode : d.names name with
  | some inode => exact h.scribble hname hinode [] false
  | none =>
    refine (h.change_fresh hname).scribble hname ?_ [] false
    exact Function.update_self ..

theorem write (h : Careful T d past) (hname : ¬ T name) (content : List Byte) :
    Careful T (d.write name content) past := by
  unfold Dir.write
  cases hinode : d.names name with
  | some inode => exact h.scribble hname hinode content false
  | none => exact h

theorem sync (h : Careful T d past) (hname : ¬ T name) : Careful T (d.sync name) past := by
  unfold Dir.sync
  cases hinode : d.names name with
  | some inode =>
    have hscribble := h.scribble hname hinode (d.content inode) true
    rwa [Function.update_eq_self] at hscribble
  | none => exact h

/-- What is held once more is held. -/
theorem mem_update {past : Name → List α} {a : α} (new : α) (h : a ∈ past name) :
    a ∈ Function.update past target (past target ++ [new]) name := by
  by_cases hsame : name = target
  · rw [hsame, Function.update_self]
    exact List.mem_append_left _ (hsame ▸ h)
  · rwa [Function.update_of_ne hsame]

/-- A synced file gets a name that is cared for. -/
theorem rename (h : Careful T d past) (hname : ¬ T name) (htarget : T target)
    (hinode : d.names name = some inode) (hsynced : d.synced inode) :
    Careful T (d.rename name target)
      (Function.update past target (past target ++ [some (d.content inode)])) := by
  have hne : name ≠ target := fun heq => hname (heq ▸ htarget)
  have hassigned : d.Assigned name (some inode) := hinode ▸ h.assigned_names name
  have assigned : ∀ {name' value},
      (d.change [(name, none), (target, some inode)]).Assigned name' value →
      d.Assigned name' value ∨ name' = name ∧ value = none ∨ name' = target ∧ value = some inode := by
    intro name' value hassigned
    refine (assigned_change.1 hassigned).imp_right fun hmem => ?_
    rcases List.mem_cons.1 hmem with hmem | hmem
    · exact .inl (Prod.mk.inj hmem)
    · exact .inr (Prod.mk.inj (List.mem_singleton.1 hmem))
  have aside : ∀ {name' inode'}, ¬ T name' →
      (d.change [(name, none), (target, some inode)]).Assigned name' (some inode') →
      d.Assigned name' (some inode') := by
    intro name' inode' hname' hassigned
    rcases assigned hassigned with hassigned | ⟨_, heq⟩ | ⟨rfl, _⟩
    · exact hassigned
    · cases heq
    · exact absurd htarget hname'
  rw [Dir.rename, hinode]
  constructor
  · exact h.coherent_change _
  · intro name' inode' hassigned'
    rcases assigned hassigned' with hassigned' | ⟨_, heq⟩ | ⟨_, heq⟩
    · exact h.fresh hassigned'
    · cases heq
    · cases heq
      exact h.fresh hassigned
  · intro name' name'' inode' hname' hname'' h' h''
    exact h.own hname' hname'' (aside hname' h') (aside hname'' h'')
  · intro name' target' inode' hname' htarget' hnames hassigned'
    have hne' : name' ≠ target := fun heq => hname' (heq ▸ htarget)
    change Function.update (Function.update d.names name none) target (some inode) name' = _ at hnames
    rw [Function.update_of_ne hne'] at hnames
    by_cases hsame : name' = name
    · rw [hsame, Function.update_self] at hnames
      cases hnames
    · rw [Function.update_of_ne hsame] at hnames
      rcases assigned hassigned' with hassigned' | ⟨_, heq⟩ | ⟨_, heq⟩
      · exact h.free hname' htarget' hnames hassigned'
      · cases heq
      · cases heq
        exact hsame (h.own hname' hname (hnames ▸ h.assigned_names name') hassigned)
  · intro changes hsub name' target' inode' hname' htarget' hvalue hvalue'
    rcases sublist_concat hsub with hsub | ⟨before, hbefore, rfl⟩
    · exact h.apart hsub hname' htarget' hvalue hvalue'
    · rw [List.foldl_append] at hvalue hvalue'
      change Function.update (Function.update (before.foldl _ d.durable) name none) target
        (some inode) target' = _ at hvalue
      change Function.update (Function.update (before.foldl _ d.durable) name none) target
        (some inode) name' = _ at hvalue'
      have hne' : name' ≠ target := fun heq => hname' (heq ▸ htarget)
      rw [Function.update_of_ne hne'] at hvalue'
      by_cases hsame : name' = name
      · rw [hsame, Function.update_self] at hvalue'
        cases hvalue'
      · rw [Function.update_of_ne hsame] at hvalue'
        by_cases hsame' : target' = target
        · rw [hsame', Function.update_self] at hvalue
          cases hvalue
          refine hsame (h.own hname' hname ?_ hassigned)
          rw [← hvalue']
          exact assigned_of_sublist hbefore name'
        · have hother : target' ≠ name := fun heq => hname (heq ▸ htarget')
          rw [Function.update_of_ne hsame', Function.update_of_ne hother] at hvalue
          exact h.apart hbefore hname' htarget' hvalue hvalue'
  · intro target' inode' htarget' hassigned'
    rcases assigned hassigned' with hassigned' | ⟨_, heq⟩ | ⟨_, heq⟩
    · exact h.synced htarget' hassigned'
    · cases heq
    · cases heq
      exact hsynced
  · intro target' value htarget' hassigned'
    rcases assigned hassigned' with hassigned' | ⟨heq, _⟩ | ⟨rfl, rfl⟩
    · exact mem_update _ (h.present htarget' hassigned')
    · exact absurd (heq ▸ htarget') hname
    · rw [Function.update_self]
      exact List.mem_append_right _ (List.mem_singleton_self _)

theorem remove (h : Careful T d past) (htarget : T target) :
    Careful T (d.remove target) (Function.update past target (past target ++ [none])) := by
  have assigned : ∀ {name value}, (d.change [(target, none)]).Assigned name value →
      d.Assigned name value ∨ name = target ∧ value = none := by
    intro name value hassigned
    exact (assigned_change.1 hassigned).imp_right fun hmem =>
      Prod.mk.inj (List.mem_singleton.1 hmem)
  have old : ∀ {name inode}, (d.change [(target, none)]).Assigned name (some inode) →
      d.Assigned name (some inode) := by
    intro name inode hassigned
    rcases assigned hassigned with hassigned | ⟨_, heq⟩
    · exact hassigned
    · cases heq
  constructor
  · exact h.coherent_change _
  · exact fun hassigned => h.fresh (old hassigned)
  · exact fun hname hname' hassigned hassigned' => h.own hname hname' (old hassigned) (old hassigned')
  · intro name target' inode hname htarget' hnames hassigned
    have hne : name ≠ target := fun heq => hname (heq ▸ htarget)
    change Function.update d.names target none name = _ at hnames
    rw [Function.update_of_ne hne] at hnames
    exact h.free hname htarget' hnames (old hassigned)
  · intro changes hsub name target' inode hname htarget' hvalue hvalue'
    rcases sublist_concat hsub with hsub | ⟨before, hbefore, rfl⟩
    · exact h.apart hsub hname htarget' hvalue hvalue'
    · rw [List.foldl_append] at hvalue hvalue'
      change Function.update (before.foldl _ d.durable) target none target' = _ at hvalue
      change Function.update (before.foldl _ d.durable) target none name = _ at hvalue'
      have hne : name ≠ target := fun heq => hname (heq ▸ htarget)
      rw [Function.update_of_ne hne] at hvalue'
      by_cases hsame : target' = target
      · rw [hsame, Function.update_self] at hvalue
        cases hvalue
      · rw [Function.update_of_ne hsame] at hvalue
        exact h.apart hbefore hname htarget' hvalue hvalue'
  · exact fun htarget' hassigned => h.synced htarget' (old hassigned)
  · intro target' value htarget' hassigned
    rcases assigned hassigned with hassigned | ⟨rfl, rfl⟩
    · exact mem_update _ (h.present htarget' hassigned)
    · rw [Function.update_self]
      exact List.mem_append_right _ (List.mem_singleton_self _)

/-- The directory is as some of the changes have left it. -/
theorem settled (h : Careful T d past) {changes : List (Change Name)}
    (hsub : changes.Sublist d.pending) {d' : Dir Name Byte}
    (names : d'.names = changes.foldl Change.apply d.durable) (durable : d'.durable = d'.names)
    (pending : d'.pending = []) (next : d.next ≤ d'.next)
    (synced : ∀ inode, d.synced inode → d'.synced inode ∧ d'.content inode = d.content inode) :
    Careful T d' fun name => [d'.read name] := by
  have assigned : ∀ {name value}, d'.Assigned name value →
      value = d'.names name ∧ d.Assigned name value := by
    rintro name value (hdurable | ⟨change, hmem, _⟩)
    · rw [← hdurable, durable, names]
      exact ⟨rfl, assigned_of_sublist hsub name⟩
    · rw [pending] at hmem
      cases hmem
  constructor
  · rw [pending, durable]
    rfl
  · exact fun hassigned => Nat.lt_of_lt_of_le (h.fresh (assigned hassigned).2) next
  · exact fun hname hname' hassigned hassigned' =>
      h.own hname hname' (assigned hassigned).2 (assigned hassigned').2
  · intro name target inode hname htarget hnames hassigned
    have hvalue : changes.foldl Change.apply d.durable target = some inode := by
      rw [← names]
      exact (assigned hassigned).1.symm
    exact h.apart hsub hname htarget hvalue (names ▸ hnames)
  · intro changes' hsub' name target inode hname htarget hvalue hvalue'
    rw [pending, List.sublist_nil] at hsub'
    subst hsub'
    rw [List.foldl_nil, durable, names] at hvalue hvalue'
    exact h.apart hsub hname htarget hvalue hvalue'
  · exact fun htarget hassigned => (synced _ (h.synced htarget (assigned hassigned).2)).1
  · intro target value htarget hassigned
    rw [(assigned hassigned).1]
    exact List.mem_singleton_self _

theorem syncDir (h : Careful T d past) : Careful T d.syncDir fun name => [d.read name] :=
  h.settled (List.Sublist.refl _) h.coherent rfl rfl (Nat.le_refl _) fun _ hsynced => ⟨hsynced, rfl⟩

theorem crash (h : Careful T d past) (mask : List Bool) (garbage : Nat → List Byte) :
    Careful T (d.crash mask garbage) fun name => [(d.crash mask garbage).read name] :=
  h.settled (kept_sublist d.pending mask) rfl rfl rfl (Nat.le_refl _) fun _ hsynced =>
    ⟨rfl, if_pos hsynced⟩

/-- What is cared for is as it was at some time since the directory was last synced. -/
theorem read_mem (h : Careful T d past) (htarget : T target) : d.read target ∈ past target :=
  h.present htarget (h.assigned_names target)

/-- What is written under a name that is not cared for is not seen in those that are. -/
theorem read_scribble (h : Careful T d past) (hname : ¬ T name) (htarget : T target)
    (hinode : d.names name = some inode) (content : List Byte) :
    (d.names target).map (Function.update d.content inode content) = d.read target := by
  cases hvalue : d.names target with
  | none => simp [Dir.read, hvalue]
  | some inode' =>
    have hne : inode' ≠ inode := by
      rintro rfl
      exact h.free hname htarget hinode (hvalue ▸ h.assigned_names target)
    simp [Dir.read, hvalue, Function.update_of_ne hne]

theorem read_create (h : Careful T d past) (hname : ¬ T name) (htarget : T target) :
    (d.create name).read target = d.read target := by
  have hne : target ≠ name := fun heq => hname (heq ▸ htarget)
  unfold Dir.create
  cases hinode : d.names name with
  | some inode => exact h.read_scribble hname htarget hinode []
  | none =>
    have hnew : (d.change [(name, some d.next)]).names name = some d.next :=
      Function.update_self ..
    refine ((h.change_fresh hname).read_scribble hname htarget hnew []).trans ?_
    change (Function.update d.names name (some d.next) target).map d.content = _
    rw [Function.update_of_ne hne]
    rfl

theorem read_write (h : Careful T d past) (hname : ¬ T name) (htarget : T target)
    (content : List Byte) : (d.write name content).read target = d.read target := by
  unfold Dir.write
  cases hinode : d.names name with
  | some inode => exact h.read_scribble hname htarget hinode content
  | none => rfl

/-- And so it is whenever the power goes. -/
theorem survives (h : Careful T d past) (htarget : T target) (mask : List Bool)
    (garbage : Nat → List Byte) : (d.crash mask garbage).read target ∈ past target := by
  have hassigned : d.Assigned target (d.survivors mask target) :=
    assigned_of_sublist (kept_sublist d.pending mask) target
  have hpresent := h.present htarget hassigned
  change (d.survivors mask target).map (d.crash mask garbage).content ∈ past target
  cases hvalue : d.survivors mask target with
  | none => rwa [hvalue] at hpresent
  | some inode =>
    rw [hvalue] at hassigned hpresent
    have hcontent : (d.crash mask garbage).content inode = d.content inode :=
      if_pos (h.synced htarget hassigned)
    rw [Option.map_some, hcontent]
    exact hpresent

end Careful

end Dir

end Disk
