import Mathlib.Data.List.Basic
import Mathlib.Data.Rat.Defs

/-!
# JSON values and documents

`Value` is what a JavaScript program holds, `Document` what a JSON text says. `stringify` drops
what JSON cannot say (`undefined`, the numbers that are not finite, the sign of zero) and `parse`
reads a document back. `throughText_eq_some_iff` says which values survive: the exact ones.
-/

namespace Json

inductive Number where
  | nan
  | infinity (negative : Bool)
  | negZero
  | finite (q : Rat)
  deriving DecidableEq

/-- A JavaScript value made of data. An object lists its own properties in their order. -/
inductive Value where
  | undefined
  | null
  | bool (b : Bool)
  | num (x : Number)
  | str (s : String)
  | arr (items : List Value)
  | obj (members : List (String × Value))

/-- The content of a JSON text. -/
inductive Document where
  | null
  | bool (b : Bool)
  | num (q : Rat)
  | str (s : String)
  | arr (items : List Document)
  | obj (members : List (String × Document))

/-! ## Properties -/

/-- The property `key`, `undefined` when there is none. -/
def getMember : List (String × Value) → String → Value
  | [], _ => .undefined
  | (k, v) :: members, key => if k = key then v else getMember members key

def setMember : List (String × Value) → String → Value → List (String × Value)
  | [], key, value => [(key, value)]
  | (k, v) :: members, key, value =>
    if k = key then (k, value) :: members else (k, v) :: setMember members key value

theorem setMember_of_notMem (h : key ∉ members.map Prod.fst) :
    setMember members key value = members ++ [(key, value)] := by
  induction members with
  | nil => rfl
  | cons member members ih =>
    simp only [List.map_cons, List.mem_cons, not_or] at h
    simp [setMember, Ne.symm h.1, ih h.2]

theorem getMember_of_notMem (h : key ∉ members.map Prod.fst) :
    getMember members key = .undefined := by
  induction members with
  | nil => rfl
  | cons member members ih =>
    simp only [List.map_cons, List.mem_cons, not_or] at h
    simp [getMember, Ne.symm h.1, ih h.2]

mutual
/-- No object holds a property twice. -/
def Value.Wf : Value → Prop
  | .arr items => Value.ItemsWf items
  | .obj members => (members.map Prod.fst).Nodup ∧ Value.MembersWf members
  | .undefined | .null | .bool _ | .num _ | .str _ => True

def Value.ItemsWf : List Value → Prop
  | [] => True
  | item :: items => item.Wf ∧ Value.ItemsWf items

def Value.MembersWf : List (String × Value) → Prop
  | [] => True
  | (_, value) :: members => value.Wf ∧ Value.MembersWf members
end

theorem Value.MembersWf.get (h : Value.MembersWf members) (key : String) :
    (getMember members key).Wf := by
  induction members with
  | nil => trivial
  | cons member members ih =>
    simp only [Value.MembersWf] at h
    simp only [getMember]
    split
    · exact h.1
    · exact ih h.2

/-! ## Writing and reading -/

/-- The value a JSON text gives a number, `null` for the ones it cannot say. -/
def Number.toDocument : Number → Document
  | .nan | .infinity _ => .null
  | .negZero => .num 0
  | .finite q => .num q

mutual
/-- `JSON.stringify`: `none` stands for the answer `undefined`. -/
def stringify : Value → Option Document
  | .undefined => none
  | .null => some .null
  | .bool b => some (.bool b)
  | .num x => some x.toDocument
  | .str s => some (.str s)
  | .arr items => some (.arr (stringifyItems items))
  | .obj members => some (.obj (stringifyMembers members))

/-- An item JSON cannot say becomes `null`, so that the others keep their places. -/
def stringifyItems : List Value → List Document
  | [] => []
  | item :: items => (stringify item).getD .null :: stringifyItems items

/-- A property JSON cannot say is left out. -/
def stringifyMembers : List (String × Value) → List (String × Document)
  | [] => []
  | (key, value) :: members =>
    match stringify value with
    | none => stringifyMembers members
    | some document => (key, document) :: stringifyMembers members
end

mutual
/-- `JSON.parse`, on a text that is JSON. -/
def parse : Document → Value
  | .null => .null
  | .bool b => .bool b
  | .num q => .num (.finite q)
  | .str s => .str s
  | .arr items => .arr (parseItems items)
  | .obj members => .obj (parseMembers [] members)

def parseItems : List Document → List Value
  | [] => []
  | item :: items => parse item :: parseItems items

/-- A repeated name overwrites the earlier property and keeps its place. -/
def parseMembers : List (String × Value) → List (String × Document) → List (String × Value)
  | soFar, [] => soFar
  | soFar, (key, document) :: members =>
    parseMembers (setMember soFar key (parse document)) members
end

theorem setMember_nodup (h : (soFar.map Prod.fst).Nodup) :
    ((setMember soFar key value).map Prod.fst).Nodup := by
  have keys : ∀ members, (setMember members key value).map Prod.fst ⊆
      key :: members.map Prod.fst := by
    intro members
    induction members with
    | nil => simp [setMember]
    | cons member members ih =>
      simp only [setMember]
      split
      · simp
      · intro k hk
        simp only [List.map_cons, List.mem_cons] at hk ⊢
        rcases hk with hk | hk
        · exact .inr (.inl hk)
        · rcases List.mem_cons.1 (ih hk) with hk | hk
          · exact .inl hk
          · exact .inr (.inr hk)
  induction soFar with
  | nil => simp [setMember]
  | cons member members ih =>
    simp only [List.map_cons, List.nodup_cons] at h
    simp only [setMember]
    split
    · simpa using h
    · rename_i hne
      refine List.nodup_cons.2 ⟨fun hm => ?_, ih h.2⟩
      rcases List.mem_cons.1 (keys members hm) with hm | hm
      · exact hne hm
      · exact h.1 hm

theorem setMember_wf (h : Value.MembersWf soFar) (hv : value.Wf) :
    Value.MembersWf (setMember soFar key value) := by
  induction soFar with
  | nil => exact ⟨hv, trivial⟩
  | cons member members ih =>
    simp only [Value.MembersWf] at h
    simp only [setMember]
    split
    · exact ⟨hv, h.2⟩
    · exact ⟨h.1, ih h.2⟩

mutual
/-- What a text is read as never holds a property twice. -/
theorem parse_wf : ∀ document, (parse document).Wf
  | .null | .bool _ | .num _ | .str _ => trivial
  | .arr items => parseItems_wf items
  | .obj members => parseMembers_wf members [] List.nodup_nil trivial

theorem parseItems_wf : ∀ items, Value.ItemsWf (parseItems items)
  | [] => trivial
  | item :: items => ⟨parse_wf item, parseItems_wf items⟩

theorem parseMembers_wf : ∀ members soFar, (soFar.map Prod.fst).Nodup → Value.MembersWf soFar →
    ((parseMembers soFar members).map Prod.fst).Nodup ∧
      Value.MembersWf (parseMembers soFar members)
  | [], _, hn, hw => ⟨hn, hw⟩
  | (_, document) :: members, _, hn, hw =>
    parseMembers_wf members _ (setMember_nodup hn) (setMember_wf hw (parse_wf document))
end

/-! ## There and back -/

/-- What is read back from the text written for a value. -/
def throughText (value : Value) : Option Value := (stringify value).map parse

/-- The value read back at a property or an item, where a missing one reads `undefined`. -/
def readBack (value : Value) : Value := (throughText value).getD .undefined

@[simp] theorem readBack_undefined : readBack .undefined = .undefined := rfl
@[simp] theorem readBack_str (s : String) : readBack (.str s) = .str s := rfl
@[simp] theorem readBack_finite (q : Rat) :
    readBack (.num (.finite q)) = .num (.finite q) := rfl

theorem readBack_wf (value : Value) : (readBack value).Wf := by
  unfold readBack throughText
  cases stringify value with
  | none => trivial
  | some document => exact parse_wf document

theorem throughText_eq_none_iff : throughText value = none ↔ value = .undefined := by
  cases value <;> simp [throughText, stringify]

theorem stringifyMembers_fst :
    ((stringifyMembers members).map Prod.fst).Sublist (members.map Prod.fst) := by
  induction members with
  | nil => exact .slnil
  | cons member members ih =>
    obtain ⟨key, value⟩ := member
    simp only [stringifyMembers]
    split
    · exact .cons _ ih
    · exact .cons_cons _ ih

theorem parseMembers_eq (hn : (members.map Prod.fst).Nodup)
    (hd : ∀ k ∈ members.map Prod.fst, k ∉ soFar.map Prod.fst) :
    parseMembers soFar members = soFar ++ members.map fun m => (m.1, parse m.2) := by
  induction members generalizing soFar with
  | nil => simp [parseMembers]
  | cons member members ih =>
    obtain ⟨key, document⟩ := member
    simp only [List.map_cons, List.nodup_cons, List.mem_cons, forall_eq_or_imp] at hn hd
    rw [parseMembers, setMember_of_notMem hd.1, ih hn.2 fun k hk => ?_]
    · simp
    · simp only [List.map_append, List.map_cons, List.map_nil, List.mem_append,
        List.mem_singleton, not_or]
      exact ⟨hd.2 k hk, fun h => hn.1 (h ▸ hk)⟩

theorem throughText_arr (items : List Value) :
    throughText (.arr items) =
      some (.arr (items.map fun item => (throughText item).getD .null)) := by
  simp only [throughText, stringify, Option.map_some, parse]
  congr 2
  induction items with
  | nil => rfl
  | cons item items ih =>
    simp only [stringifyItems, parseItems, ih, List.map_cons]
    congr 1
    cases stringify item <;> rfl

/-- The properties of an object that are read back: those JSON can say, in their order. -/
def readBackMembers (members : List (String × Value)) : List (String × Value) :=
  members.filterMap fun m => (throughText m.2).map (m.1, ·)

theorem throughText_obj (hn : (members.map Prod.fst).Nodup) :
    throughText (.obj members) = some (.obj (readBackMembers members)) := by
  have kept : (stringifyMembers members).map (fun m => (m.1, parse m.2)) =
      readBackMembers members := by
    clear hn
    induction members with
    | nil => rfl
    | cons member members ih =>
      obtain ⟨key, value⟩ := member
      rw [readBackMembers, List.filterMap_cons, ← readBackMembers, ← ih, stringifyMembers]
      cases h : stringify value with
      | none => simp [throughText, h]
      | some document => simp [throughText, h]
  rw [throughText, stringify, Option.map_some, parse,
    parseMembers_eq (stringifyMembers_fst.nodup hn) (by simp), List.nil_append, kept]

theorem readBack_obj (hn : (members.map Prod.fst).Nodup) :
    readBack (.obj members) = .obj (readBackMembers members) := by
  rw [readBack, throughText_obj hn, Option.getD_some]

/-- An array of strings is read back as it is. -/
theorem readBack_strings (items : List String) :
    readBack (.arr (items.map .str)) = .arr (items.map .str) := by
  rw [readBack, throughText_arr, Option.getD_some, List.map_map]
  rfl

theorem readBackMembers_wf (hn : (members.map Prod.fst).Nodup) :
    (Value.obj (readBackMembers members)).Wf :=
  readBack_obj hn ▸ readBack_wf _

theorem getMember_readBackMembers (hn : (members.map Prod.fst).Nodup) (key : String) :
    getMember (readBackMembers members) key
      = readBack (getMember members key) := by
  induction members with
  | nil => rfl
  | cons member members ih =>
    obtain ⟨k, value⟩ := member
    simp only [List.map_cons, List.nodup_cons] at hn
    have absent : key = k → getMember members key = .undefined := fun h =>
      getMember_of_notMem (h ▸ hn.1)
    rw [readBackMembers, List.filterMap_cons, ← readBackMembers]
    cases h : throughText value with
    | none =>
      rw [throughText_eq_none_iff] at h
      simp only [Option.map_none, ih hn.2, getMember]
      split
      · rename_i hk
        rw [absent hk.symm, h]
      · rfl
    | some back =>
      simp only [Option.map_some, getMember]
      split
      · simp [readBack, h]
      · exact ih hn.2

mutual
/-- JSON says the value exactly: nothing in it is `undefined`, not finite, or minus zero. -/
def Value.Exact : Value → Prop
  | .undefined => False
  | .num x => ∃ q, x = .finite q
  | .arr items => Value.ItemsExact items
  | .obj members => Value.MembersExact members
  | .null | .bool _ | .str _ => True

def Value.ItemsExact : List Value → Prop
  | [] => True
  | item :: items => item.Exact ∧ Value.ItemsExact items

def Value.MembersExact : List (String × Value) → Prop
  | [] => True
  | (_, value) :: members => value.Exact ∧ Value.MembersExact members
end

theorem filterMap_eq_self_iff {f : α → Option α} {xs : List α} :
    xs.filterMap f = xs ↔ ∀ x ∈ xs, f x = some x := by
  refine ⟨fun h => ?_, fun h => ?_⟩
  · induction xs with
    | nil => simp
    | cons x xs ih =>
      rw [List.filterMap_cons] at h
      split at h
      · have short := List.length_filterMap_le f xs
        rw [h, List.length_cons] at short
        omega
      · rename_i y hy
        obtain ⟨rfl, tail⟩ := List.cons.inj h
        exact List.forall_mem_cons.2 ⟨hy, ih tail⟩
  · rw [List.filterMap_congr h, List.filterMap_some]

mutual
/-- The values that survive being written and read back. -/
theorem throughText_eq_some_iff : ∀ {value : Value}, value.Wf →
    (throughText value = some value ↔ value.Exact)
  | .undefined, _ => by simp [throughText, stringify, Value.Exact]
  | .null, _ | .bool _, _ | .str _, _ => by simp [throughText, stringify, parse, Value.Exact]
  | .num x, _ => by
    cases x <;> simp [throughText, stringify, parse, Value.Exact, Number.toDocument]
  | .arr items, h => by
    rw [throughText_arr, Option.some.injEq, Value.arr.injEq, Value.Exact,
      ← items_throughText_iff h]
  | .obj members, h => by
    rw [throughText_obj h.1, Option.some.injEq, Value.obj.injEq, Value.Exact,
      ← members_throughText_iff h.2]

theorem items_throughText_iff : ∀ {items : List Value}, Value.ItemsWf items →
    (items.map (fun item => (throughText item).getD .null) = items ↔ Value.ItemsExact items)
  | [], _ => by simp [Value.ItemsExact]
  | item :: items, h => by
    rw [List.map_cons, List.cons.injEq, Value.ItemsExact, items_throughText_iff h.2,
      ← throughText_eq_some_iff h.1]
    refine and_congr_left fun _ => ?_
    cases ht : throughText item with
    | none => simp [throughText_eq_none_iff.1 ht]
    | some back => simp

theorem members_throughText_iff : ∀ {members : List (String × Value)}, Value.MembersWf members →
    (readBackMembers members = members ↔ Value.MembersExact members)
  | [], _ => by simp [readBackMembers, Value.MembersExact]
  | (key, value) :: members, h => by
    rw [Value.MembersExact, ← members_throughText_iff h.2, ← throughText_eq_some_iff h.1,
      readBackMembers, readBackMembers, filterMap_eq_self_iff, filterMap_eq_self_iff,
      List.forall_mem_cons]
    simp
end

end Json
