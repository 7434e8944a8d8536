import Whispee.Lib.Dictionary
import Whispee.Session.Storage
import Mathlib.Algebra.GroupWithZero.Nat

/-!
# What to call somebody

`Names` of `apps/web/src/lib/session-naming.ts`, over `display-name.ts` and `handle.ts`, and
`compactNameOf` of `naming.ts`. The tables of Unicode are a parameter: case mapping and the two
normalisation forms.
-/

namespace Whispee.Session.Naming

structure Unicode where
  toLowerCase : String → String
  nfc : String → String
  nfkc : String → String

/-- White space, to `trim` and to `\s`. -/
def isSpace (c : Char) : Bool :=
  c ∈ ['\t', '\n', '\x0b', '\x0c', '\r', ' ', '\u00a0', '\u1680', '\u2028', '\u2029', '\u202f',
    '\u205f', '\u3000', '\ufeff'] || ('\u2000' ≤ c && c ≤ '\u200a')

def trim (s : String) : String :=
  .ofList ((s.toList.dropWhile isSpace).reverse.dropWhile isSpace).reverse

/-- `.replace(/\s+/g, " ")`, after white space or not. -/
def collapseFrom : Bool → List Char → List Char
  | _, [] => []
  | true, c :: cs => if isSpace c then collapseFrom true cs else c :: collapseFrom false cs
  | false, c :: cs => if isSpace c then ' ' :: collapseFrom true cs else c :: collapseFrom false cs

def collapse (s : String) : String := .ofList (collapseFrom false s.toList)

/-- `.replace(/^@/, "")`. -/
def stripSigil (s : String) : String :=
  match s.toList with
  | '@' :: rest => .ofList rest
  | _ => s

/-! ## `display-name.ts` -/

def MAX_CODE_POINTS : Nat := 32
def MAX_BYTES : Nat := 64

inductive DisplayNameError where
  | tooLong
  | empty

def isControl (c : Char) : Bool := c ≤ '\u001f' || ('\u007f' ≤ c && c ≤ '\u009f')

def isInvisible (c : Char) : Bool :=
  c ∈ ['\u200e', '\u200f', '\ufeff'] || ('\u202a' ≤ c && c ≤ '\u202e') ||
    ('\u2066' ≤ c && c ≤ '\u2069')

section
variable (U : Unicode)

def sanitize (input : String) : String :=
  let spaced := (U.nfc input).toList.map fun c => if isControl c then ' ' else c
  trim (collapse (.ofList (spaced.filter (!isInvisible ·))))

def validate (name : String) : Option DisplayNameError :=
  if name.isEmpty then some .empty
  else if MAX_CODE_POINTS < name.length then some .tooLong
  else if MAX_BYTES < name.utf8ByteSize then some .tooLong
  else none

/-! ## `handle.ts` -/

def MIN_LENGTH : Nat := 3
def MAX_LENGTH : Nat := 32

inductive HandleError where
  | tooShort
  | tooLong
  | badCharacters

def normalize (input : String) : String := U.toLowerCase (stripSigil (trim (U.nfkc input)))

/-- `.length`, in UTF-16 code units. -/
def codeUnits (s : String) : Nat := (s.toList.map fun c => if c.toNat < 0x10000 then 1 else 2).sum

def validateHandle (handle : String) : Option HandleError :=
  if codeUnits handle < MIN_LENGTH then some .tooShort
  else if MAX_LENGTH < codeUnits handle then some .tooLong
  else if handle.toList.all fun c => ('a' ≤ c && c ≤ 'z') || ('0' ≤ c && c ≤ '9') || c = '_' then
    none
  else some .badCharacters

/-! ## `session-naming.ts` -/

/-- What a peer has declared about itself, and when. -/
structure Profile where
  name : String
  at_ : Nat
  deriving DecidableEq

structure Names where
  own : Option String
  declared : Dictionary Profile
  claimed : Dictionary Profile
  given : Dictionary String

namespace Names

def empty : Names := ⟨none, ∅, ∅, ∅⟩

/-- `clean`: no name if it cleans away to nothing. -/
def clean (name : String) : Except DisplayNameError (Option String) :=
  let cleaned := sanitize U name
  if cleaned = "" then .ok none
  else match validate cleaned with
    | some error => .error error
    | none => .ok (some cleaned)

def setPetname (n : Names) (account name : String) : Except DisplayNameError Names := do
  match ← clean U name with
  | none => return { n with given := n.given.erase account }
  | some cleaned => return { n with given := n.given.set account cleaned }

/-- A declaration that is not later than the one that is known changes nothing. -/
def absorb (n : Names) (account declared : String) (at_ : Nat) : Bool × Names :=
  if (n.declared.get? account).any (at_ ≤ ·.at_) then (false, n)
  else
    let name := sanitize U declared
    if name ≠ "" && (validate name).isSome then (false, n)
    else if name = "" then (true, { n with declared := n.declared.erase account })
    else (true, { n with declared := n.declared.set account ⟨name, at_⟩ })

def absorbHandle (n : Names) (account declared : String) (at_ : Nat) : Bool × Names :=
  if (n.claimed.get? account).any (at_ ≤ ·.at_) then (false, n)
  else
    let handle := normalize U declared
    if (validateHandle handle).isSome then (false, n)
    else (true, { n with claimed := n.claimed.set account ⟨handle, at_⟩ })

end Names

/-! ## `naming.ts` -/

/-- The records that names come from, by account. -/
structure NameSources where
  handles : Dictionary String
  petnames : Dictionary String
  profiles : Dictionary Profile

def Names.sources (n : Names) : NameSources := ⟨n.claimed.map (·.name), n.given, n.declared⟩

def formatHandle (handle : String) : String := "@" ++ handle

/-- `.match(/.{4}/g)` of sixteen digits, joined. -/
def grouped (account : String) : String :=
  let digits := account.toList
  " ".intercalate [.ofList (digits.take 4), .ofList ((digits.drop 4).take 4),
    .ofList ((digits.drop 8).take 4), .ofList ((digits.drop 12).take 4)]

variable (sources : NameSources)

def handleOf (account : String) : String :=
  match (sources.handles.get? account).filter (· ≠ "") with
  | some claimed => formatHandle claimed
  | none => if !isAccountId account then formatHandle account else grouped account

def fold (name : String) : String := U.toLowerCase (collapse (trim name))

/-- How names are compared: up to case, spacing and a leading `@`. -/
def comparable (name : String) : String := stripSigil (fold U name)

/-- The name the reader gave. -/
def petnameOf (account : String) : Option String :=
  ((sources.petnames.get? account).map trim).filter (· ≠ "")

def assertedName (account : String) : Option String :=
  ((sources.profiles.get? account).map (trim ·.name)).filter (· ≠ "")

/-- Somebody else wears the name, or is shown by it. -/
def contested (among : List String) (account asserted : String) : Bool :=
  among.any fun other => other ≠ account &&
    ((assertedName sources other).any (comparable U · = comparable U asserted) ||
      comparable U (handleOf sources other) = comparable U asserted)

def compactNameOf (account : String) (among : List String) : String :=
  match petnameOf sources account with
  | some petname => petname
  | none =>
    match assertedName sources account with
    | none => handleOf sources account
    | some asserted =>
      if contested U sources among account asserted then handleOf sources account else asserted

/-! ## Who is taken for whom -/

/-- No two members are shown by what compares as one name. -/
def Distinguished (members : List String) : Prop :=
  ∀ x ∈ members, ∀ y ∈ members, x ≠ y →
    comparable U (compactNameOf U sources x members) ≠
      comparable U (compactNameOf U sources y members)

/-- The name an account gave itself, as long as nobody contests it. -/
def standing (members : List String) (account : String) : Option String :=
  (assertedName sources account).filter fun asserted =>
    !contested U sources members account asserted

/-- There is only the handle to show. -/
def Anchored (members : List String) (account : String) : Prop :=
  petnameOf sources account = none ∧ standing U sources members account = none

/-- A petname is not another's, not what another calls itself and not another's handle, where that
is shown; and those who are shown by their handles have different ones. -/
structure Unambiguous (members : List String) : Prop where
  petnames : ∀ x ∈ members, ∀ y ∈ members, x ≠ y → ∀ p ∈ petnameOf sources x,
    ∀ q ∈ petnameOf sources y, comparable U p ≠ comparable U q
  declared : ∀ x ∈ members, ∀ y ∈ members, x ≠ y → ∀ p ∈ petnameOf sources x,
    petnameOf sources y = none → ∀ n ∈ standing U sources members y, comparable U p ≠ comparable U n
  anchors : ∀ x ∈ members, ∀ y ∈ members, x ≠ y → ∀ p ∈ petnameOf sources x,
    Anchored U sources members y → comparable U p ≠ comparable U (handleOf sources y)
  handles : ∀ x ∈ members, ∀ y ∈ members, x ≠ y → Anchored U sources members x →
    Anchored U sources members y →
    comparable U (handleOf sources x) ≠ comparable U (handleOf sources y)

end

section
variable {U : Unicode} {sources : NameSources} {members : List String} {x y : String}

theorem compactNameOf_of_petname (h : petnameOf sources x = some p) :
    compactNameOf U sources x members = p := by
  rw [compactNameOf, h]

theorem compactNameOf_of_standing (hp : petnameOf sources x = none)
    (h : standing U sources members x = some n) : compactNameOf U sources x members = n := by
  obtain ⟨hasserted, hfree⟩ := Option.filter_eq_some_iff.1 h
  rw [Bool.not_eq_true'] at hfree
  rw [compactNameOf, hp, hasserted]
  dsimp only
  rw [hfree]
  rfl

theorem compactNameOf_of_anchored (h : Anchored U sources members x) :
    compactNameOf U sources x members = handleOf sources x := by
  obtain ⟨hp, hstanding⟩ := h
  rw [compactNameOf, hp]
  dsimp only
  cases hasserted : assertedName sources x with
  | none => rfl
  | some n =>
    have hcontested := Option.filter_eq_none_iff.1 hstanding n hasserted
    rw [Bool.not_eq_true', Bool.not_eq_false] at hcontested
    dsimp only
    rw [if_pos hcontested]

/-- What a name has to be for it to stand. -/
theorem not_comparable_of_standing (h : standing U sources members x = some n) (hy : y ∈ members)
    (hne : x ≠ y) : (∀ n' ∈ assertedName sources y, comparable U n' ≠ comparable U n) ∧
      comparable U (handleOf sources y) ≠ comparable U n := by
  obtain ⟨_, hfree⟩ := Option.filter_eq_some_iff.1 h
  rw [Bool.not_eq_true'] at hfree
  have hother := List.any_eq_false.1 hfree y hy
  rw [Bool.and_eq_true, Bool.or_eq_true, decide_eq_true_eq, decide_eq_true_eq] at hother
  constructor
  · intro n' hn' heq
    refine hother ⟨hne.symm, .inl ?_⟩
    rw [Option.mem_def.1 hn']
    exact decide_eq_true heq
  · intro heq
    exact hother ⟨hne.symm, .inr heq⟩

/-- How an account is shown: by its petname, by the name it gave itself or by its handle. -/
inductive Shown (U : Unicode) (sources : NameSources) (members : List String) (x : String) : Prop
  where
  | petname (p : String) (is : petnameOf sources x = some p)
  | standing (none_ : petnameOf sources x = none) (n : String)
    (is : standing U sources members x = some n)
  | anchored (is : Anchored U sources members x)

theorem shown (U : Unicode) (sources : NameSources) (members : List String) (x : String) :
    Shown U sources members x := by
  cases hp : petnameOf sources x with
  | some p => exact .petname p hp
  | none =>
    cases hn : standing U sources members x with
    | some n => exact .standing hp n hn
    | none => exact .anchored ⟨hp, hn⟩

theorem Distinguished.unambiguous (h : Distinguished U sources members) :
    Unambiguous U sources members where
  petnames x hx y hy hne p hp q hq := by
    have hshown := h x hx y hy hne
    rwa [compactNameOf_of_petname hp, compactNameOf_of_petname hq] at hshown
  declared x hx y hy hne p hp hnone n hn := by
    have hshown := h x hx y hy hne
    rwa [compactNameOf_of_petname hp, compactNameOf_of_standing hnone hn] at hshown
  anchors x hx y hy hne p hp hanchored := by
    have hshown := h x hx y hy hne
    rwa [compactNameOf_of_petname hp, compactNameOf_of_anchored hanchored] at hshown
  handles x hx y hy hne hx' hy' := by
    have hshown := h x hx y hy hne
    rwa [compactNameOf_of_anchored hx', compactNameOf_of_anchored hy'] at hshown

theorem Unambiguous.distinguished (h : Unambiguous U sources members) :
    Distinguished U sources members := by
  intro x hx y hy hne
  cases shown U sources members x with
  | petname p hp =>
    rw [compactNameOf_of_petname hp]
    cases shown U sources members y with
    | petname q hq =>
      rw [compactNameOf_of_petname hq]
      exact h.petnames x hx y hy hne p hp q hq
    | standing hnone n hn =>
      rw [compactNameOf_of_standing hnone hn]
      exact h.declared x hx y hy hne p hp hnone n hn
    | anchored hy' =>
      rw [compactNameOf_of_anchored hy']
      exact h.anchors x hx y hy hne p hp hy'
  | standing hnone n hn =>
    rw [compactNameOf_of_standing hnone hn]
    obtain ⟨hasserted, hhandle⟩ := not_comparable_of_standing hn hy hne
    cases shown U sources members y with
    | petname q hq =>
      rw [compactNameOf_of_petname hq]
      exact (h.declared y hy x hx hne.symm q hq hnone n hn).symm
    | standing hnone' n' hn' =>
      rw [compactNameOf_of_standing hnone' hn']
      exact (hasserted n' (Option.filter_eq_some_iff.1 hn').1).symm
    | anchored hy' =>
      rw [compactNameOf_of_anchored hy']
      exact hhandle.symm
  | anchored hx' =>
    rw [compactNameOf_of_anchored hx']
    cases shown U sources members y with
    | petname q hq =>
      rw [compactNameOf_of_petname hq]
      exact (h.anchors y hy x hx hne.symm q hq hx').symm
    | standing hnone' n' hn' =>
      rw [compactNameOf_of_standing hnone' hn']
      exact (not_comparable_of_standing hn' hx hne.symm).2
    | anchored hy' =>
      rw [compactNameOf_of_anchored hy']
      exact h.handles x hx y hy hne hx' hy'

/-- What members call themselves is never a name another member wears or is anchored by: only
petnames and handles can be taken for one another. -/
theorem distinguished_iff : Distinguished U sources members ↔ Unambiguous U sources members :=
  ⟨Distinguished.unambiguous, Unambiguous.distinguished⟩

end

/-- Case mapping and normalisation of ASCII. -/
def ascii : Unicode where
  toLowerCase s := .ofList (s.toList.map Char.toLower)
  nfc := id
  nfkc := id

/-- A reader calls one account Bob, and another account calls itself Bob; or two accounts claim one
handle. -/
theorem declared_names_impersonate :
    let alice := "aaaaaaaaaaaaaaaaaaaaaaaaaaaaaaaa"
    let mallory := "bbbbbbbbbbbbbbbbbbbbbbbbbbbbbbbb"
    (∃ names, Names.empty.setPetname ascii alice "Bob" = .ok names ∧
      ¬ Distinguished ascii (names.absorb ascii mallory "Bob" 1).2.sources [alice, mallory]) ∧
    ¬ Distinguished ascii ((Names.empty.absorbHandle ascii alice "alice_1" 1).2.absorbHandle ascii
      mallory "alice_1" 1).2.sources [alice, mallory] := by
  dsimp only
  refine ⟨⟨_, rfl, fun h => ?_⟩, fun h => ?_⟩
  · exact absurd (h _ (.head _) _ (.tail _ (.head _)) (by decide)) (by decide +kernel)
  · exact absurd (h _ (.head _) _ (.tail _ (.head _)) (by decide)) (by decide +kernel)

end Whispee.Session.Naming
