import Whispee.Lib.Utf8
import Whispee.Link.Fetch

/-!
# What a page says of itself

`parse_metadata` of `apps/desktop/src/link.rs`, and what it calls. `none` is a panic.
-/

namespace Whispee.Link

open Utf8

abbrev Str := List Char

/-- How much of a document is worth scanning for its own description. -/
def MAX_SCAN : Nat := 128 * 1024

def MAX_TITLE : Nat := 200

def MAX_DESCRIPTION : Nat := 400

structure Metadata where
  title : Option Str := none
  description : Option Str := none
  image : Option Str := none
  deriving DecidableEq

/-! ## The standard library -/

/-- `u8::is_ascii_whitespace` -/
def asciiWhitespace (b : UInt8) : Bool :=
  b = 0x09 || b = 0x0A || b = 0x0C || b = 0x0D || b = 0x20

/-- `char::is_ascii_whitespace` -/
def isAsciiWhitespace (c : Char) : Bool :=
  c = '\t' || c = '\n' || c = '\x0C' || c = '\r' || c = ' '

/-- `char::is_whitespace` -/
def isWhitespace (c : Char) : Bool :=
  let n := c.toNat
  (0x09 ≤ n && n ≤ 0x0D) || n = 0x20 || n = 0x85 || n = 0xA0 || n = 0x1680 ||
    (0x2000 ≤ n && n ≤ 0x200A) || n = 0x2028 || n = 0x2029 || n = 0x202F || n = 0x205F ||
    n = 0x3000

/-- `char::is_control` -/
def isControl (c : Char) : Bool := c.toNat ≤ 0x1F || (0x7F ≤ c.toNat && c.toNat ≤ 0x9F)

/-- `str::to_ascii_lowercase` -/
def toAsciiLowercase (s : Str) : Str := s.map Char.toLower

/-- `s.replace(pattern, text)`, with `skip` characters of the last match still to pass. -/
def replaceFrom (pattern text : Str) : Nat → Str → Str
  | _, [] => []
  | skip + 1, _ :: s => replaceFrom pattern text skip s
  | 0, c :: s =>
    if pattern <+: c :: s then text ++ replaceFrom pattern text (pattern.length - 1) s
    else c :: replaceFrom pattern text 0 s

def replace (s : Str) (pattern text : String) : Str := replaceFrom pattern.toList text.toList 0 s

/-! ## Labels -/

/-- The five entities that appear in real titles, and no more. -/
def decodeEntities (raw : Str) : Str :=
  let s := replace raw "&lt;" "<"
  let s := replace s "&gt;" ">"
  let s := replace s "&quot;" "\""
  let s := replace s "&#39;" "'"
  let s := replace s "&nbsp;" " "
  -- Last, or it would corrupt the others.
  replace s "&amp;" "&"

/-- A control character, or a mark that reorders the text after it. -/
def strip (c : Char) : Bool :=
  let n := c.toNat
  (0x202A ≤ n && n ≤ 0x202E) || (0x2066 ≤ n && n ≤ 0x2069) || n = 0x200E || n = 0x200F ||
    (isControl c && c ≠ '\t')

/-- The loop of `clean`. -/
def collapse : Str → Bool → Str → Str
  | out, _, [] => out
  | out, spaced, c :: s =>
    if strip c then collapse out spaced s
    else if isWhitespace c then collapse out (spaced || !out.isEmpty) s
    else collapse (out ++ (if spaced then [' ', c] else [c])) false s

def clean (raw : Str) (limit : Nat) : Option Str :=
  let out := collapse [] false (decodeEntities raw)
  if out.isEmpty then none
  else if limit < out.length then some (out.take limit ++ ['…'])
  else some out

/-! ## Attributes -/

/-- What a turn of a loop comes to: a `break`, or the next turn at this offset. -/
inductive Flow (σ : Type u) where
  | stop
  | next (i : Nat) (s : σ)

/-- `b'='`, `b'/'` and `b'>'` end a name, as white space does. -/
def nameByte (b : UInt8) : Bool := !(b = 0x3D || b = 0x2F || b = 0x3E) && !asciiWhitespace b

def valueByte (b : UInt8) : Bool := !asciiWhitespace b && b ≠ 0x3E

/-- A turn of the loop of `attributes`. -/
def attributeAt (tag : Str) (i : Nat) (out : List (Str × Str)) :
    Option (Flow (List (Str × Str))) :=
  let bytes := encode tag
  let start := skipWhile asciiWhitespace bytes i
  let i := skipWhile nameByte bytes start
  if start = i then some (.next (i + 1) out)
  else do
    let name ← slice tag start i
    let name := toAsciiLowercase name
    let i := skipWhile asciiWhitespace bytes i
    if bytes[i]? ≠ some 0x3D then some (.next i (out ++ [(name, [])]))
    else
      let i := skipWhile asciiWhitespace bytes (i + 1)
      match bytes[i]? with
      | none => some .stop
      | some b =>
        if b = 0x22 ∨ b = 0x27 then
          let start := i + 1
          let i := skipWhile (· ≠ b) bytes start
          let value ← slice tag start (min i (size tag))
          some (.next (i + 1) (out ++ [(name, value)]))
        else
          let start := i
          let i := skipWhile valueByte bytes start
          let value ← slice tag start (min i (size tag))
          some (.next i (out ++ [(name, value)]))

theorem attributeAt_advances (h : attributeAt tag i out = some (.next i' out')) : i < i' := by
  unfold attributeAt at h
  dsimp only at h
  have hstart := le_skipWhile asciiWhitespace (encode tag) i
  generalize skipWhile asciiWhitespace (encode tag) i = start at h hstart
  have hname := le_skipWhile nameByte (encode tag) start
  generalize skipWhile nameByte (encode tag) start = name at h hname
  split at h
  · cases h
    omega
  · obtain ⟨text, -, h⟩ := Option.bind_eq_some_iff.1 h
    have hequals := le_skipWhile asciiWhitespace (encode tag) name
    generalize skipWhile asciiWhitespace (encode tag) name = equals at h hequals
    split at h
    · cases h
      omega
    · have hvalue := le_skipWhile asciiWhitespace (encode tag) (equals + 1)
      generalize skipWhile asciiWhitespace (encode tag) (equals + 1) = value at h hvalue
      split at h
      · cases h
      · rename_i b _
        split at h
        · have hend := le_skipWhile (· ≠ b) (encode tag) (value + 1)
          obtain ⟨text', -, h⟩ := Option.bind_eq_some_iff.1 h
          cases h
          omega
        · have hend := le_skipWhile valueByte (encode tag) value
          obtain ⟨text', -, h⟩ := Option.bind_eq_some_iff.1 h
          cases h
          omega

def attributesFrom (tag : Str) (i : Nat) (out : List (Str × Str)) : Option (List (Str × Str)) :=
  if i < size tag then
    match _h : attributeAt tag i out with
    | none => none
    | some .stop => some out
    | some (.next i' out') => attributesFrom tag i' out'
  else some out
termination_by size tag - i
decreasing_by
  have := attributeAt_advances _h
  omega

/-- The `name="value"` pairs of an opening tag, lower-cased names, values as written. -/
def attributes (tag : Str) : Option (List (Str × Str)) :=
  attributesFrom tag ((findChar? isWhitespace tag).getD (size tag)) []

/-! ## Tags -/

/-- What a page offers under each of the three conventions. -/
structure Found where
  og : Metadata := {}
  twitter : Metadata := {}
  native : Metadata := {}
  deriving DecidableEq

/-- Whether `rest` opens the named element. -/
def startsWithTag (rest name : Str) : Option Bool :=
  match rest with
  | '<' :: after =>
    if size after < size name then some false
    else (splitAt? after (size name)).map fun (head, tail) =>
      toAsciiLowercase head = toAsciiLowercase name &&
        tail.head?.all fun c => isAsciiWhitespace c || c = '>' || c = '/'
  | _ => some false

/-- The offset just past `needle`, or `none` if it never closes. -/
def skipTo (rest needle : Str) : Option Nat := (find? needle rest).map (· + size needle)

def OPAQUE : List Str := ["script".toList, "style".toList, "template".toList]

/-- The first of the names that `rest` opens. -/
def opened (rest : Str) : List Str → Option (Option Str)
  | [] => some none
  | name :: names => do
    if ← startsWithTag rest name then some (some name) else opened rest names

/-- What is kept of a `<title>`. -/
def noteTitle (rest : Str) (found : Found) : Option Found :=
  match findChar? (· = '>') rest with
  | none => some found
  | some openEnd => do
    let after ← sliceFrom rest (openEnd + 1)
    let text ← match find? "</".toList after with
      | none => some after
      | some stop => sliceTo after stop
    some { found with native.title := clean text MAX_TITLE }

def noteContent (key content : Str) (found : Found) : Found :=
  if key = "og:title".toList then { found with og.title := clean content MAX_TITLE }
  else if key = "og:description".toList then
    { found with og.description := clean content MAX_DESCRIPTION }
  else if key = "og:image".toList then { found with og.image := clean content MAX_DESCRIPTION }
  else if key = "twitter:title".toList then { found with twitter.title := clean content MAX_TITLE }
  else if key = "twitter:description".toList then
    { found with twitter.description := clean content MAX_DESCRIPTION }
  else if key = "twitter:image".toList then
    { found with twitter.image := clean content MAX_DESCRIPTION }
  else if key = "description".toList then
    { found with native.description := clean content MAX_DESCRIPTION }
  else found

/-- What is kept of a `<meta>`. -/
def noteMeta (rest : Str) (found : Found) : Option Found :=
  match findChar? (· = '>') rest with
  | none => some found
  | some openEnd => do
    let attrs ← attributes (← sliceTo rest openEnd)
    let key := (attrs.find? fun (name, _) => name = "property".toList || name = "name".toList).map
      fun (_, value) => toAsciiLowercase value
    let content := (attrs.find? fun (name, _) => name = "content".toList).map Prod.snd
    match key, content with
    | some key, some content => some (noteContent key content found)
    | _, _ => some found

/-- A turn of the loop of `parse_metadata`. -/
def tagAt (source : Str) (i : Nat) (found : Found) : Option (Flow Found) :=
  if (encode source)[i]? ≠ some 0x3C then some (.next (i + 1) found)
  else do
    let rest ← sliceFrom source i
    if "<!--".toList <+: rest then
      some (.next (i + (skipTo rest "-->".toList).getD (size rest)) found)
    else if ← startsWithTag rest "/head".toList then some .stop
    else match ← opened rest OPAQUE with
      | some name =>
        some (.next (i + (skipTo rest ("</".toList ++ name)).getD (size rest)) found)
      | none =>
        if ← startsWithTag rest "title".toList then
          some (.next (i + 1) (← noteTitle rest found))
        else if ← startsWithTag rest "meta".toList then
          some (.next (i + 1) (← noteMeta rest found))
        else some (.next (i + 1) found)

theorem pos_of_skipTo (hneedle : needle ≠ []) (hrest : rest ≠ []) :
    0 < (skipTo rest needle).getD (size rest) := by
  cases h : skipTo rest needle with
  | none => exact Nat.pos_of_ne_zero fun hzero => hrest (size_eq_zero_iff.1 hzero)
  | some n =>
    obtain ⟨m, -, rfl⟩ := Option.map_eq_some_iff.1 h
    exact Nat.add_pos_right m (Nat.pos_of_ne_zero fun hzero => hneedle (size_eq_zero_iff.1 hzero))

theorem split_of_byte (h : (encode source)[i]? = some 0x3C) :
    ∃ before after, source = before ++ '<' :: after ∧ size before = i := by
  obtain ⟨before, c, after, rfl, hi, hc⟩ := ascii_byte h (by decide)
  have hopen : c = '<' := Char.toNat_inj.1 (hc.trans (by decide))
  exact ⟨before, after, hopen ▸ rfl, hi⟩

theorem tagAt_advances (h : tagAt source i found = some (.next i' found')) : i < i' := by
  unfold tagAt at h
  split at h
  · cases h
    exact Nat.lt_succ_self i
  · rename_i hbyte
    obtain ⟨rest, hrest, h⟩ := Option.bind_eq_some_iff.1 h
    have hne : rest ≠ [] := by
      obtain ⟨before, after, rfl, rfl⟩ := split_of_byte (not_not.1 hbyte)
      rw [sliceFrom_append] at hrest
      cases hrest
      exact List.cons_ne_nil _ _
    split at h
    · cases h
      exact Nat.lt_add_of_pos_right (pos_of_skipTo (by decide) hne)
    · obtain ⟨closed, -, h⟩ := Option.bind_eq_some_iff.1 h
      split at h
      · cases h
      · obtain ⟨name, -, h⟩ := Option.bind_eq_some_iff.1 h
        split at h
        · cases h
          exact Nat.lt_add_of_pos_right (pos_of_skipTo (List.cons_ne_nil _ _) hne)
        · obtain ⟨titled, -, h⟩ := Option.bind_eq_some_iff.1 h
          split at h
          · obtain ⟨noted, -, h⟩ := Option.bind_eq_some_iff.1 h
            cases h
            exact Nat.lt_succ_self i
          · obtain ⟨meta_, -, h⟩ := Option.bind_eq_some_iff.1 h
            split at h
            · obtain ⟨noted, -, h⟩ := Option.bind_eq_some_iff.1 h
              cases h
              exact Nat.lt_succ_self i
            · cases h
              exact Nat.lt_succ_self i

/-- The loop of `parse_metadata`. -/
def scan (source : Str) (i : Nat) (found : Found) : Option Found :=
  if i < size source then
    match _h : tagAt source i found with
    | none => none
    | some .stop => some found
    | some (.next i' found') => scan source i' found'
  else some found
termination_by size source - i
decreasing_by
  have := tagAt_advances _h
  omega

/-- The last of the offsets that are on a boundary, up to the cap. -/
def cap (html : Str) : Nat :=
  ((List.range (min (size html) MAX_SCAN + 1)).reverse.find? (Boundary html)).getD 0

/-- Reads a document's own description of itself, without executing anything. -/
def parseMetadata {Url : Type u} (urls : UrlCrate Url) (html : String) (base : Url) :
    Option Metadata := do
  let source ← sliceTo html.toList (cap html.toList)
  let found ← scan source 0 {}
  let image := found.og.image.or found.twitter.image
  some
    { title := (found.og.title.or found.twitter.title).or found.native.title
      description :=
        (found.og.description.or found.twitter.description).or found.native.description
      image := ((image.bind fun candidate => urls.join base (String.ofList candidate)).filter
        fun resolved => (validate urls (urls.asStr resolved)).isOk).map
          fun resolved => (urls.asStr resolved).toList }

/-! ## Where nothing panics -/

theorem asciiWhitespace_lt (b : UInt8) (h : asciiWhitespace b = true) : b < 128 := by
  simp only [asciiWhitespace, Bool.or_eq_true, decide_eq_true_eq] at h
  obtain (((rfl | rfl) | rfl) | rfl) | rfl := h <;> decide

theorem delimiter_lt (b : UInt8) (h : nameByte b = false) : b < 128 := by
  simp only [nameByte, Bool.and_eq_false_iff, Bool.not_eq_false', Bool.or_eq_true,
    decide_eq_true_eq] at h
  obtain ((rfl | rfl) | rfl) | h := h
  · decide
  · decide
  · decide
  · exact asciiWhitespace_lt b h

theorem valueEnd_lt (b : UInt8) (h : valueByte b = false) : b < 128 := by
  simp only [valueByte, Bool.and_eq_false_iff, Bool.not_eq_false', decide_eq_false_iff_not,
    ne_eq, not_not] at h
  obtain h | rfl := h
  · exact asciiWhitespace_lt b h
  · decide

theorem slice_eq_some (hi : Boundary tag i) (hj : Boundary tag j) (h : i ≤ j) :
    ∃ text, slice tag i j = some text :=
  Option.isSome_iff_exists.1 (isSome_slice hi hj h)

/-- Every turn of `attributes` starts on a boundary, if there is a byte left. -/
theorem attributeAt_isSome (hi : Boundary tag i) (out : List (Str × Str)) :
    ∃ flow, attributeAt tag i out = some flow ∧
      ∀ i' out', flow = .next i' out' → i' < size tag → Boundary tag i' := by
  unfold attributeAt
  dsimp only
  have hstart := hi.skipWhile asciiWhitespace_lt
  generalize skipWhile asciiWhitespace (encode tag) i = start at hstart ⊢
  have hname : Boundary tag (skipWhile nameByte (encode tag) start) :=
    boundary_skipWhile hstart.le delimiter_lt
  split
  · refine ⟨_, rfl, fun i' out' h hlt => ?_⟩
    cases h
    exact boundary_skipWhile_succ delimiter_lt (Nat.lt_of_succ_lt hlt)
  · obtain ⟨name, hslice⟩ := slice_eq_some hstart hname (le_skipWhile ..)
    rw [hslice, Option.bind_eq_bind, Option.bind_some]
    have hequals := hname.skipWhile asciiWhitespace_lt
    generalize skipWhile asciiWhitespace (encode tag) _ = equals at hequals ⊢
    split
    · refine ⟨_, rfl, fun i' out' h _ => ?_⟩
      cases h
      exact hequals
    · rename_i hbyte
      have hvalue := (boundary_of_ascii (not_not.1 hbyte) (by decide)).2.skipWhile
        asciiWhitespace_lt
      generalize skipWhile asciiWhitespace (encode tag) (equals + 1) = value at hvalue ⊢
      split
      · exact ⟨_, rfl, fun _ _ h => (nomatch h)⟩
      · rename_i b hb
        split
        · rename_i hquote
          have hascii : b < 128 := by
            obtain rfl | rfl := hquote <;> decide
          have hends : ∀ b', decide (b' ≠ b) = false → b' < 128 := fun b' h =>
            not_not.1 (of_decide_eq_false h) ▸ hascii
          have hopen := (boundary_of_ascii hb hascii).2
          have hclose := boundary_skipWhile (p := (· ≠ b)) hopen.le hends
          rw [Nat.min_eq_left hclose.le]
          obtain ⟨text, htext⟩ := slice_eq_some hopen hclose (le_skipWhile ..)
          rw [htext, Option.bind_some]
          refine ⟨_, rfl, fun i' out' h hlt => ?_⟩
          cases h
          exact boundary_skipWhile_succ hends (Nat.lt_of_succ_lt hlt)
        · have hend := boundary_skipWhile (p := valueByte) hvalue.le valueEnd_lt
          rw [Nat.min_eq_left hend.le]
          obtain ⟨text, htext⟩ := slice_eq_some hvalue hend (le_skipWhile ..)
          rw [htext, Option.bind_some]
          refine ⟨_, rfl, fun i' out' h _ => ?_⟩
          cases h
          exact hend

theorem attributesFrom_isSome (hi : i < size tag → Boundary tag i) :
    (attributesFrom tag i out).isSome = true := by
  induction i, out using attributesFrom.induct tag with
  | case1 i out hlt hnone =>
    obtain ⟨flow, hflow, -⟩ := attributeAt_isSome (hi hlt) out
    rw [hnone] at hflow
    cases hflow
  | case2 i out hlt hstop =>
    rw [attributesFrom, if_pos hlt]
    split <;> simp_all
  | case3 i out hlt i' out' hnext ih =>
    obtain ⟨flow, hflow, hboundary⟩ := attributeAt_isSome (hi hlt) out
    rw [attributesFrom, if_pos hlt]
    split <;> simp_all
  | case4 i out hge =>
    rw [attributesFrom, if_neg hge]
    rfl

theorem attributes_isSome (tag : Str) : (attributes tag).isSome = true := by
  unfold attributes
  cases h : findChar? isWhitespace tag with
  | none => exact attributesFrom_isSome fun hlt => absurd hlt (Nat.lt_irrefl _)
  | some n =>
    obtain ⟨a, c, b, rfl, rfl, -⟩ := findChar?_eq_some h
    exact attributesFrom_isSome fun _ => ⟨a, _, rfl, rfl⟩

theorem noteMeta_isSome (rest : Str) (found : Found) :
    (noteMeta rest found).isSome = true := by
  unfold noteMeta
  split
  · rfl
  · rename_i openEnd hopen
    obtain ⟨a, c, b, rfl, rfl, -⟩ := findChar?_eq_some hopen
    obtain ⟨attrs, hattrs⟩ := Option.isSome_iff_exists.1 (attributes_isSome a)
    rw [sliceTo_append]
    simp only [Option.bind_eq_bind, Option.bind_some, hattrs]
    split <;> rfl

theorem noteTitle_isSome (rest : Str) (found : Found) :
    (noteTitle rest found).isSome = true := by
  unfold noteTitle
  split
  · rfl
  · rename_i openEnd hopen
    obtain ⟨a, c, b, rfl, rfl, hc⟩ := findChar?_eq_some hopen
    cases of_decide_eq_true hc
    have hafter : sliceFrom (a ++ '>' :: b) (size a + 1) = some b := by
      rw [List.append_cons, ← sliceFrom_append (a := a ++ ['>']), size_append]
      rfl
    rw [hafter]
    simp only [Option.bind_eq_bind, Option.bind_some]
    split
    · rfl
    · rename_i stop hstop
      obtain ⟨text, hb, rfl⟩ := find?_eq_some hstop
      rw [List.append_assoc] at hb
      rw [hb, sliceTo_append]
      rfl

/-! ## Where something does -/

/-- Whether a text that begins with `<` opens the named element, by its characters. -/
def opens (rest name : Str) : Bool :=
  toAsciiLowercase (rest.tail.take name.length) = name &&
    (rest.tail.drop name.length).head?.all fun c => isAsciiWhitespace c || c = '>' || c = '/'

/-- In the order they are tested. -/
def NAMES : List Str := "/head".toList :: (OPAQUE ++ ["title".toList, "meta".toList])

/-- What follows the `<` is shorter than the name, or has a character that ends where a name
would. -/
def Aligned (rest name : Str) : Prop :=
  name.length ≤ size rest.tail → Boundary rest.tail name.length

/-- As far as the names are tested: up to one that is opened. -/
def AllAligned (rest : Str) : List Str → Prop
  | [] => True
  | name :: names => Aligned rest name ∧ (opens rest name = false → AllAligned rest names)

/-- The `<` at which names are tested, each with the text from there on. -/
def tested : Str → List Str
  | [] => []
  | c :: s =>
    if c ≠ '<' then tested s
    else if "<!--".toList <+: c :: s then tested (past "-->".toList (c :: s))
    else if opens (c :: s) "/head".toList then [c :: s]
    else match OPAQUE.find? (opens (c :: s)) with
      | some name => (c :: s) :: tested (past ("</".toList ++ name) (c :: s))
      | none => (c :: s) :: tested s
termination_by s => s.length
decreasing_by
  · exact Nat.lt_succ_self _
  · exact Nat.lt_succ_of_le (length_past_lt (by decide))
  · exact Nat.lt_succ_of_le (length_past_lt (List.cons_ne_nil _ _))
  · exact Nat.lt_succ_self _

theorem toLower_lt {c : Char} (h : c.toLower.toNat < 128) : c.toNat < 128 := by
  unfold Char.toLower at h
  split at h
  · rename_i hupper
    exact Nat.lt_of_le_of_lt (UInt32.le_iff_toNat_le.1 hupper.2) (by decide)
  · exact h

/-- A name as the source writes them. -/
def Plain (name : Str) : Prop := toAsciiLowercase name = name ∧ ∀ c ∈ name, c.toNat < 128

theorem plain_of_mem : ∀ name ∈ NAMES, Plain name := by
  simp [NAMES, OPAQUE, Plain, toAsciiLowercase]

theorem size_of_lower {head name : Str} (hname : Plain name) (h : toAsciiLowercase head = name) :
    size head = name.length := by
  have hascii : ∀ c ∈ head, c.toNat < 128 := fun c hc =>
    toLower_lt (hname.2 _ (h ▸ List.mem_map_of_mem hc))
  rw [size_of_ascii hascii, ← h, toAsciiLowercase, List.length_map]

theorem startsWithTag_eq_none (hname : Plain name) (h : ¬ Aligned ('<' :: after) name) :
    startsWithTag ('<' :: after) name = none := by
  obtain ⟨hle, hinside⟩ := Classical.not_imp.1 h
  rw [List.tail_cons] at hle hinside
  rw [startsWithTag, size_of_ascii hname.2, if_neg (Nat.not_lt.2 hle)]
  rw [boundary_iff, Option.not_isSome_iff_eq_none] at hinside
  rw [hinside]
  rfl

theorem startsWithTag_eq_some (hname : Plain name) (h : Aligned ('<' :: after) name) :
    startsWithTag ('<' :: after) name = some (opens ('<' :: after) name) := by
  have hopened : toAsciiLowercase (after.take name.length) = name →
      splitAt? after name.length = some (after.take name.length, after.drop name.length) :=
    fun h => splitAt?_eq_some_iff.2 ⟨(List.take_append_drop ..).symm, size_of_lower hname h⟩
  rw [startsWithTag, size_of_ascii hname.2, opens, List.tail_cons]
  split
  · rename_i hshort
    have hother : toAsciiLowercase (after.take name.length) ≠ name := fun h => by
      obtain ⟨happend, hsize⟩ := splitAt?_eq_some_iff.1 (hopened h)
      have hle := congrArg size happend
      rw [size_append, hsize] at hle
      omega
    rw [decide_eq_false hother]
    rfl
  · rename_i hlong
    obtain ⟨⟨head, tail⟩, hsplit⟩ :=
      Option.isSome_iff_exists.1 (boundary_iff.1 (h (Nat.not_lt.1 hlong)))
    rw [List.tail_cons] at hsplit
    rw [hsplit]
    refine congrArg some ?_
    dsimp only
    by_cases hhead : toAsciiLowercase head = name
    · have hlength : head.length = name.length := by
        rw [← hhead, toAsciiLowercase, List.length_map]
      obtain ⟨rfl, -⟩ := splitAt?_eq_some_iff.1 hsplit
      rw [List.take_left' hlength, List.drop_left' hlength, hname.1]
    · have hother : toAsciiLowercase (after.take name.length) ≠ name := fun h => by
        rw [hopened h] at hsplit
        cases hsplit
        exact hhead h
      rw [decide_eq_false hother, hname.1, decide_eq_false hhead]
      rfl

theorem startsWithTag_cases (after : Str) (hname : Plain name) :
    (¬ Aligned ('<' :: after) name ∧ startsWithTag ('<' :: after) name = none) ∨
      Aligned ('<' :: after) name ∧
        startsWithTag ('<' :: after) name = some (opens ('<' :: after) name) := by
  by_cases h : Aligned ('<' :: after) name
  · exact .inr ⟨h, startsWithTag_eq_some hname h⟩
  · exact .inl ⟨h, startsWithTag_eq_none hname h⟩

theorem opened_cases (after : Str) (hnames : ∀ name ∈ names, Plain name) :
    (¬ AllAligned ('<' :: after) names ∧ opened ('<' :: after) names = none) ∨
      AllAligned ('<' :: after) names ∧
        opened ('<' :: after) names = some (names.find? (opens ('<' :: after))) := by
  induction names with
  | nil => exact .inr ⟨trivial, rfl⟩
  | cons name names ih =>
    rw [opened, List.find?_cons, AllAligned]
    obtain ⟨hname, hnames⟩ := List.forall_mem_cons.1 hnames
    rcases startsWithTag_cases after hname with ⟨h, hnone⟩ | ⟨h, hsome⟩
    · exact .inl ⟨fun hall => h hall.1, by rw [hnone]; rfl⟩
    · rw [hsome]
      cases hopens : opens ('<' :: after) name with
      | true => exact .inr ⟨⟨h, fun hfalse => (nomatch hfalse)⟩, rfl⟩
      | false =>
        rcases ih hnames with ⟨hrest, hnone⟩ | ⟨hrest, hsome⟩
        · exact .inl ⟨fun hall => hrest (hall.2 rfl), hnone⟩
        · exact .inr ⟨⟨h, fun _ => hrest⟩, hsome⟩

theorem allAligned_append : AllAligned rest (names ++ names') ↔
    AllAligned rest names ∧ (names.find? (opens rest) = none → AllAligned rest names') := by
  induction names with
  | nil => exact ⟨fun h => ⟨trivial, fun _ => h⟩, fun h => h.2 rfl⟩
  | cons name names ih =>
    rw [List.cons_append, AllAligned, AllAligned, List.find?_cons, ih]
    cases opens rest name with
    | true => simp
    | false => simp [and_assoc]

theorem scan_of_none (hi : i < size source) (h : tagAt source i found = none) :
    scan source i found = none := by
  rw [scan, if_pos hi]
  split <;> rename_i hturn <;> rw [h] at hturn <;> cases hturn

theorem scan_of_stop (hi : i < size source) (h : tagAt source i found = some .stop) :
    scan source i found = some found := by
  rw [scan, if_pos hi]
  split <;> rename_i hturn <;> rw [h] at hturn <;> cases hturn

theorem scan_of_next (hi : i < size source) (h : tagAt source i found = some (.next i' found')) :
    scan source i found = scan source i' found' := by
  rw [scan, if_pos hi]
  split <;> rename_i hturn <;> rw [h] at hturn <;> cases hturn
  rfl

/-- The bytes up to a `<` are stepped over. -/
theorem scan_skip (hsize : i + n ≤ size source)
    (h : ∀ j, i ≤ j → j < i + n → (encode source)[j]? ≠ some 0x3C) :
    scan source i found = scan source (i + n) found := by
  induction n generalizing i with
  | zero => rfl
  | succ n ih =>
    have hstep : tagAt source i found = some (.next (i + 1) found) :=
      if_pos (h i (Nat.le_refl i) (Nat.lt_add_of_pos_right (Nat.succ_pos n)))
    have hrest := ih (i := i + 1) (by omega) fun j hj hlt => h j (by omega) (by omega)
    rw [scan_of_next (by omega) hstep, hrest, Nat.add_right_comm, Nat.add_assoc]

theorem scan_char (hc : c ≠ '<') :
    scan (before ++ c :: after) (size before) found =
      scan (before ++ c :: after) (size (before ++ [c])) found := by
  rw [size_append, size_cons, size_nil, Nat.add_zero]
  refine scan_skip (by simp) fun j hle hlt hbyte => ?_
  rw [encode_append, List.getElem?_append_right (by rwa [length_encode]), length_encode,
    encode_cons, List.getElem?_append_left (by rw [String.length_utf8EncodeChar]; omega)] at hbyte
  have hmem := List.mem_of_getElem? hbyte
  by_cases hascii : c.toNat < 128
  · rw [Utf8.utf8EncodeChar_of_ascii hascii] at hmem
    have hval := congrArg UInt8.toNat (List.mem_singleton.1 hmem)
    have hsmall : c.val.toNat < 2 ^ 8 := Nat.lt_trans hascii (by decide)
    rw [UInt32.toNat_toUInt8, Nat.mod_eq_of_lt hsmall] at hval
    exact hc (Char.toNat_inj.1 hval.symm)
  · exact absurd (le_of_mem_utf8EncodeChar (Nat.le_of_not_lt hascii) _ hmem) (by decide)


/-- What the turn at a `<` comes to. -/
inductive Turned (i : Nat) (rest : Str) (found : Found) : Option (Flow Found) → Prop where
  | comment : "<!--".toList <+: rest →
    Turned i rest found (some (.next (i + (skipTo rest "-->".toList).getD (size rest)) found))
  | inside : ¬ "<!--".toList <+: rest → ¬ AllAligned rest NAMES → Turned i rest found none
  | closed : ¬ "<!--".toList <+: rest → AllAligned rest NAMES →
    opens rest "/head".toList = true → Turned i rest found (some .stop)
  | skipped : ¬ "<!--".toList <+: rest → AllAligned rest NAMES →
    opens rest "/head".toList = false → OPAQUE.find? (opens rest) = some name →
    Turned i rest found
      (some (.next (i + (skipTo rest ("</".toList ++ name)).getD (size rest)) found))
  | noted : ¬ "<!--".toList <+: rest → AllAligned rest NAMES →
    opens rest "/head".toList = false → OPAQUE.find? (opens rest) = none →
    Turned i rest found (some (.next (i + 1) found'))

theorem tagAt_open : Turned (size before) ('<' :: after) found
    (tagAt (before ++ '<' :: after) (size before) found) := by
  have hbyte : (encode (before ++ '<' :: after))[size before]? = some 0x3C := by
    rw [encode_append, List.getElem?_append_right (by rw [length_encode]), length_encode,
      Nat.sub_self]
    rfl
  obtain ⟨hhead, hlast⟩ := List.forall_mem_cons.1 plain_of_mem
  obtain ⟨hskips, hlast⟩ := List.forall_mem_append.1 hlast
  obtain ⟨htitle, hmeta⟩ := List.forall_mem_cons.1 hlast
  have hall : AllAligned ('<' :: after) NAMES ↔ Aligned ('<' :: after) "/head".toList ∧
      (opens ('<' :: after) "/head".toList = false → AllAligned ('<' :: after) OPAQUE ∧
        (OPAQUE.find? (opens ('<' :: after)) = none → Aligned ('<' :: after) "title".toList ∧
          (opens ('<' :: after) "title".toList = false →
            Aligned ('<' :: after) "meta".toList))) := by
    rw [NAMES, AllAligned, allAligned_append]
    simp only [AllAligned, implies_true, and_true]
  rw [tagAt, if_neg (not_not.2 hbyte), sliceFrom_append, Option.bind_eq_bind, Option.bind_some]
  split
  · exact .comment ‹_›
  · rename_i hcomment
    rcases startsWithTag_cases after hhead with ⟨h, hnone⟩ | ⟨haligned, hsome⟩
    · rw [hnone]
      exact .inside hcomment fun h' => h (hall.1 h').1
    · simp only [hsome, Option.bind_eq_bind, Option.bind_some]
      cases hopens : opens ('<' :: after) "/head".toList with
      | true =>
        refine .closed hcomment (hall.2 ⟨haligned, fun h => ?_⟩) hopens
        rw [hopens] at h
        cases h
      | false =>
        rw [if_neg Bool.false_ne_true]
        rcases opened_cases after hskips with ⟨h, hnone⟩ | ⟨hskipped, hsome⟩
        · rw [hnone]
          exact .inside hcomment fun h' => h ((hall.1 h').2 hopens).1
        · rw [hsome, Option.bind_some]
          split
          · rename_i name hname
            refine .skipped hcomment (hall.2 ⟨haligned, fun _ => ⟨hskipped, fun h => ?_⟩⟩) hopens
              hname
            rw [hname] at h
            cases h
          · rename_i hother
            rcases startsWithTag_cases after htitle with ⟨h, hnone⟩ | ⟨htitled, hsome⟩
            · rw [hnone]
              exact .inside hcomment fun h' => h (((hall.1 h').2 hopens).2 hother).1
            · rw [hsome, Option.bind_some]
              have hnoted : (opens ('<' :: after) "title".toList = false →
                  Aligned ('<' :: after) "meta".toList) → AllAligned ('<' :: after) NAMES :=
                fun hdescribed =>
                  hall.2 ⟨haligned, fun _ => ⟨hskipped, fun _ => ⟨htitled, hdescribed⟩⟩⟩
              split
              · rename_i htitle
                obtain ⟨found', hfound⟩ := Option.isSome_iff_exists.1
                  (noteTitle_isSome ('<' :: after) found)
                rw [hfound]
                refine .noted hcomment (hnoted fun h => ?_) hopens hother
                rw [htitle] at h
                cases h
              · rename_i htitle
                rcases startsWithTag_cases after (hmeta _ List.mem_cons_self) with
                  ⟨h, hnone⟩ | ⟨hdescribed, hsome⟩
                · rw [hnone]
                  exact .inside hcomment fun h' =>
                    h ((((hall.1 h').2 hopens).2 hother).2 (Bool.eq_false_iff.2 htitle))
                · rw [hsome, Option.bind_some]
                  split
                  · obtain ⟨found', hfound⟩ := Option.isSome_iff_exists.1
                      (noteMeta_isSome ('<' :: after) found)
                    rw [hfound]
                    exact .noted hcomment (hnoted fun _ => hdescribed) hopens hother
                  · exact .noted hcomment (hnoted fun _ => hdescribed) hopens hother

theorem scan_isSome_iff : (scan (before ++ s) (size before) found).isSome = true ↔
    ∀ rest ∈ tested s, AllAligned rest NAMES := by
  induction h : s.length using Nat.strong_induction_on generalizing s before found with
  | _ length ih =>
  cases s with
  | nil =>
    rw [List.append_nil, scan, if_neg (Nat.lt_irrefl _), tested]
    exact iff_of_true rfl fun _ h => (nomatch h)
  | cons c s =>
    have hi : size before < size (before ++ c :: s) := by
      have hc := c.utf8Size_pos
      rw [size_append, size_cons]
      omega
    have hnext : ∀ found', (scan (before ++ c :: s) (size (before ++ [c])) found').isSome = true ↔
        ∀ rest ∈ tested s, AllAligned rest NAMES := fun found' => by
      rw [List.append_cons]
      exact ih s.length (h ▸ Nat.lt_succ_self _) rfl
    have hpast : ∀ needle, needle ≠ [] → ∀ found',
        (scan (before ++ c :: s) (size before + (skipTo (c :: s) needle).getD (size (c :: s)))
          found').isSome = true ↔ ∀ rest ∈ tested (past needle (c :: s)), AllAligned rest NAMES :=
      fun needle hneedle found' => by
        obtain ⟨consumed, hs, hsize⟩ := past_split needle (c :: s)
        have hlt : (past needle (c :: s)).length < length :=
          h ▸ Nat.lt_succ_of_le (length_past_lt hneedle)
        rw [skipTo, ← hsize, ← size_append]
        conv_lhs => rw [hs, ← List.append_assoc]
        exact ih _ hlt rfl
    by_cases hc : c = '<'
    · subst hc
      rw [tested, if_neg (not_not.2 rfl)]
      have hturned : Turned (size before) ('<' :: s) found
          (tagAt (before ++ '<' :: s) (size before) found) := tagAt_open
      generalize hflow : tagAt (before ++ '<' :: s) (size before) found = flow at hturned
      have hopen : size (before ++ ['<']) = size before + 1 := size_append
      cases hturned with
      | comment hcomment =>
        rw [scan_of_next hi hflow, if_pos hcomment]
        exact hpast _ (by decide) _
      | inside hcomment hall =>
        rw [scan_of_none hi hflow, if_neg hcomment]
        refine iff_of_false Bool.false_ne_true fun h => hall (h _ ?_)
        split
        · exact List.mem_cons_self
        · split <;> exact List.mem_cons_self
      | closed hcomment hall hclosed =>
        rw [scan_of_stop hi hflow, if_neg hcomment, if_pos hclosed, List.forall_mem_singleton]
        exact iff_of_true rfl hall
      | @skipped name hcomment hall hopens hname =>
        rw [scan_of_next hi hflow, if_neg hcomment, if_neg (Bool.eq_false_iff.1 hopens), hname,
          hpast ("</".toList ++ name) (List.cons_ne_nil _ _), List.forall_mem_cons,
          and_iff_right hall]
      | noted hcomment hall hopens hother =>
        rw [scan_of_next hi hflow, if_neg hcomment, if_neg (Bool.eq_false_iff.1 hopens), hother,
          ← hopen, hnext, List.forall_mem_cons, and_iff_right hall]
    · rw [scan_char hc, hnext, tested, if_pos hc]

theorem sliceTo_cap : sliceTo html (cap html) = some (truncate MAX_SCAN html) := by
  obtain ⟨rest, hhtml⟩ := truncate_prefix html MAX_SCAN
  have hboundary : Boundary html (size (truncate MAX_SCAN html)) := ⟨_, rest, hhtml, rfl⟩
  have hcap : cap html = size (truncate MAX_SCAN html) := by
    have hlast := find?_reverse_range (p := (Boundary html ·)) (decide_eq_true hboundary)
      (Nat.le_min.2 ⟨hboundary.le, size_truncate_le⟩) fun n hn h =>
        (of_decide_eq_true h).le_size_truncate (Nat.le_trans hn (Nat.min_le_right ..))
    rw [cap, hlast]
    rfl
  rw [hcap, sliceTo, splitAt?_eq_some_iff.2 ⟨hhtml, rfl⟩]
  rfl

/-- `parse_metadata` returns if, at each `<` where it tests names, each name it tests ends where a
character of the text does, or past the text. -/
theorem parseMetadata_returns_iff {Url : Type u} (urls : UrlCrate Url) (html : String)
    (base : Url) : (parseMetadata urls html base).isSome = true ↔
      ∀ rest ∈ tested (truncate MAX_SCAN html.toList), AllAligned rest NAMES := by
  have hscan : (scan (truncate MAX_SCAN html.toList) 0 {}).isSome = true ↔
      ∀ rest ∈ tested (truncate MAX_SCAN html.toList), AllAligned rest NAMES :=
    show (scan ([] ++ _) (size []) {}).isSome = true ↔ _ from scan_isSome_iff
  rw [parseMetadata, sliceTo_cap, Option.bind_eq_bind, Option.bind_some, ← hscan]
  cases scan (truncate MAX_SCAN html.toList) 0 {} <;> rfl

/-- The fifth byte after the `<` is inside the second character. -/
theorem page_panics :
    parseMetadata exampleUrls "<日本語>" "https://example.com/" = none := by
  decide +kernel

end Whispee.Link
