import Whispee.Text.Link

/-!
# Markdown

`parse` of `apps/web/src/lib/markdown.ts`: the lines of a message are grouped into blocks, and a
block is read by a loop with a stack of the delimiters that are open. What a span holds is read
again from the source when the span closes.
-/

namespace Whispee.Text.Markdown

open CodeUnits Whispee.Text.Link

/-! ## The tree -/

inductive Emphasis where
  | strong | em | strike | spoiler
  deriving DecidableEq

inductive Inline where
  | text (text : Units)
  | span (kind : Emphasis) (children : List Inline)
  | code (text : Units)
  | link (raw : Units)

inductive Block where
  | paragraph (children : List Inline)
  | quote (children : List Inline)
  | code (lang : Option Units) (code : Units)

def MAX_SOURCE : Nat := 64 * 1024
def MAX_NODES : Nat := 2000
def MAX_DEPTH : Nat := 6

mutual

def Inline.count : Inline → Nat
  | .span _ children => 1 + countInline children
  | _ => 1

def countInline : List Inline → Nat
  | [] => 0
  | node :: nodes => node.count + countInline nodes

end

def Block.count : Block → Nat
  | .paragraph children | .quote children => 1 + countInline children
  | .code _ _ => 1

/-- `count` -/
def count (blocks : List Block) : Nat := (blocks.map Block.count).foldr (· + ·) 0

/-! ## A block's worth of markup -/

def BACKSLASH : UInt16 := 0x5C
def BACKQUOTE : UInt16 := 0x60
def NEWLINE : UInt16 := 0x0A

def ESCAPABLE : Units := units "*~|`\\>"

def Emphasis.token : Emphasis → Units
  | .strong => units "**"
  | .strike => units "~~"
  | .spoiler => units "||"
  | .em => units "*"

/-- In the order they are tried. -/
def MARKERS : List Emphasis := [.strong, .strike, .spoiler, .em]

/-- One entry on the delimiter stack. -/
structure Open where
  /-- Which names the marker, too. -/
  kind : Emphasis
  /-- Index just past the opener. -/
  start : Nat
  outLength : Nat

/-- Where the loop of `parseInline` stands; the top of the stack comes first. -/
structure Scan where
  out : List Inline
  stack : List Open
  buffer : Units
  i : Nat

def Scan.flush (s : Scan) : Scan :=
  if s.buffer = [] then s else { s with out := s.out ++ [.text s.buffer], buffer := [] }

def Scan.push (s : Scan) (node : Inline) (i : Nat) : Scan :=
  { s.flush with out := s.flush.out ++ [node], i }

/-- A character that is prose. -/
def Scan.prose (s : Scan) (c : UInt16) (i : Nat) : Scan := { s with buffer := s.buffer ++ [c], i }

def opens (text : Units) (i : Nat) (token : Units) : Bool :=
  text[i + token.length]?.any fun after => !space after && token.head? ≠ some after

def closes (text : Units) (i : Nat) : Bool := 0 < i && text[i - 1]?.any fun before => !space before

/-- The turn at a marker; `inner` reads what a span holds. -/
def delimit (inner : Units → List Inline) (text : Units) (s : Scan) (c : UInt16) (kind : Emphasis) :
    Scan :=
  match if closes text s.i then s.stack.dropWhile (·.kind ≠ kind) else [] with
  | entry :: below =>
    { out := s.flush.out.take entry.outLength ++ [.span kind (inner (slice text entry.start s.i))]
      stack := below
      buffer := []
      i := s.i + kind.token.length }
  | [] =>
    if opens text s.i kind.token then
      { s.flush with
        stack := ⟨kind, s.i + kind.token.length, s.flush.out.length⟩ :: s.stack
        i := s.i + kind.token.length }
    else s.prose c (s.i + 1)

/-- The code span that opens at `i`, if one does: where it closes. -/
def codeEnd (text : Units) (c : UInt16) (i : Nat) : Option Nat :=
  if c = BACKQUOTE then indexOf text [BACKQUOTE] (i + 1) else none

/-- The marker tried at `i`, if there is one and emphasis may nest any deeper. -/
def markerAt (deeper : Option (Units → List Inline)) (text : Units) (i : Nat) :
    Option ((Units → List Inline) × Emphasis) := do
  let kind ← MARKERS.find? fun kind => startsWith text kind.token i
  return (← deeper, kind)

/-- One turn of the loop, at the character `c`. -/
def turn (links : List (Found text)) (deeper : Option (Units → List Inline)) (s : Scan)
    (c : UInt16) : Scan :=
  if c = BACKSLASH then
    match text[s.i + 1]? with
    | some next =>
      if ESCAPABLE.contains next then s.prose next (s.i + 2) else s.prose c (s.i + 1)
    | none => s.prose c (s.i + 1)
  else
    match codeEnd text c s.i with
    | some stop => s.push (.code (slice text (s.i + 1) stop)) (stop + 1)
    | none =>
      match links.find? (·.start = s.i) with
      | some link => s.push (.link link.raw) link.stop
      | none =>
        match markerAt deeper text s.i with
        | some (inner, kind) => delimit inner text s c kind
        | none => s.prose c (s.i + 1)

@[simp] theorem Scan.flush_i (s : Scan) : s.flush.i = s.i := by
  unfold Scan.flush
  split <;> rfl

@[simp] theorem Scan.flush_stack (s : Scan) : s.flush.stack = s.stack := by
  unfold Scan.flush
  split <;> rfl

@[simp] theorem Scan.flush_buffer (s : Scan) : s.flush.buffer = [] := by
  unfold Scan.flush
  split
  · assumption
  · rfl

theorem Emphasis.length_token_pos (kind : Emphasis) : 0 < kind.token.length := by
  cases kind <;> decide

theorem lt_delimit (inner : Units → List Inline) (text : Units) (s : Scan) (c : UInt16)
    (kind : Emphasis) : s.i < (delimit inner text s c kind).i := by
  have hlt := Nat.lt_add_of_pos_right (n := s.i) kind.length_token_pos
  unfold delimit
  split
  · exact hlt
  · split
    · exact hlt
    · exact Nat.lt_succ_self _

theorem codeEnd_eq_some (h : codeEnd text c i = some stop) :
    c = BACKQUOTE ∧ i + 1 ≤ stop ∧ startsWith text [BACKQUOTE] stop = true := by
  unfold codeEnd at h
  split at h
  · obtain ⟨hle, -, hstart, -⟩ := indexOf_eq_some h
    exact ⟨‹_›, hle, hstart⟩
  · cases h

theorem lt_turn (links : List (Found text)) (deeper : Option (Units → List Inline)) (s : Scan)
    (c : UInt16) : s.i < (turn links deeper s c).i := by
  have hone : s.i < s.i + 1 := Nat.lt_succ_self _
  unfold turn
  split
  · split
    · split
      · exact Nat.lt_add_of_pos_right (Nat.zero_lt_two)
      · exact hone
    · exact hone
  · split
    next stop h =>
      exact Nat.lt_succ_of_lt (codeEnd_eq_some h).2.1
    · split
      next link h =>
        have hstart : link.start = s.i := by simpa using List.find?_some h
        have hpos := List.length_pos_of_ne_nil link.nonempty
        change s.i < link.start + link.raw.length
        omega
      · split
        · exact lt_delimit ..
        · exact hone

/-- The loop of `parseInline`. -/
def scan (links : List (Found text)) (deeper : Option (Units → List Inline)) (s : Scan) : Scan :=
  if h : s.i < text.length then scan links deeper (turn links deeper s text[s.i]) else s
termination_by text.length - s.i
decreasing_by
  have hlt := lt_turn links deeper s text[s.i]
  omega

/-- What follows the loop: from the earliest opener that is still open on, all is prose. -/
def finish (text : Units) (s : Scan) : List Inline :=
  match s.stack.getLast? with
  | none => s.flush.out
  | some first =>
    let tail := text.drop (first.start - first.kind.token.length)
    s.flush.out.take first.outLength ++ if tail = [] then [] else [.text tail]

section
variable (classify : Units → Bool)

/-- `parseInline`, where emphasis may nest so many levels deeper. -/
def parseInlineWithin : Nat → Units → List Inline
  | 0, text => finish text (scan (Link.scan classify text) none ⟨[], [], [], 0⟩)
  | levels + 1, text =>
    finish text (scan (Link.scan classify text) (some (parseInlineWithin levels)) ⟨[], [], [], 0⟩)

def parseInline (text : Units) (depth : Nat) : List Inline :=
  parseInlineWithin classify (MAX_DEPTH - depth) text

end

/-! ## Blocks -/

/-- `[A-Za-z0-9_+-]` -/
def langChar (c : UInt16) : Bool :=
  within 0x41 0x5A c || within 0x61 0x7A c || within 0x30 0x39 c || (units "_+-").contains c

/-- `FENCE.exec`: the language of a fence line. -/
def FENCE (line : Units) : Option Units :=
  if startsWith line (units "```") 0 then
    let rest := line.drop 3
    let lang := rest.takeWhile langChar
    if lang.length ≤ 20 ∧ (rest.dropWhile langChar).all (units " \t").contains then some lang
    else none
  else none

/-- `line.replace(QUOTE, "")`, where `QUOTE` matches: the prefix and what follows it. -/
def QUOTE (line : Units) : Option (Units × Units) :=
  if startsWith line (units "> ") 0 then some (units "> ", line.drop 2)
  else if startsWith line (units ">") 0 then some (units ">", line.drop 1)
  else none

def isFence (line : Units) : Bool := (FENCE line).isSome

/-- `toLowerCase`, on the characters a language is of. -/
def toLowerCase (lang : Units) : Units :=
  lang.map fun c => if within 0x41 0x5A c then c + 0x20 else c

/-- `lines.join("\n")` -/
def join (lines : List Units) : Units := [NEWLINE].intercalate lines

section
variable (classify : Units → Bool)

def flushParagraph (paragraph : List Units) : List Block :=
  if paragraph = [] then [] else [.paragraph (parseInline classify (join paragraph) 0)]

def flushQuote (quote : List Units) : List Block :=
  if quote = [] then [] else [.quote (parseInline classify (join quote) 0)]

/-- The blocks the loop of `parseBlocks` has yet to push, with the lines left, the paragraph and the
quote. -/
def blocksFrom (lines paragraph quote : List Units) : List Block :=
  match lines with
  | [] => flushParagraph classify paragraph ++ flushQuote classify quote
  | line :: lines =>
    match FENCE line with
    | some lang =>
      let body := lines.takeWhile (!isFence ·)
      let rest := (lines.dropWhile (!isFence ·)).drop 1
      flushParagraph classify paragraph ++ flushQuote classify quote ++
        .code (if lang = [] then none else some (toLowerCase lang)) (join body) ::
          blocksFrom rest [] []
    | none =>
      match QUOTE line with
      | some (_, rest) =>
        flushParagraph classify paragraph ++ blocksFrom lines [] (quote ++ [rest])
      | none => flushQuote classify quote ++ blocksFrom lines (paragraph ++ [line]) []
termination_by lines.length
decreasing_by
  · have hle := (List.dropWhile_suffix (!isFence ·) (l := lines)).length_le
    rw [List.length_drop, List.length_cons]
    omega
  all_goals exact Nat.lt_succ_self _

def parseBlocks (text : Units) : List Block := blocksFrom classify (text.splitOn NEWLINE) [] []

/-- Reads a whole message. -/
def parse (text : Units) : List Block :=
  if MAX_SOURCE < text.length then [.paragraph [.text text]]
  else
    let blocks := parseBlocks classify text
    if MAX_NODES < count blocks then [.paragraph [.text text]] else blocks

end

end Whispee.Text.Markdown
