import Whispee.Lib.CodeUnits

/-!
# Colouring a code block

`tokenize` of `apps/web/src/lib/highlight.ts` and the grammars it reads. A grammar carries what
makes the scanner move on at every turn: no opener is empty, and none of a line comment is the line
break that ends it.
-/

namespace Whispee.Text.Highlight

open CodeUnits

inductive Kind where
  | comment
  | string
  | keyword
  | number
  | punct
  | plain
  deriving DecidableEq

structure Token where
  kind : Kind
  text : Units
  deriving DecidableEq

/-- Longest block that is coloured at all. -/
def MAX_HIGHLIGHT : Nat := 20000

/-- Most tokens a block may produce before it is given up on. -/
def MAX_TOKENS : Nat := 5000

structure StringRule where
  opener : Units
  closer : Units
  /-- What neutralises the closer. -/
  escape : Option Units

structure Grammar where
  lineComment : List Units
  blockComment : List (Units × Units)
  strings : List StringRule
  keywords : List Units
  lineComment_begins : ∀ o ∈ lineComment, o ≠ [] ∧ o.head? ≠ some 0x0A
  blockComment_ne : ∀ b ∈ blockComment, b.1 ≠ []
  strings_ne : ∀ rule ∈ strings, rule.opener ≠ []

/-! ## The grammars -/

def words (list : String) : List Units := (units list).splitOn 0x20

def DOUBLE : StringRule := ⟨units "\"", units "\"", some (units "\\")⟩

def SINGLE : StringRule := ⟨units "'", units "'", some (units "\\")⟩

def QUOTES : List StringRule := [DOUBLE, SINGLE]

def ts : Grammar where
  lineComment := [units "//"]
  blockComment := [(units "/*", units "*/")]
  strings := QUOTES ++ [⟨units "`", units "`", some (units "\\")⟩]
  keywords := words <|
    "abstract as async await break case catch class const continue declare default delete do " ++
    "else enum export extends false finally for from function get if implements import in " ++
    "instanceof interface is keyof let new null of private protected public readonly return " ++
    "satisfies set static super switch this throw true try type typeof undefined var void " ++
    "while yield"
  lineComment_begins := by decide
  blockComment_ne := by decide
  strings_ne := by simp [QUOTES, DOUBLE, SINGLE, units]

def rust : Grammar where
  lineComment := [units "//"]
  blockComment := [(units "/*", units "*/")]
  strings := [DOUBLE]
  keywords := words <|
    "as async await break const continue crate dyn else enum extern false fn for if impl in let " ++
    "loop match mod move mut pub ref return self Self static struct super trait true type " ++
    "unsafe use where while"
  lineComment_begins := by decide
  blockComment_ne := by decide
  strings_ne := by simp [DOUBLE, units]

def python : Grammar where
  lineComment := [units "#"]
  blockComment := []
  strings := [⟨units "\"\"\"", units "\"\"\"", none⟩, ⟨units "'''", units "'''", none⟩] ++ QUOTES
  keywords := words <|
    "and as assert async await break class continue def del elif else except False finally for " ++
    "from global if import in is lambda None nonlocal not or pass raise return True try while " ++
    "with yield"
  lineComment_begins := by decide
  blockComment_ne := by decide
  strings_ne := by simp [QUOTES, DOUBLE, SINGLE, units]

def go : Grammar where
  lineComment := [units "//"]
  blockComment := [(units "/*", units "*/")]
  strings := QUOTES ++ [⟨units "`", units "`", none⟩]
  keywords := words <|
    "break case chan const continue default defer else fallthrough for func go goto if import " ++
    "interface map package range return select struct switch type var nil true false"
  lineComment_begins := by decide
  blockComment_ne := by decide
  strings_ne := by simp [QUOTES, DOUBLE, SINGLE, units]

def json : Grammar where
  lineComment := []
  blockComment := []
  strings := [DOUBLE]
  keywords := words "true false null"
  lineComment_begins := by decide
  blockComment_ne := by decide
  strings_ne := by simp [DOUBLE, units]

def sql : Grammar where
  lineComment := [units "--"]
  blockComment := [(units "/*", units "*/")]
  strings := [SINGLE]
  keywords := words <|
    "add all alter and as asc between by case create delete desc distinct drop else end exists " ++
    "from full group having if in index inner insert into is join left limit not null on or " ++
    "order outer primary references right select set table then union unique update values where"
  lineComment_begins := by decide
  blockComment_ne := by decide
  strings_ne := by simp [SINGLE, units]

def bash : Grammar where
  lineComment := [units "#"]
  blockComment := []
  strings := QUOTES
  keywords := words <|
    "case do done elif else esac export fi for function if in local return then until while " ++
    "echo cd set unset source"
  lineComment_begins := by decide
  blockComment_ne := by decide
  strings_ne := by simp [QUOTES, DOUBLE, SINGLE, units]

def css : Grammar where
  lineComment := []
  blockComment := [(units "/*", units "*/")]
  strings := QUOTES
  keywords := words "important media import supports keyframes from to and not only"
  lineComment_begins := by decide
  blockComment_ne := by decide
  strings_ne := by simp [QUOTES, DOUBLE, SINGLE, units]

def yaml : Grammar where
  lineComment := [units "#"]
  blockComment := []
  strings := QUOTES
  keywords := words "true false null yes no on off"
  lineComment_begins := by decide
  blockComment_ne := by decide
  strings_ne := by simp [QUOTES, DOUBLE, SINGLE, units]

def html : Grammar where
  lineComment := []
  blockComment := [(units "<!--", units "-->")]
  strings := QUOTES
  keywords := words ""
  lineComment_begins := by decide
  blockComment_ne := by decide
  strings_ne := by simp [QUOTES, DOUBLE, SINGLE, units]

def GRAMMARS : List (String × Grammar) :=
  [("ts", ts), ("rust", rust), ("python", python), ("go", go), ("json", json), ("sql", sql),
    ("bash", bash), ("css", css), ("yaml", yaml), ("html", html)]

/-- Spellings that mean a grammar already in the table. -/
def ALIASES : List (String × String) :=
  [("typescript", "ts"), ("tsx", "ts"), ("js", "ts"), ("javascript", "ts"), ("jsx", "ts"),
    ("mjs", "ts"), ("cjs", "ts"), ("rs", "rust"), ("py", "python"), ("golang", "go"),
    ("sh", "bash"), ("shell", "bash"), ("zsh", "bash"), ("yml", "yaml"), ("scss", "css"),
    ("xml", "html"), ("svg", "html"), ("jsonc", "json"), ("postgres", "sql"), ("psql", "sql")]

/-- The grammar for a language name. Outside ASCII only U+212A has an ASCII letter for its lower
case, the `k` that no name of the tables has. -/
def grammarFor (lang : Option String) : Option Grammar := do
  let name := String.ofList ((← lang).toList.map Char.toLower)
  GRAMMARS.lookup ((ALIASES.lookup name).getD name)

/-! ## The scanner -/

/-- `/[0-9]/` -/
def DIGIT (c : UInt16) : Bool := within 0x30 0x39 c

/-- `/[A-Za-z_$]/` -/
def IDENT_START (c : UInt16) : Bool :=
  within 0x41 0x5A c || within 0x61 0x7A c || c = 0x5F || c = 0x24

/-- `/[A-Za-z0-9_$]/` -/
def IDENT (c : UInt16) : Bool := IDENT_START c || DIGIT c

/-- `/[0-9A-Fa-fxXoObB._]/` -/
def NUMBER (c : UInt16) : Bool :=
  DIGIT c || within 0x41 0x46 c || within 0x61 0x66 c || (units "xXoObB._").contains c

def PUNCT (c : UInt16) : Bool := (units "\x7b\x7d()[];:,.<>+-*/%=!&|^~?@#").contains c

/-- The tokens so far, the run of plain text after them, and how far the source is read. -/
structure Scan where
  out : List Token := []
  plain : Units := []
  i : Nat := 0

def Scan.flush (s : Scan) : Scan :=
  if s.plain = [] then s else { s with out := s.out ++ [⟨.plain, s.plain⟩], plain := [] }

def Scan.push (s : Scan) (kind : Kind) (text : Units) : Scan :=
  { s.flush with out := s.flush.out ++ [⟨kind, text⟩] }

/-- The end of a string whose opener ends at `j`. -/
def stringEnd (code : Units) (rule : StringRule) (j : Nat) : Nat :=
  if j < code.length then
    if rule.escape.any (startsWith code · j) then
      stringEnd code rule (j + (rule.escape.getD []).length + 1)
    else if startsWith code rule.closer j then j + rule.closer.length
    else stringEnd code rule (j + 1)
  else j
termination_by code.length - j

/-- Where the construct that opens at `i` stops, and what it is. Block comments come before line
comments, these before strings, and of the strings the longest opener first. -/
def construct (grammar : Grammar) (code : Units) (i : Nat) : Option (Kind × Nat) :=
  match grammar.blockComment.find? fun b => startsWith code b.1 i with
  | some (opener, closer) =>
    -- Unterminated runs to the end.
    some (.comment, match indexOf code closer (i + opener.length) with
      | none => code.length
      | some stop => stop + closer.length)
  | none =>
    match grammar.lineComment.find? fun opener => startsWith code opener i with
    | some _ => some (.comment, (indexOf code [0x0A] i).getD code.length)
    | none =>
      let sorted := grammar.strings.mergeSort fun a b => b.opener.length ≤ a.opener.length
      match sorted.find? fun rule => startsWith code rule.opener i with
      | some rule =>
        some (.string, min (stringEnd code rule (i + rule.opener.length)) code.length)
      | none => none

/-- A turn of the loop of `tokenize`. -/
def turn (grammar : Grammar) (code : Units) (s : Scan) : Scan :=
  match construct grammar code s.i with
  | some (kind, stop) => { s.push kind (slice code s.i stop) with i := stop }
  | none =>
    let char := code[s.i]?.toList
    if char.any DIGIT then
      let stop := runEnd NUMBER code s.i
      { s.push .number (slice code s.i stop) with i := stop }
    else if char.any IDENT_START then
      let stop := runEnd IDENT code s.i
      let word := slice code s.i stop
      if grammar.keywords.contains word then { s.push .keyword word with i := stop }
      else { s with plain := s.plain ++ word, i := stop }
    else if char.any PUNCT then { s.push .punct char with i := s.i + 1 }
    else
      let t := { s with plain := s.plain ++ char, i := s.i + 1 }
      -- The progress guard.
      if t.i ≤ s.i then { t with plain := t.plain ++ char, i := s.i + 1 } else t

/-! ## What a turn reads -/

/-- A turn reads a stretch of the source, as a token or as plain text. -/
inductive Reads (code : Units) (s : Scan) : Scan → Prop where
  | token (kind : Kind) (stop : Nat) : s.i < stop → stop ≤ code.length →
    Reads code s { s.push kind (slice code s.i stop) with i := stop }
  | plain (stop : Nat) : s.i < stop → stop ≤ code.length →
    Reads code s { s with plain := s.plain ++ slice code s.i stop, i := stop }

theorem le_stringEnd (code : Units) (rule : StringRule) (j : Nat) : j ≤ stringEnd code rule j := by
  fun_induction stringEnd code rule j with
  | case1 j hlt hescape ih => omega
  | case2 j hlt hescape hclose => omega
  | case3 j hlt hescape hclose ih => omega
  | case4 j hlt => exact Nat.le_refl _

theorem construct_stop (h : construct grammar code i = some (kind, stop)) :
    i < stop ∧ stop ≤ code.length := by
  unfold construct at h
  split at h
  · next opener closer hfind =>
    have hstart := List.find?_some hfind
    have hne := grammar.blockComment_ne _ (List.mem_of_find?_eq_some hfind)
    have hle := lt_of_startsWith hstart hne
    have hpos := List.length_pos_of_ne_nil hne
    dsimp only at hle hpos
    obtain ⟨rfl, rfl⟩ := Prod.mk.inj (Option.some.inj h)
    split
    · omega
    · next stop hindex =>
      obtain ⟨hge, _, hclose, _⟩ := indexOf_eq_some hindex
      have hlength := (startsWith_iff.mp hclose).length_le
      rw [List.length_drop] at hlength
      omega
  · split at h
    · next opener hfind =>
      have hstart := List.find?_some hfind
      obtain ⟨hne, hbreak⟩ := grammar.lineComment_begins _ (List.mem_of_find?_eq_some hfind)
      have hle := lt_of_startsWith hstart hne
      have hpos := List.length_pos_of_ne_nil hne
      obtain ⟨rfl, rfl⟩ := Prod.mk.inj (Option.some.inj h)
      cases hindex : indexOf code [0x0A] i with
      | none =>
        rw [Option.getD_none]
        omega
      | some stop =>
        obtain ⟨hge, hstop, hclose, _⟩ := indexOf_eq_some hindex
        rw [Option.getD_some]
        refine ⟨Nat.lt_of_le_of_ne hge ?_, hstop⟩
        rintro rfl
        -- the opener would begin with the line break
        obtain ⟨c, hc⟩ : ∃ c, opener.head? = some c := by
          cases opener with
          | nil => exact absurd rfl hne
          | cons c _ => exact ⟨c, rfl⟩
        have hget := getElem?_of_startsWith hstart hc
        rw [getElem?_of_startsWith hclose rfl] at hget
        exact hbreak (hc.trans hget.symm)
    · dsimp only at h
      split at h
      · next rule hfind =>
        have hstart := List.find?_some hfind
        have hmem := List.mem_mergeSort.mp (List.mem_of_find?_eq_some hfind)
        have hne := grammar.strings_ne _ hmem
        have hle := lt_of_startsWith hstart hne
        have hpos := List.length_pos_of_ne_nil hne
        have hend := le_stringEnd code rule (i + rule.opener.length)
        obtain ⟨rfl, rfl⟩ := Prod.mk.inj (Option.some.inj h)
        omega
      · cases h

theorem turn_reads (grammar : Grammar) (h : s.i < code.length) :
    Reads code s (turn grammar code s) := by
  have hchar : code[s.i]? = some code[s.i] := List.getElem?_eq_getElem h
  unfold turn
  split
  · next kind stop hconstruct =>
    obtain ⟨hlt, hle⟩ := construct_stop hconstruct
    exact .token kind stop hlt hle
  · rw [hchar]
    dsimp only [Option.toList]
    split
    · next hdigit =>
      refine .token .number _ (lt_runEnd hchar ?_) (runEnd_le (Nat.le_of_lt h))
      rw [List.any_cons, List.any_nil, Bool.or_false] at hdigit
      simp [NUMBER, hdigit]
    · split
      · next hident =>
        have hlt : s.i < runEnd IDENT code s.i := lt_runEnd hchar (by
          rw [List.any_cons, List.any_nil, Bool.or_false] at hident
          simp [IDENT, hident])
        split
        · exact .token .keyword _ hlt (runEnd_le (Nat.le_of_lt h))
        · exact .plain _ hlt (runEnd_le (Nat.le_of_lt h))
      · rw [← slice_singleton hchar]
        split
        · exact .token .punct _ (Nat.lt_succ_self _) h
        · rw [if_neg (Nat.not_succ_le_self _)]
          exact .plain _ (Nat.lt_succ_self _) h

theorem Reads.lt (h : Reads code s t) : s.i < t.i := by
  cases h <;> assumption

theorem Reads.le (h : Reads code s t) : t.i ≤ code.length := by
  cases h <;> assumption

/-! ## The loop -/

/-- The loop of `tokenize`. -/
def scan (grammar : Grammar) (code : Units) (s : Scan) : List Token :=
  if s.i < code.length then
    if MAX_TOKENS < s.out.length then [⟨.plain, code⟩]
    else scan grammar code (turn grammar code s)
  else s.flush.out
termination_by code.length - s.i
decreasing_by
  next h _ =>
    have hlt := (turn_reads grammar h).lt
    omega

/-- Splits a block into runs. -/
def tokenize (code : Units) (lang : Option String) : List Token :=
  match grammarFor lang with
  | none => if code = [] then [] else [⟨.plain, code⟩]
  | some grammar =>
    if MAX_HIGHLIGHT < code.length then if code = [] then [] else [⟨.plain, code⟩]
    else scan grammar code {}

/-- The source, as the tokens have it. -/
def text (tokens : List Token) : Units := tokens.flatMap Token.text

theorem text_flush (s : Scan) : text s.flush.out = text s.out ++ s.plain := by
  unfold Scan.flush
  split
  · next h => rw [h, List.append_nil]
  · simp [text]

/-- What is read so far is in the tokens and the plain text after them. -/
def Scan.Covers (s : Scan) (code : Units) : Prop := text s.out ++ s.plain = code.take s.i

theorem Reads.covers (h : Reads code s t) (hs : s.Covers code) : t.Covers code := by
  cases h with
  | token kind stop hlt _ =>
    have hplain : s.flush.plain = [] := by
      unfold Scan.flush
      split
      · assumption
      · rfl
    have htext : text (s.flush.out ++ [⟨kind, slice code s.i stop⟩]) =
        text s.flush.out ++ slice code s.i stop := by
      simp [text]
    rw [Scan.Covers]
    dsimp only [Scan.push]
    rw [hplain, htext, text_flush, hs, List.append_nil, take_slice (Nat.le_of_lt hlt)]
  | plain stop hlt _ =>
    rw [Scan.Covers]
    dsimp only
    rw [← List.append_assoc, hs, take_slice (Nat.le_of_lt hlt)]

theorem text_scan (grammar : Grammar) (hle : s.i ≤ code.length) (h : s.Covers code) :
    text (scan grammar code s) = code := by
  fun_induction scan grammar code s with
  | case1 s hlt hmany => simp [text]
  | case2 s hlt hmany ih =>
    have hreads := turn_reads grammar hlt
    exact ih hreads.le (hreads.covers h)
  | case3 s hlt =>
    rw [text_flush, h]
    exact List.take_of_length_le (Nat.le_of_not_lt hlt)

/-- The tokens of a source, in whatever language, are the source. -/
theorem text_tokenize (code : Units) (lang : Option String) :
    text (tokenize code lang) = code := by
  have hwhole : text (if code = [] then [] else [⟨.plain, code⟩]) = code := by
    split
    · next h => rw [h]; rfl
    · simp [text]
  unfold tokenize
  split
  · exact hwhole
  · split
    · exact hwhole
    · exact text_scan _ (Nat.zero_le _) rfl

end Whispee.Text.Highlight
