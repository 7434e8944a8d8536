import Mathlib.Data.List.Forall2
import Whispee.Text.Markdown

/-!
# What a tree is drawn from

What is written of a message is cut into pieces, each of them kept in the tree or consumed as
syntax (`Written`, `Drawn`). The tree `parse` makes is drawn from the whole message, nothing twice
and nothing left out, and it is bounded (`parse_faithful`).
-/

namespace Whispee.Text.Markdown

open CodeUnits Whispee.Text.Link

/-! ## What a message is written of -/

/-- A piece of the source: a character that is kept, or syntax. A fence is with the line breaks it
takes with it. -/
inductive Piece where
  | kept (c : UInt16)
  | backslash
  | marker (kind : Emphasis)
  | backquote
  | quotePrefix (written : Units)
  | fence (written : Units)
  | lineBreak

def Piece.source : Piece → Units
  | .kept c => [c]
  | .backslash => [BACKSLASH]
  | .marker kind => kind.token
  | .backquote => [BACKQUOTE]
  | .quotePrefix written | .fence written => written
  | .lineBreak => [NEWLINE]

def Piece.text : Piece → Units
  | .kept c => [c]
  | _ => []

/-- What is written. -/
def source (pieces : List Piece) : Units := pieces.flatMap Piece.source

/-- What of it is kept. -/
def kept (pieces : List Piece) : Units := pieces.flatMap Piece.text

/-- The pieces a text node is written of. -/
inductive Spelled : Units → List Piece → Prop where
  | nil : Spelled [] []
  | kept (c : UInt16) : Spelled text pieces → Spelled (c :: text) (.kept c :: pieces)
  | escaped : c ∈ ESCAPABLE → Spelled text pieces →
      Spelled (c :: text) (.backslash :: .kept c :: pieces)

/-- The pieces nodes are written of, one node after the other. -/
inductive Written : List Inline → List Piece → Prop where
  | nil : Written [] []
  | text : Spelled text own → Written nodes pieces → Written (.text text :: nodes) (own ++ pieces)
  | code (text : Units) : Written nodes pieces →
      Written (.code text :: nodes) (.backquote :: text.map .kept ++ .backquote :: pieces)
  | link (raw : Units) : Written nodes pieces →
      Written (.link raw :: nodes) (raw.map .kept ++ pieces)
  | span (kind : Emphasis) {inner : List Piece} : Written children inner → Written nodes pieces →
      Written (.span kind children :: nodes) (.marker kind :: inner ++ .marker kind :: pieces)

/-- A fence line, alone or with the line break on one side. -/
def FenceLine (written : Units) : Prop :=
  ∃ line, isFence line = true ∧
    (written = line ∨ written = line ++ [NEWLINE] ∨ written = NEWLINE :: line)

def IsPrefix (written : Units) : Prop := written = units "> " ∨ written = units ">"

/-- The line breaks of a block. -/
def Piece.breaks : Piece → Bool
  | .kept c => c = NEWLINE
  | _ => false

/-- A prefix before every line but the first. -/
def weave : List Units → List Piece → List Piece
  | _, [] => []
  | prefixes, piece :: pieces =>
    if piece.breaks then
      piece :: (prefixes.take 1).map .quotePrefix ++ weave (prefixes.drop 1) pieces
    else piece :: weave prefixes pieces

/-- The pieces a block is written of. -/
inductive BlockWritten : Block → List Piece → Prop where
  | paragraph : Written children pieces → BlockWritten (.paragraph children) pieces
  | quote : (∀ written ∈ first :: prefixes, IsPrefix written) → Written children pieces →
      BlockWritten (.quote children) (.quotePrefix first :: weave prefixes pieces)
  | code (lang : Option Units) (text : Units) {closings : List Units} : FenceLine opening →
      (∀ closing ∈ closings, FenceLine closing) → closings.length ≤ 1 →
      BlockWritten (.code lang text) (.fence opening :: text.map .kept ++ closings.map .fence)

/-- The pieces a tree is drawn from: those of its blocks, with a line break between one block and
the next. -/
def Drawn (blocks : List Block) (pieces : List Piece) : Prop :=
  ∃ parts, List.Forall₂ BlockWritten blocks parts ∧ pieces = [Piece.lineBreak].intercalate parts

/-! ### What the nodes hold -/

mutual

/-- The text of a node. -/
def Inline.held : Inline → Units
  | .text text | .code text | .link text => text
  | .span _ children => held children

def held : List Inline → Units
  | [] => []
  | node :: nodes => node.held ++ held nodes

end

def Block.held : Block → Units
  | .paragraph children | .quote children => Markdown.held children
  | .code _ text => text

mutual

/-- How deep emphasis nests. -/
def Inline.depth : Inline → Nat
  | .span _ children => 1 + depth children
  | _ => 0

def depth : List Inline → Nat
  | [] => 0
  | node :: nodes => max node.depth (depth nodes)

end

def Block.depth : Block → Nat
  | .paragraph children | .quote children => Markdown.depth children
  | .code _ _ => 0

/-! ## What is kept is what the nodes hold -/

section
variable {own pieces : List Piece} {nodes : List Inline} {s t : Units}

@[simp] theorem source_nil : source [] = [] := rfl

@[simp] theorem source_cons (piece : Piece) (pieces : List Piece) :
    source (piece :: pieces) = piece.source ++ source pieces := rfl

@[simp] theorem source_append (own pieces : List Piece) :
    source (own ++ pieces) = source own ++ source pieces := List.flatMap_append

@[simp] theorem kept_nil : kept [] = [] := rfl

@[simp] theorem kept_cons (piece : Piece) (pieces : List Piece) :
    kept (piece :: pieces) = piece.text ++ kept pieces := rfl

@[simp] theorem kept_append (own pieces : List Piece) :
    kept (own ++ pieces) = kept own ++ kept pieces := List.flatMap_append

@[simp] theorem source_map_kept (t : Units) : source (t.map .kept) = t := by
  induction t with
  | nil => rfl
  | cons c t ih => rw [List.map_cons, source_cons, ih]; rfl

@[simp] theorem kept_map_kept (t : Units) : kept (t.map .kept) = t := by
  induction t with
  | nil => rfl
  | cons c t ih => rw [List.map_cons, kept_cons, ih]; rfl

theorem Spelled.kept_eq (h : Spelled t pieces) : Markdown.kept pieces = t := by
  induction h with
  | nil => rfl
  | kept c _ ih => rw [kept_cons, ih]; rfl
  | escaped _ _ ih => rw [kept_cons, kept_cons, ih]; rfl

theorem Written.kept_eq (h : Written nodes pieces) : kept pieces = held nodes := by
  induction h with
  | nil => rfl
  | text hspelled _ ih => rw [kept_append, hspelled.kept_eq, ih]; rfl
  | code text _ ih => simp [held, Inline.held, Piece.text, ih]
  | link raw _ ih => simp [held, Inline.held, ih]
  | span kind _ _ ihchildren ih => simp [held, Inline.held, Piece.text, ihchildren, ih]

theorem kept_map_quotePrefix (prefixes : List Units) :
    kept (prefixes.map .quotePrefix) = [] := by
  induction prefixes with
  | nil => rfl
  | cons written prefixes ih => rw [List.map_cons, kept_cons, ih]; rfl

theorem kept_map_fence (closings : List Units) : kept (closings.map .fence) = [] := by
  induction closings with
  | nil => rfl
  | cons closing closings ih => rw [List.map_cons, kept_cons, ih]; rfl

theorem kept_weave (prefixes : List Units) (pieces : List Piece) :
    kept (weave prefixes pieces) = kept pieces := by
  induction pieces generalizing prefixes with
  | nil => rfl
  | cons piece pieces ih =>
    rw [weave]
    split
    · rw [List.cons_append, kept_cons, kept_append, kept_map_quotePrefix, ih, List.nil_append,
        kept_cons]
    · rw [kept_cons, ih, kept_cons]

theorem BlockWritten.kept_eq (h : BlockWritten block pieces) : kept pieces = block.held := by
  cases h with
  | paragraph hwritten => exact hwritten.kept_eq
  | quote _ hwritten => exact (kept_weave ..).trans hwritten.kept_eq
  | code lang text _ _ _ =>
    rw [List.cons_append, kept_cons, kept_append, kept_map_kept, kept_map_fence, List.append_nil]
    rfl

theorem Drawn.kept_eq (h : Drawn blocks pieces) : kept pieces = blocks.flatMap Block.held := by
  obtain ⟨parts, hparts, rfl⟩ := h
  induction hparts with
  | nil => rfl
  | cons hblock hblocks ih =>
    rw [List.flatMap_cons, ← hblock.kept_eq, ← ih]
    cases hblocks with
    | nil => simp
    | cons => rw [List.intercalate_cons_cons, kept_append, kept_append]; simp [Piece.text]

end

/-! ## The loop covers the source -/

/-- The nodes are written at `i` and end at `j`. -/
def Covers (text : Units) (nodes : List Inline) (i j : Nat) : Prop :=
  ∃ pieces, Written nodes pieces ∧ source pieces = slice text i j

/-- What is out covers the source under the openers that are still open. -/
inductive Held (text : Units) : List Open → List Inline → Nat → Prop where
  | bottom : Covers text out 0 i → Held text [] out i
  | opened : Held text lower before j → startsWith text entry.kind.token j = true →
      entry.start = j + entry.kind.token.length → entry.outLength = before.length →
      entry.start ≤ i → Covers text inside entry.start i →
      Held text (entry :: lower) (before ++ inside) i

section
variable {own pieces : List Piece} {nodes nodes' out : List Inline} {text t u : Units} {i j k : Nat}

theorem Spelled.append (h : Spelled t own) (h' : Spelled u pieces) :
    Spelled (t ++ u) (own ++ pieces) := by
  induction h with
  | nil => exact h'
  | kept c _ ih => exact .kept c ih
  | escaped hc _ ih => exact .escaped hc ih

theorem spelled_kept (t : Units) : Spelled t (t.map .kept) := by
  induction t with
  | nil => exact .nil
  | cons c t ih => exact .kept c ih

theorem Written.append (h : Written nodes own) (h' : Written nodes' pieces) :
    Written (nodes ++ nodes') (own ++ pieces) := by
  induction h with
  | nil => exact h'
  | text hspelled _ ih => rw [List.append_assoc]; exact .text hspelled ih
  | code text _ ih => simpa using Written.code text ih
  | link raw _ ih => rw [List.append_assoc]; exact .link raw ih
  | span kind hchildren _ _ ih => simpa using Written.span kind hchildren ih

theorem Covers.append (h : Covers text nodes i j) (h' : Covers text nodes' j k) (hij : i ≤ j)
    (hjk : j ≤ k) : Covers text (nodes ++ nodes') i k := by
  obtain ⟨own, hown, hsource⟩ := h
  obtain ⟨pieces, hpieces, hsource'⟩ := h'
  exact ⟨own ++ pieces, hown.append hpieces, by
    rw [source_append, hsource, hsource', slice_append hij hjk]⟩

theorem Held.extend (h : Held text stack out i) (hnodes : Covers text nodes i j) (hij : i ≤ j) :
    Held text stack (out ++ nodes) j := by
  cases h with
  | bottom hcovers => exact .bottom (hcovers.append hnodes (Nat.zero_le _) hij)
  | opened hlower htoken hstart hlength hle hinside =>
    rw [List.append_assoc]
    exact .opened hlower htoken hstart hlength (Nat.le_trans hle hij)
      (hinside.append hnodes hle hij)

/-- What was out when an opener was read is there still, and covers what comes before it. -/
theorem Held.split (h : Held text (above ++ entry :: lower) out i) :
    entry.outLength ≤ out.length ∧ entry.start ≤ i ∧
      ∃ j, entry.start = j + entry.kind.token.length ∧ startsWith text entry.kind.token j = true ∧
        Held text lower (out.take entry.outLength) j := by
  induction above generalizing out i with
  | nil =>
    cases h with
    | opened hlower htoken hstart hlength hle hinside =>
      refine ⟨?_, hle, _, hstart, htoken, ?_⟩
      · rw [hlength, List.length_append]
        exact Nat.le_add_right ..
      · rw [hlength, List.take_left]
        exact hlower
  | cons first above ih =>
    cases h with
    | opened hlower htoken hstart hlength hle hinside =>
      obtain ⟨hout, hbefore, j, hj, htoken', hheld⟩ := ih hlower
      refine ⟨?_, ?_, j, hj, htoken', ?_⟩
      · rw [List.length_append]
        exact Nat.le_add_right_of_le hout
      · omega
      · rw [List.take_append_of_le_length hout]
        exact hheld

/-- What is read of the source: all of it, the text that is still in the buffer last. -/
structure Inv (text : Units) (s : Scan) : Prop where
  le : s.i ≤ text.length
  read : ∃ j pieces, Held text s.stack s.out j ∧ j ≤ s.i ∧ Spelled s.buffer pieces ∧
    source pieces = slice text j s.i

variable {s : Scan}

theorem Inv.flush (h : Inv text s) : Held text s.stack s.flush.out s.i := by
  obtain ⟨j, pieces, hheld, hj, hspelled, hsource⟩ := h.read
  unfold Scan.flush
  split
  next hempty =>
    rw [hempty] at hspelled
    cases hspelled
    have hnone := hheld.extend (show Covers text [] j s.i from ⟨[], .nil, hsource⟩) hj
    rw [List.append_nil] at hnone
    exact hnone
  · refine hheld.extend ⟨pieces, ?_, hsource⟩ hj
    have hwritten := Written.text hspelled .nil
    rw [List.append_nil] at hwritten
    exact hwritten

theorem Held.inv (h : Held text stack out i) (hi : i ≤ text.length) :
    Inv text ⟨out, stack, [], i⟩ :=
  ⟨hi, i, [], h, Nat.le_refl i, .nil, by rw [slice, Nat.sub_self]; rfl⟩

theorem Inv.prose (h : Inv text s) (hspelled : Spelled [c] own)
    (hsource : source own = slice text s.i k) (hik : s.i ≤ k) (hk : k ≤ text.length) :
    Inv text (s.prose c k) := by
  obtain ⟨j, pieces, hheld, hj, hbuffer, hread⟩ := h.read
  refine ⟨hk, j, pieces ++ own, hheld, Nat.le_trans hj hik, hbuffer.append hspelled, ?_⟩
  rw [source_append, hread, hsource]
  exact slice_append hj hik

theorem Inv.literal (h : Inv text s) (hc : text[s.i]? = some c) :
    Inv text (s.prose c (s.i + 1)) := by
  obtain ⟨hlt, _⟩ := List.getElem?_eq_some_iff.mp hc
  exact h.prose (spelled_kept [c]) (slice_singleton hc).symm (Nat.le_succ _) hlt

theorem Inv.escaped (h : Inv text s) (hc : text[s.i]? = some BACKSLASH)
    (hnext : text[s.i + 1]? = some next) (hescapable : next ∈ ESCAPABLE) :
    Inv text (s.prose next (s.i + 2)) := by
  obtain ⟨hlt, _⟩ := List.getElem?_eq_some_iff.mp hnext
  refine h.prose (.escaped hescapable .nil) ?_ (Nat.le_add_right ..) hlt
  rw [← slice_append (Nat.le_succ s.i) (Nat.le_succ _), slice_singleton hc, slice_singleton hnext]
  rfl

theorem Inv.push (h : Inv text s) (hnode : Covers text [node] s.i k) (hik : s.i ≤ k)
    (hk : k ≤ text.length) : Inv text (s.push node k) := by
  have hpushed := (h.flush.extend hnode hik).inv hk
  rw [← s.flush_buffer, ← s.flush_stack] at hpushed
  exact hpushed

theorem covers_span (hopener : startsWith text kind.token j = true)
    (htoken : startsWith text kind.token i = true) (hle : j + kind.token.length ≤ i)
    (hinner : Covers text children (j + kind.token.length) i) :
    Covers text [.span kind children] j (i + kind.token.length) := by
  obtain ⟨pieces, hwritten, hsource⟩ := hinner
  refine ⟨_, .span kind hwritten .nil, ?_⟩
  calc source (.marker kind :: pieces ++ [.marker kind])
      = kind.token ++ slice text (j + kind.token.length) i ++ kind.token := by
        simp [hsource, Piece.source]
    _ = slice text j (j + kind.token.length) ++ slice text (j + kind.token.length) i ++
          slice text i (i + kind.token.length) := by
        rw [slice_of_startsWith hopener, slice_of_startsWith htoken]
    _ = slice text j (i + kind.token.length) := by
        rw [slice_append (Nat.le_add_right ..) hle,
          slice_append (by omega) (Nat.le_add_right ..)]

/-- A reader that covers whatever it is given. -/
def Reader (inner : Units → List Inline) : Prop :=
  ∀ u, ∃ pieces, Written (inner u) pieces ∧ source pieces = u

theorem Inv.delimit {inner : Units → List Inline} (h : Inv text s) (hinner : Reader inner)
    (hc : text[s.i]? = some c) (htoken : startsWith text kind.token s.i = true) :
    Inv text (delimit inner text s c kind) := by
  have hend : s.i + kind.token.length ≤ text.length :=
    lt_of_startsWith htoken (List.ne_nil_of_length_pos kind.length_token_pos)
  unfold Markdown.delimit
  split
  next entry lower hopen =>
    have hdrop : s.stack.dropWhile (·.kind ≠ kind) = entry :: lower := by
      split at hopen
      · exact hopen
      · cases hopen
    have hkind : entry.kind = kind := by
      have hhead := List.head?_dropWhile_not (p := fun e : Open => decide (e.kind ≠ kind)) s.stack
      rw [hdrop] at hhead
      simpa using hhead
    have hflush := h.flush
    rw [← List.takeWhile_append_dropWhile (p := fun e : Open => decide (e.kind ≠ kind))
      (l := s.stack), hdrop] at hflush
    obtain ⟨hlength, hle, j, hj, hopener, hlower⟩ := hflush.split
    rw [hkind] at hj hopener
    rw [hj] at hle
    refine (hlower.extend (covers_span hopener htoken hle ?_) (by omega)).inv hend
    rw [hj]
    exact hinner _
  · split
    next hopens =>
      have hopened : Held text (⟨kind, s.i + kind.token.length, s.flush.out.length⟩ :: s.stack)
          (s.flush.out ++ []) (s.i + kind.token.length) :=
        .opened h.flush htoken rfl rfl (Nat.le_refl _)
          ⟨[], .nil, by rw [slice, Nat.sub_self]; rfl⟩
      rw [List.append_nil] at hopened
      have hinv := hopened.inv hend
      rw [← s.flush_buffer] at hinv
      exact hinv
    · exact h.literal hc

theorem Inv.turn {links : List (Found text)} {deeper : Option (Units → List Inline)}
    (h : Inv text s) (hdeeper : ∀ inner, deeper = some inner → Reader inner)
    (hc : text[s.i]? = some c) : Inv text (turn links deeper s c) := by
  obtain ⟨hlt, _⟩ := List.getElem?_eq_some_iff.mp hc
  unfold Markdown.turn
  split
  next hbackslash =>
    rw [hbackslash] at hc
    split
    next next hnext =>
      split
      next hescapable => exact h.escaped hc hnext (List.contains_iff_mem.mp hescapable)
      · exact hbackslash ▸ h.literal hc
    · exact hbackslash ▸ h.literal hc
  · split
    next stop hstop =>
      obtain ⟨hbackquote, hle, hclose⟩ := codeEnd_eq_some hstop
      have hend := lt_of_startsWith hclose (List.cons_ne_nil _ _)
      refine h.push ⟨_, .code (slice text (s.i + 1) stop) .nil, ?_⟩ (by omega) hend
      rw [hbackquote] at hc
      calc source (.backquote :: (slice text (s.i + 1) stop).map .kept ++ [.backquote])
          = [BACKQUOTE] ++ slice text (s.i + 1) stop ++ [BACKQUOTE] := by simp [Piece.source]
        _ = slice text s.i (s.i + 1) ++ slice text (s.i + 1) stop ++
              slice text stop (stop + 1) := by
            rw [slice_singleton hc, ← slice_of_startsWith hclose]
            rfl
        _ = slice text s.i (stop + 1) := by
            rw [slice_append (Nat.le_succ _) hle, slice_append (by omega) (Nat.le_succ _)]
    · split
      next link hlink =>
        have hstart : link.start = s.i := by simpa using List.find?_some hlink
        have hend := lt_of_startsWith link.written link.nonempty
        refine h.push ⟨_, .link link.raw .nil, ?_⟩ ?_ hend
        · rw [List.append_nil, source_map_kept, ← hstart]
          exact (slice_of_startsWith link.written).symm
        · rw [← hstart]
          exact Nat.le_add_right ..
      · split
        next inner kind hmarker =>
          obtain ⟨kind', hkind, hmarker⟩ := Option.bind_eq_some_iff.mp hmarker
          obtain ⟨inner', hinner, hmarker⟩ := Option.bind_eq_some_iff.mp hmarker
          obtain ⟨rfl, rfl⟩ := Prod.mk.inj (Option.some.inj hmarker)
          exact h.delimit (hdeeper _ hinner) hc (by simpa using List.find?_some hkind)
        · exact h.literal hc

theorem Inv.scan {links : List (Found text)} {deeper : Option (Units → List Inline)}
    (h : Inv text s) (hdeeper : ∀ inner, deeper = some inner → Reader inner) :
    Inv text (scan links deeper s) ∧ (scan links deeper s).i = text.length := by
  induction s using scan.induct links deeper with
  | case1 s hlt ih =>
    rw [Markdown.scan, dif_pos hlt]
    exact ih (h.turn hdeeper (List.getElem?_eq_getElem hlt))
  | case2 s hlt =>
    rw [Markdown.scan, dif_neg hlt]
    exact ⟨h, Nat.le_antisymm h.le (Nat.le_of_not_lt hlt)⟩

theorem Inv.finish (h : Inv text s) (hend : s.i = text.length) :
    Covers text (finish text s) 0 text.length := by
  have hflush := h.flush
  rw [hend] at hflush
  unfold Markdown.finish
  split
  next hnone =>
    rw [List.getLast?_eq_none_iff.mp hnone] at hflush
    cases hflush with
    | bottom hcovers => exact hcovers
  next first hfirst =>
    obtain ⟨above, habove⟩ := List.getLast?_eq_some_iff.mp hfirst
    rw [habove] at hflush
    obtain ⟨hlength, hle, j, hj, hopener, hlower⟩ := hflush.split
    rw [show first.start - first.kind.token.length = j by omega]
    have htail : Covers text (if text.drop j = [] then [] else [.text (text.drop j)]) j
        text.length := by
      split
      next hempty =>
        refine ⟨[], .nil, ?_⟩
        rw [slice_length, hempty]
        rfl
      · refine ⟨_, .text (spelled_kept (text.drop j)) .nil, ?_⟩
        rw [List.append_nil, source_map_kept, slice_length]
    cases hlower with
    | bottom hcovers => exact hcovers.append htail (Nat.zero_le _) (by omega)

/-- One block's worth of markup: the nodes cover the text, to whatever depth they may nest. -/
theorem reader_parseInlineWithin (classify : Units → Bool) (levels : Nat) :
    Reader (parseInlineWithin classify levels) := by
  have hfinish : ∀ {u : Units} (links : List (Found u)) (deeper : Option (Units → List Inline)),
      (∀ inner, deeper = some inner → Reader inner) →
        ∃ pieces, Written (Markdown.finish u (Markdown.scan links deeper ⟨[], [], [], 0⟩)) pieces ∧
          source pieces = u := by
    intro u links deeper hdeeper
    have hstart : Inv u ⟨[], [], [], 0⟩ := (Held.bottom ⟨[], .nil, rfl⟩).inv (Nat.zero_le _)
    obtain ⟨hinv, hend⟩ := hstart.scan hdeeper
    obtain ⟨pieces, hwritten, hsource⟩ := hinv.finish hend
    rw [slice_zero, List.take_length] at hsource
    exact ⟨pieces, hwritten, hsource⟩
  induction levels with
  | zero =>
    intro u
    rw [parseInlineWithin]
    exact hfinish _ _ fun _ h => nomatch h
  | succ levels ih =>
    intro u
    rw [parseInlineWithin]
    refine hfinish _ _ fun inner h => ?_
    cases h
    exact ih

theorem written_parseInline (classify : Units → Bool) (u : Units) (depth : Nat) :
    ∃ pieces, Written (parseInline classify u depth) pieces ∧ source pieces = u :=
  reader_parseInlineWithin classify _ u

end

/-! ## Depth -/

section
variable {nodes : List Inline} {s : Scan} {text : Units} {links : List (Found text)}
  {deeper : Option (Units → List Inline)} {n : Nat}

theorem depth_le_iff : depth nodes ≤ n ↔ ∀ node ∈ nodes, node.depth ≤ n := by
  induction nodes with
  | nil => simp [depth]
  | cons node nodes ih => rw [depth, Nat.max_le, ih, List.forall_mem_cons]

/-- No node is deeper than that. -/
def Within (n : Nat) (nodes : List Inline) : Prop := ∀ node ∈ nodes, node.depth ≤ n

theorem Within.take (h : Within n nodes) (k : Nat) : Within n (nodes.take k) :=
  fun node hmem => h node (List.mem_of_mem_take hmem)

theorem Within.push (h : Within n nodes) (hnode : node.depth ≤ n) : Within n (nodes ++ [node]) :=
  List.forall_mem_append.mpr ⟨h, List.forall_mem_singleton.mpr hnode⟩

theorem Within.flush (h : Within n s.out) : Within n s.flush.out := by
  unfold Scan.flush
  split
  · exact h
  · exact h.push (Nat.zero_le n)

/-- What is read of a span is one level less deep. -/
def Shallower (n : Nat) (deeper : Option (Units → List Inline)) : Prop :=
  ∀ inner, deeper = some inner → ∀ u, 1 + depth (inner u) ≤ n

theorem Within.turn (h : Within n s.out) (hdeeper : Shallower n deeper) (c : UInt16) :
    Within n (turn links deeper s c).out := by
  unfold Markdown.turn
  split
  · split
    · split <;> exact h
    · exact h
  · split
    · exact h.flush.push (Nat.zero_le n)
    · split
      · exact h.flush.push (Nat.zero_le n)
      · split
        next inner kind hmarker =>
          obtain ⟨_, _, hmarker⟩ := Option.bind_eq_some_iff.mp hmarker
          obtain ⟨_, hinner, hmarker⟩ := Option.bind_eq_some_iff.mp hmarker
          obtain ⟨rfl, rfl⟩ := Prod.mk.inj (Option.some.inj hmarker)
          unfold delimit
          split
          · exact (h.flush.take _).push (hdeeper _ hinner _)
          · split
            · exact h.flush
            · exact h
        · exact h

theorem Within.scan (h : Within n s.out) (hdeeper : Shallower n deeper) :
    Within n (scan links deeper s).out := by
  induction s using scan.induct links deeper with
  | case1 s hlt ih =>
    rw [Markdown.scan, dif_pos hlt]
    exact ih (h.turn hdeeper _)
  | case2 s hlt =>
    rw [Markdown.scan, dif_neg hlt]
    exact h

theorem Within.finish (h : Within n s.out) : Within n (finish text s) := by
  unfold Markdown.finish
  split
  · exact h.flush
  · dsimp only
    split
    · rw [List.append_nil]
      exact h.flush.take _
    · exact (h.flush.take _).push (Nat.zero_le n)

theorem depth_parseInlineWithin (classify : Units → Bool) (levels : Nat) (u : Units) :
    depth (parseInlineWithin classify levels u) ≤ levels := by
  have hempty : ∀ n, Within n ([] : List Inline) := fun n => List.forall_mem_nil _
  induction levels generalizing u with
  | zero =>
    rw [parseInlineWithin, depth_le_iff]
    refine ((hempty 0).scan (s := ⟨[], [], [], 0⟩) fun inner h => ?_).finish
    cases h
  | succ levels ih =>
    rw [parseInlineWithin, depth_le_iff]
    refine ((hempty _).scan (s := ⟨[], [], [], 0⟩) fun inner h u => ?_).finish
    cases h
    rw [Nat.add_comm]
    exact Nat.succ_le_succ (ih u)

end

/-! ## The blocks -/

section
variable {classify : Units → Bool} {block : Block} {lines paragraph quote : List Units}
  {line : Units}

theorem blocksFrom_nil : blocksFrom classify [] paragraph quote =
    flushParagraph classify paragraph ++ flushQuote classify quote := by
  rw [blocksFrom]

theorem blocksFrom_fence (h : FENCE line = some lang) :
    blocksFrom classify (line :: lines) paragraph quote =
      flushParagraph classify paragraph ++ flushQuote classify quote ++
        .code (if lang = [] then none else some (toLowerCase lang))
            (join (lines.takeWhile (!isFence ·))) ::
          blocksFrom classify ((lines.dropWhile (!isFence ·)).drop 1) [] [] := by
  rw [blocksFrom]
  split
  next h' =>
    cases h.symm.trans h'
    rfl
  next h' => cases h.symm.trans h'

theorem blocksFrom_quote (h : FENCE line = none) (hquote : QUOTE line = some (written, rest)) :
    blocksFrom classify (line :: lines) paragraph quote =
      flushParagraph classify paragraph ++ blocksFrom classify lines [] (quote ++ [rest]) := by
  rw [blocksFrom]
  split
  next h' => cases h.symm.trans h'
  · split
    next h' =>
      cases hquote.symm.trans h'
      rfl
    next h' => cases hquote.symm.trans h'

theorem blocksFrom_paragraph (h : FENCE line = none) (hquote : QUOTE line = none) :
    blocksFrom classify (line :: lines) paragraph quote =
      flushQuote classify quote ++ blocksFrom classify lines (paragraph ++ [line]) [] := by
  rw [blocksFrom]
  split
  next h' => cases h.symm.trans h'
  · split
    next h' => cases hquote.symm.trans h'
    · rfl

theorem depth_of_mem_flush
    (h : block ∈ flushParagraph classify paragraph ++ flushQuote classify quote) :
    block.depth ≤ MAX_DEPTH := by
  rcases List.mem_append.mp h with h | h
  · unfold flushParagraph at h
    split at h
    · cases h
    · rw [List.mem_singleton.mp h]
      exact depth_parseInlineWithin ..
  · unfold flushQuote at h
    split at h
    · cases h
    · rw [List.mem_singleton.mp h]
      exact depth_parseInlineWithin ..

theorem depth_of_mem_blocksFrom (h : block ∈ blocksFrom classify lines paragraph quote) :
    block.depth ≤ MAX_DEPTH := by
  induction lines, paragraph, quote using blocksFrom.induct with
  | case1 paragraph quote =>
    rw [blocksFrom_nil] at h
    exact depth_of_mem_flush h
  | case2 paragraph quote line lines lang hfence rest ih =>
    rw [blocksFrom_fence hfence] at h
    rcases List.mem_append.mp h with h | h
    · exact depth_of_mem_flush h
    · rcases List.mem_cons.mp h with rfl | h
      · exact Nat.zero_le _
      · exact ih h
  | case3 paragraph quote line lines hfence written rest hquote ih =>
    rw [blocksFrom_quote hfence hquote] at h
    rcases List.mem_append.mp h with h | h
    · exact depth_of_mem_flush (List.mem_append_left (flushQuote classify []) h)
    · exact ih h
  | case4 paragraph quote line lines hfence hquote ih =>
    rw [blocksFrom_paragraph hfence hquote] at h
    rcases List.mem_append.mp h with h | h
    · exact depth_of_mem_flush (List.mem_append_right (flushParagraph classify []) h)
    · exact ih h

/-! ### Every line belongs to a block -/

/-- The block is written of these lines. -/
def Lines (block : Block) (lines : List Units) : Prop :=
  lines ≠ [] ∧ ∃ pieces, BlockWritten block pieces ∧ source pieces = join lines

/-- The blocks are written of these lines, each of some that follow each other. -/
def Accounts (blocks : List Block) (lines : List Units) : Prop :=
  ∃ groups, List.Forall₂ Lines blocks groups ∧ groups.flatten = lines

theorem accounts_nil : Accounts [] [] := ⟨[], .nil, rfl⟩

theorem Lines.accounts (h : Lines block lines) : Accounts [block] lines :=
  ⟨[lines], .cons h .nil, List.append_nil _⟩

theorem Accounts.append (h : Accounts blocks lines) (h' : Accounts blocks' lines') :
    Accounts (blocks ++ blocks') (lines ++ lines') := by
  obtain ⟨groups, hgroups, rfl⟩ := h
  obtain ⟨groups', hgroups', rfl⟩ := h'
  exact ⟨groups ++ groups', List.rel_append hgroups hgroups', List.flatten_append⟩

theorem join_singleton (line : Units) : join [line] = line := List.intercalate_singleton

theorem join_cons_cons (line line' : Units) (lines : List Units) :
    join (line :: line' :: lines) = line ++ NEWLINE :: join (line' :: lines) := by
  rw [join, List.intercalate_cons_cons, List.append_assoc]
  rfl

theorem join_append (h : lines ≠ []) (h' : lines' ≠ []) :
    join (lines ++ lines') = join lines ++ NEWLINE :: join lines' := by
  obtain ⟨line', lines', rfl⟩ := List.exists_cons_of_ne_nil h'
  induction lines with
  | nil => exact (h rfl).elim
  | cons line lines ih =>
    cases lines with
    | nil => rw [List.singleton_append, join_cons_cons, join_singleton]
    | cons next lines =>
      rw [List.cons_append, List.cons_append, join_cons_cons, join_cons_cons, ← List.cons_append,
        ih (List.cons_ne_nil _ _), List.append_assoc, List.cons_append]

theorem join_append_cons (written rest : Units) (lines : List Units) :
    join ((written ++ rest) :: lines) = written ++ join (rest :: lines) := by
  cases lines with
  | nil => rw [join_singleton, join_singleton]
  | cons line lines => rw [join_cons_cons, join_cons_cons, List.append_assoc]

/-- The pieces of blocks that account for the lines, with the line breaks between them. -/
theorem Accounts.drawn (h : Accounts blocks lines) :
    ∃ pieces, Drawn blocks pieces ∧ source pieces = join lines := by
  obtain ⟨groups, hgroups, rfl⟩ := h
  suffices ∃ parts, List.Forall₂ BlockWritten blocks parts ∧
      source ([Piece.lineBreak].intercalate parts) = join groups.flatten by
    obtain ⟨parts, hparts, hsource⟩ := this
    exact ⟨_, ⟨parts, hparts, rfl⟩, hsource⟩
  induction hgroups with
  | nil => exact ⟨[], .nil, rfl⟩
  | @cons block group blocks groups hblock hblocks ih =>
    obtain ⟨parts, hparts, hsource⟩ := ih
    obtain ⟨hne, pieces, hwritten, hpieces⟩ := hblock
    refine ⟨pieces :: parts, .cons hwritten hparts, ?_⟩
    cases hblocks with
    | nil =>
      cases hparts
      rw [List.intercalate_singleton, hpieces, List.flatten_cons, List.flatten_nil, List.append_nil]
    | @cons _ group' _ groups' hnext _ =>
      have hrest : (group' :: groups').flatten ≠ [] := by
        rw [List.flatten_cons]
        exact List.append_ne_nil_of_left_ne_nil hnext.1 _
      cases hparts with
      | cons _ _ =>
        rw [List.intercalate_cons_cons, source_append, source_append, hpieces, hsource]
        change _ = join (group ++ (group' :: groups').flatten)
        rw [join_append hne hrest, List.append_assoc]
        rfl

theorem accounts_flushParagraph (paragraph : List Units) :
    Accounts (flushParagraph classify paragraph) paragraph := by
  unfold flushParagraph
  split
  next h =>
    rw [h]
    exact accounts_nil
  next h =>
    obtain ⟨pieces, hwritten, hsource⟩ := written_parseInline classify (join paragraph) 0
    exact Lines.accounts ⟨h, pieces, .paragraph hwritten, hsource⟩

/-! ### Quotes -/

/-- The text with a prefix before every line but the first. -/
def prefixed : List Units → Units → Units
  | _, [] => []
  | prefixes, c :: u =>
    if c = NEWLINE then c :: (prefixes.take 1).flatten ++ prefixed (prefixes.drop 1) u
    else c :: prefixed prefixes u

theorem prefixed_append (prefixes : List Units) (h : NEWLINE ∉ u) (v : Units) :
    prefixed prefixes (u ++ v) = u ++ prefixed prefixes v := by
  induction u with
  | nil => rfl
  | cons c u ih =>
    obtain ⟨hc, hu⟩ := not_or.mp (List.mem_cons.not.mp h)
    rw [List.cons_append, prefixed, if_neg (Ne.symm hc), ih hu]
    rfl

theorem prefixed_newline (prefixes : List Units) (u : Units) : prefixed prefixes (NEWLINE :: u) =
    NEWLINE :: (prefixes.take 1).flatten ++ prefixed (prefixes.drop 1) u := by
  rw [prefixed, if_pos rfl]

theorem source_map_quotePrefix (prefixes : List Units) :
    source (prefixes.map .quotePrefix) = prefixes.flatten := by
  induction prefixes with
  | nil => rfl
  | cons written prefixes ih => rw [List.map_cons, source_cons, ih]; rfl

theorem source_weave (h : ∀ piece ∈ pieces, piece.breaks = true ∨ NEWLINE ∉ piece.source)
    (prefixes : List Units) :
    source (weave prefixes pieces) = prefixed prefixes (source pieces) := by
  induction pieces generalizing prefixes with
  | nil => cases prefixes <;> rfl
  | cons piece pieces ih =>
    obtain ⟨hpiece, hpieces⟩ := List.forall_mem_cons.mp h
    rw [weave, source_cons]
    split
    next hbreaks =>
      have hnewline : piece.source = [NEWLINE] := by
        cases piece with
        | kept c => rw [Piece.source, of_decide_eq_true hbreaks]
        | _ => cases hbreaks
      rw [List.cons_append, source_cons, source_append, source_map_quotePrefix, ih hpieces,
        hnewline, List.singleton_append, List.singleton_append, prefixed_newline]
      rfl
    next hbreaks =>
      rw [source_cons, ih hpieces, prefixed_append _ (hpiece.resolve_left hbreaks)]

theorem prefixed_join (hfirst : NEWLINE ∉ first) (hrests : ∀ rest ∈ rests, NEWLINE ∉ rest)
    (hlength : prefixes.length = rests.length) :
    prefixed prefixes (join (first :: rests)) =
      join (first :: List.zipWith (· ++ ·) prefixes rests) := by
  induction rests generalizing first prefixes with
  | nil =>
    rw [List.zipWith_nil_right, join_singleton]
    have hprefixed := prefixed_append prefixes hfirst []
    rw [List.append_nil] at hprefixed
    rw [hprefixed, prefixed, List.append_nil]
  | cons rest rests ih =>
    cases prefixes with
    | nil => cases hlength
    | cons written prefixes =>
      obtain ⟨hrest, hrests⟩ := List.forall_mem_cons.mp hrests
      rw [join_cons_cons, prefixed_append _ hfirst, prefixed_newline, List.drop_one, List.tail_cons,
        ih hrest hrests (Nat.succ.inj hlength), List.zipWith_cons_cons, join_cons_cons,
        join_append_cons]
      simp

/-- A piece of the markup inside a block. -/
def Piece.inline : Piece → Bool
  | .quotePrefix _ | .fence _ | .lineBreak => false
  | _ => true

theorem breaks_of_inline {piece : Piece} (h : piece.inline = true) :
    piece.breaks = true ∨ NEWLINE ∉ piece.source := by
  cases piece with
  | kept c =>
    by_cases hc : c = NEWLINE
    · exact .inl (decide_eq_true hc)
    · exact .inr fun hmem => hc (List.mem_singleton.mp hmem).symm
  | backslash | backquote => exact .inr (by decide)
  | marker kind => cases kind <;> exact .inr (by decide)
  | quotePrefix | fence | lineBreak => cases h

theorem inline_map_kept (t : Units) : ∀ piece ∈ t.map Piece.kept, piece.inline = true :=
  List.forall_mem_map.mpr fun _ _ => rfl

theorem Spelled.inline (h : Spelled t pieces) : ∀ piece ∈ pieces, piece.inline = true := by
  induction h with
  | nil => exact List.forall_mem_nil _
  | kept c _ ih => exact List.forall_mem_cons.mpr ⟨rfl, ih⟩
  | escaped _ _ ih => exact List.forall_mem_cons.mpr ⟨rfl, List.forall_mem_cons.mpr ⟨rfl, ih⟩⟩

theorem Written.inline (h : Written nodes pieces) : ∀ piece ∈ pieces, piece.inline = true := by
  induction h with
  | nil => exact List.forall_mem_nil _
  | text hspelled _ ih => exact List.forall_mem_append.mpr ⟨hspelled.inline, ih⟩
  | code t _ ih =>
    exact List.forall_mem_append.mpr ⟨List.forall_mem_cons.mpr ⟨rfl, inline_map_kept t⟩,
      List.forall_mem_cons.mpr ⟨rfl, ih⟩⟩
  | link raw _ ih => exact List.forall_mem_append.mpr ⟨inline_map_kept raw, ih⟩
  | span kind _ _ ihchildren ih =>
    exact List.forall_mem_append.mpr ⟨List.forall_mem_cons.mpr ⟨rfl, ihchildren⟩,
      List.forall_mem_cons.mpr ⟨rfl, ih⟩⟩

/-- What a quote is made of: for each of its lines, the prefix and the rest. -/
structure Quoted (prefixes quote lines : List Units) : Prop where
  length : prefixes.length = quote.length
  isPrefix : ∀ written ∈ prefixes, IsPrefix written
  newline : ∀ rest ∈ quote, NEWLINE ∉ rest
  lines : lines = List.zipWith (· ++ ·) prefixes quote

theorem Quoted.accounts (h : Quoted prefixes quote lines) :
    Accounts (flushQuote classify quote) lines := by
  unfold flushQuote
  obtain ⟨hlength, hprefix, hnewline, rfl⟩ := h
  split
  next hempty =>
    rw [hempty, List.zipWith_nil_right]
    exact accounts_nil
  next hne =>
    obtain ⟨rest, rests, rfl⟩ := List.exists_cons_of_ne_nil hne
    cases prefixes with
    | nil => cases hlength
    | cons written prefixes =>
      obtain ⟨pieces, hwritten, hsource⟩ := written_parseInline classify (join (rest :: rests)) 0
      obtain ⟨hrest, hrests⟩ := List.forall_mem_cons.mp hnewline
      refine Lines.accounts ⟨List.cons_ne_nil _ _, _, .quote hprefix hwritten, ?_⟩
      rw [source_cons, source_weave fun piece hmem => breaks_of_inline (hwritten.inline piece hmem),
        hsource, prefixed_join hrest hrests (Nat.succ.inj hlength), List.zipWith_cons_cons,
        join_append_cons]
      rfl

theorem QUOTE_eq_some (h : QUOTE line = some (written, rest)) :
    IsPrefix written ∧ line = written ++ rest := by
  have hdrop : ∀ {t : Units} {n}, t.length = n → startsWith line t 0 = true →
      line = t ++ line.drop n := by
    rintro t _ rfl hstart
    obtain ⟨rest, hrest⟩ := startsWith_iff.mp hstart
    rw [List.drop_zero] at hrest
    rw [← hrest, List.drop_left]
  unfold QUOTE at h
  split at h
  next hstart =>
    cases h
    exact ⟨.inl rfl, hdrop rfl hstart⟩
  · split at h
    next hstart =>
      cases h
      exact ⟨.inr rfl, hdrop rfl hstart⟩
    · cases h

/-! ### Fences -/

theorem source_map_fence (closings : List Units) :
    source (closings.map .fence) = closings.flatten := by
  induction closings with
  | nil => rfl
  | cons closing closings ih => rw [List.map_cons, source_cons, ih]; rfl

theorem lines_code (lang : Option Units) (body : List Units) (hopening : isFence opening = true)
    (hclosings : ∀ closing ∈ closings, isFence closing = true) (hone : closings.length ≤ 1) :
    Lines (.code lang (join body)) (opening :: body ++ closings) := by
  refine ⟨List.cons_ne_nil _ _, ?_⟩
  have hcode : ∀ (first : Units) (closing : List Units), FenceLine first →
      (∀ last ∈ closing, FenceLine last) → closing.length ≤ 1 →
      join (opening :: body ++ closings) = first ++ (join body ++ closing.flatten) →
        ∃ pieces, BlockWritten (.code lang (join body)) pieces ∧
          source pieces = join (opening :: body ++ closings) := by
    intro first closing hfirst hclosing hlength hjoin
    refine ⟨_, .code lang (join body) hfirst hclosing hlength, ?_⟩
    rw [List.cons_append, source_cons, source_append, source_map_kept, source_map_fence, hjoin]
    rfl
  have hafter : FenceLine (opening ++ [NEWLINE]) := ⟨opening, hopening, .inr (.inl rfl)⟩
  cases closings with
  | nil =>
    cases body with
    | nil =>
      refine hcode _ [] ⟨opening, hopening, .inl rfl⟩ (List.forall_mem_nil _) hone ?_
      rw [List.append_nil, join_singleton]
      exact (List.append_nil _).symm
    | cons line body =>
      refine hcode _ [] hafter (List.forall_mem_nil _) hone ?_
      rw [List.append_nil, join_cons_cons, List.flatten_nil, List.append_nil, List.append_assoc]
      rfl
  | cons closing rest =>
    obtain rfl : rest = [] := List.eq_nil_of_length_eq_zero (by simpa using hone)
    have hlast := List.forall_mem_singleton.mp hclosings
    cases body with
    | nil =>
      refine hcode _ [closing] hafter
        (List.forall_mem_singleton.mpr ⟨closing, hlast, .inl rfl⟩) hone ?_
      rw [List.singleton_append, join_cons_cons, join_singleton, List.append_assoc]
      simp [join]
    | cons line body =>
      refine hcode _ [NEWLINE :: closing] hafter
        (List.forall_mem_singleton.mpr ⟨closing, hlast, .inr (.inr rfl)⟩) hone ?_
      rw [join_append (List.cons_ne_nil _ _) (List.cons_ne_nil _ _), join_cons_cons, join_singleton]
      simp

theorem dropWhile_fences (lines : List Units) : ∀ closing ∈ (lines.dropWhile (!isFence ·)).take 1,
    isFence closing = true := by
  intro closing hmem
  have hhead := List.head?_dropWhile_not (fun line => !isFence line) lines
  cases hdrop : lines.dropWhile (!isFence ·) with
  | nil => rw [hdrop] at hmem; cases hmem
  | cons first rest =>
    rw [hdrop] at hmem hhead
    obtain rfl : closing = first := by simpa using hmem
    simpa using hhead

/-- Each of the lines the loop has read or has yet to read belongs to one of the blocks, in its
turn. -/
theorem accounts_blocksFrom {prefixes quoted : List Units} (hquoted : Quoted prefixes quote quoted)
    (hnewline : ∀ line ∈ lines, NEWLINE ∉ line) (hone : paragraph = [] ∨ quote = []) :
    Accounts (blocksFrom classify lines paragraph quote) (paragraph ++ quoted ++ lines) := by
  have hflush : ∀ paragraph {quote prefixes quoted}, Quoted prefixes quote quoted →
      Accounts (flushParagraph classify paragraph ++ flushQuote classify quote)
        (paragraph ++ quoted) :=
    fun paragraph _ _ _ hquoted => (accounts_flushParagraph paragraph).append hquoted.accounts
  have hempty : Quoted [] [] [] := ⟨rfl, List.forall_mem_nil _, List.forall_mem_nil _, rfl⟩
  induction lines, paragraph, quote using blocksFrom.induct generalizing prefixes quoted with
  | case1 paragraph quote =>
    rw [blocksFrom_nil, List.append_nil]
    exact hflush _ hquoted
  | case2 paragraph quote line lines lang hfence rest =>
    rename_i ih
    obtain ⟨_, hlines⟩ := List.forall_mem_cons.mp hnewline
    have hrest := ih hempty (fun line hmem => hlines line
      ((List.dropWhile_suffix _).subset (List.mem_of_mem_drop hmem))) (.inl rfl)
    have hcode := (lines_code (if lang = [] then none else some (toLowerCase lang))
      (lines.takeWhile (!isFence ·)) (by rw [isFence, hfence]; rfl) (dropWhile_fences lines)
      (by rw [List.length_take]; exact Nat.min_le_left ..)).accounts
    have hall := (hflush paragraph hquoted).append (hcode.append hrest)
    have hsplit : line :: lines.takeWhile (!isFence ·) ++ (lines.dropWhile (!isFence ·)).take 1 ++
        rest = line :: lines := by
      rw [List.append_assoc, List.take_append_drop, List.cons_append,
        List.takeWhile_append_dropWhile]
    rw [List.nil_append, List.nil_append, hsplit] at hall
    rw [blocksFrom_fence hfence]
    exact hall
  | case3 paragraph quote line lines hfence written rest hquote ih =>
    obtain ⟨hline, hlines⟩ := List.forall_mem_cons.mp hnewline
    obtain ⟨hread, rfl⟩ := QUOTE_eq_some hquote
    obtain ⟨hlength, hprefixes, hrests, rfl⟩ := hquoted
    have hnext : Quoted (prefixes ++ [written]) (quote ++ [rest])
        (List.zipWith (· ++ ·) prefixes quote ++ [written ++ rest]) := by
      have hrest : NEWLINE ∉ rest := fun hmem => hline (List.mem_append_right _ hmem)
      refine ⟨by simp [hlength],
        List.forall_mem_append.mpr ⟨hprefixes, List.forall_mem_singleton.mpr hread⟩,
        List.forall_mem_append.mpr ⟨hrests, List.forall_mem_singleton.mpr hrest⟩, ?_⟩
      rw [List.zipWith_append hlength]
      rfl
    have hflushed : Accounts (flushParagraph classify paragraph) paragraph :=
      accounts_flushParagraph paragraph
    have hall := hflushed.append (ih hnext hlines (.inl rfl))
    rw [blocksFrom_quote hfence hquote]
    convert hall using 1
    simp
  | case4 paragraph quote line lines hfence hquote ih =>
    obtain ⟨_, hlines⟩ := List.forall_mem_cons.mp hnewline
    have hflushed : Accounts (flushQuote classify quote) quoted := hquoted.accounts
    have hall := hflushed.append (ih hempty hlines (.inr rfl))
    rw [blocksFrom_paragraph hfence hquote]
    convert hall using 1
    rcases hone with rfl | rfl
    · simp
    · obtain ⟨_, _, _, rfl⟩ := hquoted
      simp

theorem notMem_of_mem_splitOn (text : Units) : ∀ line ∈ text.splitOn NEWLINE, NEWLINE ∉ line := by
  induction text with
  | nil => exact List.forall_mem_singleton.mpr List.not_mem_nil
  | cons c text ih =>
    rw [List.splitOn_cons_eq_if_modifyHead]
    split
    · exact List.forall_mem_cons.mpr ⟨List.not_mem_nil, ih⟩
    next hc =>
      obtain ⟨line, lines, hlines⟩ := List.exists_cons_of_ne_nil (List.splitOn_ne_nil NEWLINE text)
      rw [hlines] at ih ⊢
      obtain ⟨hline, hrest⟩ := List.forall_mem_cons.mp ih
      refine List.forall_mem_cons.mpr ⟨fun hmem => ?_, hrest⟩
      rcases List.mem_cons.mp hmem with h | h
      · exact hc (beq_iff_eq.mpr h.symm)
      · exact hline h

theorem parseBlocks_drawn (classify : Units → Bool) (text : Units) :
    ∃ pieces, Drawn (parseBlocks classify text) pieces ∧ source pieces = text := by
  have hempty : Quoted [] [] [] := ⟨rfl, List.forall_mem_nil _, List.forall_mem_nil _, rfl⟩
  have haccounts : Accounts (parseBlocks classify text) ([] ++ [] ++ text.splitOn NEWLINE) :=
    accounts_blocksFrom hempty (notMem_of_mem_splitOn text) (.inl rfl)
  obtain ⟨pieces, hdrawn, hsource⟩ := haccounts.drawn
  refine ⟨pieces, hdrawn, hsource.trans ?_⟩
  exact List.intercalate_splitOn NEWLINE

end

/-! ## What comes of a message -/

/-- A tree that is bounded, and drawn from the whole text: each piece of it kept or consumed. -/
structure Faithful (text : Units) (blocks : List Block) : Prop where
  nodes : count blocks ≤ MAX_NODES
  depth : ∀ block ∈ blocks, block.depth ≤ MAX_DEPTH
  drawn : ∃ pieces, Drawn blocks pieces ∧ source pieces = text ∧
    kept pieces = blocks.flatMap Block.held

/-- The text as it is written. -/
theorem faithful_raw (text : Units) : Faithful text [.paragraph [.text text]] where
  nodes := by
    change 1 + (1 + 0) + 0 ≤ MAX_NODES
    decide
  depth := List.forall_mem_singleton.mpr (Nat.zero_le _)
  drawn := by
    have hdrawn : Drawn [.paragraph [.text text]] (text.map .kept) := by
      have hwritten := Written.text (spelled_kept text) .nil
      rw [List.append_nil] at hwritten
      exact ⟨[text.map .kept], .cons (.paragraph hwritten) .nil, List.intercalate_singleton.symm⟩
    exact ⟨_, hdrawn, source_map_kept text, hdrawn.kept_eq⟩

/-- Markdown loses no text, and is bounded: what is not in the tree is markup, or the line break
between one block and the next. -/
theorem parse_faithful (classify : Units → Bool) (text : Units) :
    Faithful text (parse classify text) := by
  unfold parse
  split
  · exact faithful_raw text
  · dsimp only
    split
    · exact faithful_raw text
    next hnodes =>
      obtain ⟨pieces, hdrawn, hsource⟩ := parseBlocks_drawn classify text
      exact ⟨Nat.le_of_not_lt hnodes, fun _ => depth_of_mem_blocksFrom,
        pieces, hdrawn, hsource, hdrawn.kept_eq⟩

/-- The pieces that are syntax of the markup itself. -/
def Piece.Markup : Piece → Prop
  | .fence written => FenceLine written
  | .quotePrefix written => IsPrefix written
  | .lineBreak => False
  | _ => True

/-- Of the markup, only a fence takes a line break with it. -/
theorem kept_newline {piece : Piece} (h : piece.Markup) (hfence : BACKQUOTE ∉ piece.source)
    (hnewline : NEWLINE ∈ piece.source) : NEWLINE ∈ piece.text := by
  cases piece with
  | kept c => exact hnewline
  | backslash | backquote => exact absurd hnewline (by decide)
  | marker kind => cases kind <;> exact absurd hnewline (by decide)
  | quotePrefix written => rcases h with rfl | rfl <;> exact absurd hnewline (by decide)
  | lineBreak => exact h.elim
  | fence written =>
    refine absurd ?_ hfence
    obtain ⟨line, hline, hwritten⟩ := h
    have hmem : BACKQUOTE ∈ line := by
      unfold isFence FENCE at hline
      split at hline
      next hstart =>
        obtain ⟨rest, hrest⟩ := startsWith_iff.mp hstart
        rw [List.drop_zero] at hrest
        rw [← hrest]
        exact List.mem_append_left _ (by decide)
      · cases hline
    rcases hwritten with rfl | rfl | rfl
    · exact hmem
    · exact List.mem_append_left _ hmem
    · exact List.mem_cons_of_mem _ hmem

theorem parseInline_letter (h : c = 0x61 ∨ c = 0x62) :
    parseInline (fun _ => false) [c] 0 = [.text [c]] := by
  have hscan : Link.scan (fun _ => false) [c] = [] := by
    have hexec : Link.exec [c] 0 = none := by rcases h with rfl | rfl <;> decide
    rw [Link.scan, Link.scanFrom]
    split
    · rfl
    next hsome => cases hexec.symm.trans hsome
  have hturn : turn ([] : List (Found [c])) (some (parseInlineWithin (fun _ => false) 5))
      ⟨[], [], [], 0⟩ c = ⟨[], [], [c], 1⟩ := by
    rcases h with rfl | rfl <;> rfl
  have hloop : scan ([] : List (Found [c])) (some (parseInlineWithin (fun _ => false) 5))
      ⟨[], [], [], 0⟩ = ⟨[], [], [c], 1⟩ := by
    rw [scan]
    refine (dif_pos Nat.zero_lt_one).trans ((congrArg _ hturn).trans ?_)
    rw [scan]
    exact dif_neg (Nat.lt_irrefl 1)
  rw [parseInline, show MAX_DEPTH - 0 = 5 + 1 from rfl, parseInlineWithin, hscan, hloop]
  rfl

/-- A quote after a paragraph: the line break between them is in no node, and is no markup. -/
theorem break_lost : ¬ ∀ classify text, count (parse classify text) ≤ MAX_NODES ∧
    (∀ block ∈ parse classify text, block.depth ≤ MAX_DEPTH) ∧
    ∃ pieces : List Piece, (∀ piece ∈ pieces, piece.Markup) ∧ source pieces = text ∧
      kept pieces = (parse classify text).flatMap Block.held := by
  intro h
  obtain ⟨-, -, pieces, hmarkup, hsource, hkept⟩ := h (fun _ => false) (units "a\n> b")
  have hblocks : parseBlocks (fun _ => false) (units "a\n> b") =
      [.paragraph [.text (units "a")], .quote [.text (units "b")]] := by
    rw [parseBlocks, show (units "a\n> b").splitOn NEWLINE = [units "a", units "> b"] by decide,
      blocksFrom_paragraph (by decide) (by decide),
      blocksFrom_quote (by decide)
        (show QUOTE (units "> b") = some (units "> ", units "b") by decide),
      blocksFrom_nil]
    change flushParagraph _ [units "a"] ++ flushQuote _ [units "b"] = _
    rw [flushParagraph, flushQuote, if_neg (List.cons_ne_nil _ _), if_neg (List.cons_ne_nil _ _),
      join_singleton, join_singleton, show units "a" = [0x61] by decide,
      show units "b" = [0x62] by decide, parseInline_letter (.inl rfl),
      parseInline_letter (.inr rfl)]
    rfl
  have hparse : (parse (fun _ => false) (units "a\n> b")).flatMap Block.held = units "ab" := by
    rw [parse, if_neg (by decide), hblocks]
    decide
  rw [hparse] at hkept
  have hnewline : NEWLINE ∈ source pieces := by
    rw [hsource]
    decide
  obtain ⟨piece, hpiece, hmem⟩ := List.mem_flatMap.mp hnewline
  have hfence : BACKQUOTE ∉ piece.source := by
    intro hbackquote
    have hall : BACKQUOTE ∈ source pieces := List.mem_flatMap.mpr ⟨piece, hpiece, hbackquote⟩
    rw [hsource] at hall
    exact absurd hall (by decide)
  have hlost : NEWLINE ∈ kept pieces :=
    List.mem_flatMap.mpr ⟨piece, hpiece, kept_newline (hmarkup piece hpiece) hfence hmem⟩
  rw [hkept] at hlost
  exact absurd hlost (by decide)

end Whispee.Text.Markdown
