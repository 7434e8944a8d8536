import Whispee.Server.Envelopes
import Whispee.Lib.Tasks

/-!
# The order of a mailbox, and its gaps

Numbers are drawn under the group's row, so the envelopes ever committed are numbered `1, 2, 3, …`
in the order of their commits, in every run. What the two remaining promises rest on is not in the
code: a purge leaves a suffix when age and number agree, and a fetch shows a gap when no purge
takes effect between its two queries (`ordered_of_undisturbed`); a purge that does opens a silent
hole (`purge_between_queries_skips`).
-/

namespace Whispee.Server

open Transition (Reach run)

/-! ## Numbered lists -/

/-- The envelopes are numbered one after the other, from `n + 1` on. -/
def Numbered (n : Nat) (l : List Envelope) : Prop := l.map (·.seq) = List.range' (n + 1) l.length

namespace Numbered

variable {l : List Envelope}

theorem nil : Numbered n [] := rfl

theorem cons_iff : Numbered n (e :: l) ↔ e.seq = n + 1 ∧ Numbered (n + 1) l := by
  simp [Numbered, List.range'_succ]

theorem concat (h : Numbered n l) (he : e.seq = n + l.length + 1) : Numbered n (l ++ [e]) := by
  simp only [Numbered, List.map_append, List.map_cons, List.map_nil, List.length_append,
    List.length_singleton, List.range'_concat, Nat.one_mul]
  rw [show l.map (·.seq) = _ from h, he]
  congr 2
  omega

theorem drop (h : Numbered n l) (k : Nat) : Numbered (n + k) (l.drop k) := by
  have := congrArg (List.drop k) h
  rw [List.drop_range', Nat.mul_one] at this
  rw [Numbered, List.map_drop, this, List.length_drop]
  congr 1
  omega

theorem lt_of_mem (h : Numbered n l) (he : e ∈ l) : n < e.seq ∧ e.seq ≤ n + l.length := by
  have : e.seq ∈ List.range' (n + 1) l.length := h ▸ List.mem_map_of_mem he
  rw [List.mem_range'_1] at this
  omega

theorem pairwise (h : Numbered n l) : l.Pairwise (·.seq < ·.seq) := by
  have : (l.map (·.seq)).Pairwise (· < ·) := h ▸ List.pairwise_lt_range'
  exact List.pairwise_map.1 this

/-- The envelopes numbered above a number are the ones left when the others are dropped. -/
theorem filter_lt (h : Numbered n l) (k : Nat) : l.filter (k < ·.seq) = l.drop (k - n) := by
  induction l generalizing n with
  | nil => simp
  | cons e l ih =>
    obtain ⟨he, hl⟩ := cons_iff.1 h
    by_cases hk : k ≤ n
    · rw [show k - n = 0 by omega, List.drop_zero, List.filter_cons_of_pos (by simp; omega),
        ih hl, show k - (n + 1) = 0 by omega, List.drop_zero]
    · rw [List.filter_cons_of_neg (by simp; omega), ih hl, show k - n = (k - (n + 1)) + 1 by omega,
        List.drop_succ_cons]

theorem getElem? (h : Numbered n l) (hi : l[i]? = some e) : e.seq = n + i + 1 := by
  have : (l.map (·.seq))[i]? = some e.seq := by rw [List.getElem?_map, hi, Option.map_some]
  rw [show l.map (·.seq) = _ from h] at this
  obtain ⟨hi', hs⟩ := List.getElem?_eq_some_iff.1 this
  rw [List.getElem_range'] at hs
  omega

theorem mem_drop_iff (h : Numbered n l) : e ∈ l.drop k ↔ e ∈ l ∧ n + k < e.seq := by
  rw [show k = (n + k) - n by omega, ← h.filter_lt, List.mem_filter]
  simp

theorem of_append (h : Numbered n (l ++ l')) : Numbered n l := by
  have := congrArg (List.take l.length) h
  rwa [List.map_append, List.take_left' (by simp), List.length_append,
    List.take_range'_of_length_ge (Nat.le_add_right ..)] at this

/-- The query of a page, on rows that are numbered one after the other. -/
theorem page_eq (h : Numbered n l) (after : Nat) :
    (GroupTable.page ⟨m, l⟩ after) = (l.drop (after - n)).take Group.MAX_ENVELOPES_PER_PAGE := by
  have ordered : (l.drop (after - n)).Pairwise (·.seq ≤ ·.seq) :=
    (h.drop (after - n)).pairwise.imp Nat.le_of_lt
  simp only [GroupTable.page, h.filter_lt, List.Pairwise.insertionSort_eq ordered]

theorem oldestSurviving_eq (h : Numbered n l) (hm : l = [] → n = m) :
    GroupTable.oldestSurviving ⟨m, l⟩ = n + 1 := by
  cases l with
  | nil => simp [GroupTable.oldestSurviving, hm rfl]
  | cons e l =>
    have : (List.range' (n + 1) (e :: l).length).min? = some (n + 1) := by
      rw [List.min?_eq_some_iff]
      simp [List.mem_range'_1]
      omega
    simp only [GroupTable.oldestSurviving]
    rw [show (e :: l).map (·.seq) = _ from h, this]
    rfl

end Numbered

theorem prefix_drop_concat {l xs : List α} (h : xs <+: l.drop n) : xs <+: (l ++ [a]).drop n := by
  rw [List.drop_append]
  exact h.trans (List.prefix_append ..)

/-- What has been read of a list, and then a part of what follows it. -/
theorem prefix_append_of_prefix_drop {l xs ys : List α} (h : xs <+: l)
    (h' : ys <+: l.drop xs.length) : xs ++ ys <+: l := by
  obtain ⟨rest, rfl⟩ := h
  rw [List.drop_left] at h'
  exact List.prefix_append_right_inj _ |>.2 h'

namespace Mailbox

/-! ## The invariant -/

/-- The posts under way and answered, over the log and its counter. -/
structure PostsOk (posts : List (PostEnvelope × PostPhase)) (log : List Envelope)
    (nextSeq : Nat) : Prop where
  /-- A number drawn and not committed is the next one. -/
  drawn : ∀ p ∈ posts, ∀ seq, p.2.drawn = some seq → seq = nextSeq + 1
  /-- One transaction holds the row. -/
  holder : Tasks.Exclusive (fun p => p.2.drawn ≠ none) posts
  /-- A number answered is the one of the payload posted. -/
  answered : ∀ p ∈ posts, ∀ seq, p.2 = .posted seq →
    ∃ createdAt, ⟨seq, p.1.payload, createdAt⟩ ∈ log
  /-- No number is answered twice. -/
  unique : ∀ seq, Tasks.Exclusive (fun p => p.2 = .posted seq) posts

/-- What a purge has selected: every envelope retained up to some number out of the tail. -/
def Selected (t : GroupTable) (seqs : List Nat) : Prop :=
  ∃ k, (k = 0 ∨ k + ENVELOPE_MIN_TAIL ≤ t.nextSeq) ∧ (∀ n ∈ seqs, n ≤ k) ∧
    ∀ e ∈ t.envelopes, e.seq ≤ k → e.seq ∈ seqs

/-- What a fetch under way may count on. -/
def FetchOk (log : List Envelope) (t : GroupTable) (cursor : Nat) : Fetch → Prop
  | .idle => True
  | .asked after | .member after => after = cursor
  -- Between its two queries a fetch that shows no gap still finds all it asks for.
  | .counted after oldest => after = cursor ∧
    (oldest ≤ after + 1 → ∀ e ∈ log, after < e.seq → e ∈ t.envelopes)
  | .answered after page posted => after = cursor ∧
    (page.oldest ≤ after + 1 → page.envelopes <+: log.drop after ∧
      (page.envelopes = [] → posted ≤ after))

/-- What a client holds, over the log and the table. -/
structure Follows (log : List Envelope) (t : GroupTable) (c : Client) : Prop where
  read : c.read <+: log.drop c.start
  cursor : c.cursor = c.start + c.read.length
  fetch : FetchOk log t c.cursor c.fetch

structure Inv (m : Mailbox) : Prop where
  numbered : Numbered 0 m.log
  counter : m.log.length = m.nextSeq
  /-- The retained envelopes are a suffix, which keeps the tail. -/
  suffix : ∃ k, m.envelopes = m.log.drop k ∧ (k = 0 ∨ k + ENVELOPE_MIN_TAIL ≤ m.nextSeq)
  posts : PostsOk m.posts m.log m.nextSeq
  purges : ∀ seqs ∈ m.purges, Selected m.toGroupTable seqs
  clients : ∀ c ∈ m.clients, Follows m.log m.toGroupTable c

/-! ## Posts -/

namespace PostsOk

variable {posts : List (PostEnvelope × PostPhase)} {log : List Envelope}
  (h : PostsOk posts log n)
include h

theorem concat (hd : phase.drawn = none) (ha : ∀ seq, phase ≠ .posted seq) :
    PostsOk (posts ++ [(r, phase)]) log n where
  drawn := Tasks.forall_mem_concat h.drawn fun seq hseq => by simp [hd] at hseq
  holder := h.holder.concat (by simp [hd])
  answered := Tasks.forall_mem_concat h.answered fun seq hseq => absurd hseq (ha seq)
  unique seq := (h.unique seq).concat (ha seq)

/-- A post moves on without committing. -/
theorem move (at_ : posts[i]? = some (r, old)) (ha : ∀ seq, new ≠ .posted seq)
    (hd : ∀ seq, new.drawn = some seq → old.drawn = some seq ∨
      (seq = n + 1 ∧ ∀ p ∈ posts, p.2.drawn = none)) :
    PostsOk (posts.set i (r, new)) log n where
  drawn := Tasks.forall_mem_set h.drawn fun seq hseq => by
    rcases hd seq hseq with hold | ⟨hnew, _⟩
    · exact h.drawn _ (List.mem_of_getElem? at_) seq hold
    · exact hnew
  holder := h.holder.set at_ fun hnew => by
    obtain ⟨seq, hseq⟩ := Option.ne_none_iff_exists'.1 hnew
    rcases hd seq hseq with hold | ⟨_, free⟩
    · exact .inl (by simp [hold])
    · exact .inr fun p hp => by simp [free p hp]
  answered := Tasks.forall_mem_set h.answered fun seq hseq => absurd hseq (ha seq)
  unique seq := (h.unique seq).set at_ fun hnew => absurd hnew (ha seq)

/-- The holder of the row commits. -/
theorem commit (hl : Numbered 0 log) (hn : log.length = n)
    (at_ : posts[i]? = some (r, .inserted createdAt seq)) :
    PostsOk (posts.set i (r, .posted seq)) (log ++ [⟨seq, r.payload, createdAt⟩]) seq where
  drawn := by
    intro p hp seq' hseq'
    obtain ⟨j, hj⟩ := List.mem_iff_getElem?.1 hp
    rcases (Tasks.getElem?_set_eq_some_iff at_).1 hj with ⟨_, rfl⟩ | ⟨hne, hj⟩
    · cases hseq'
    · exact absurd (h.holder hj at_ (by simp [hseq']) (by simp [PostPhase.drawn])) hne
  holder := h.holder.set at_ fun hnew => absurd rfl hnew
  answered := by
    refine Tasks.forall_mem_set ?_ ?_
    · intro p hp seq' hseq'
      obtain ⟨createdAt', he⟩ := h.answered p hp seq' hseq'
      exact ⟨createdAt', List.mem_append_left _ he⟩
    · intro seq' hseq'
      cases hseq'
      exact ⟨createdAt, List.mem_append_right _ (List.mem_singleton.2 rfl)⟩
  unique := by
    intro seq'
    refine (h.unique seq').set at_ fun hnew => .inr ?_
    cases hnew
    -- The number is above all the ones answered so far.
    intro p hp hans
    obtain ⟨createdAt', he⟩ := h.answered p hp seq hans
    have below := (hl.lt_of_mem he).2
    have next := h.drawn _ (List.mem_of_getElem? at_) seq rfl
    dsimp only at below
    omega

end PostsOk

/-! ## Rows -/

theorem Selected.insert {t : GroupTable} (h : Selected t seqs) (he : e.seq = t.nextSeq + 1) :
    Selected (t.insert e) seqs := by
  obtain ⟨k, hk, below, all⟩ := h
  refine ⟨k, hk.imp_right fun hk => by simp only [GroupTable.insert_nextSeq]; omega, below, ?_⟩
  refine Tasks.forall_mem_concat all fun hle => ?_
  omega

theorem Selected.delete {t : GroupTable} (h : Selected t seqs) : Selected (t.delete seqs') seqs := by
  obtain ⟨k, hk, below, all⟩ := h
  exact ⟨k, hk, below, fun e he => all e (List.mem_filter.1 he).1⟩

/-- A purge that starts where age and number agree selects all it can up to some number. -/
theorem selected_of_inOrderOfAge {m : Mailbox} (hm : m.inOrderOfAge now)
    (hpos : ∀ e ∈ m.envelopes, 0 < e.seq) :
    Selected m.toGroupTable ((m.envelopes.filter (m.doomed now)).map (·.seq)) := by
  have ordered : ∀ e ∈ m.envelopes, ∀ e' ∈ m.envelopes, e.seq ≤ e'.seq → m.doomed now e' →
      GroupTable.expired now e := by
    simpa only [inOrderOfAge, List.all_eq_true, decide_eq_true_eq] using hm
  cases hmax : ((m.envelopes.filter (m.doomed now)).map (·.seq)).max? with
  | none =>
    refine ⟨0, .inl rfl, ?_, fun e he hle => ?_⟩
    · simp [List.max?_eq_none_iff.1 hmax]
    · have := hpos e he
      omega
  | some k =>
    obtain ⟨hmem, hle⟩ := List.max?_eq_some_iff.1 hmax
    obtain ⟨e', he', rfl⟩ := List.mem_map.1 hmem
    obtain ⟨he', hd⟩ := List.mem_filter.1 he'
    have tail : e'.seq + ENVELOPE_MIN_TAIL ≤ m.nextSeq := by
      have := hd
      simp only [GroupTable.doomed, Bool.and_eq_true, decide_eq_true_eq] at this
      exact this.2
    refine ⟨e'.seq, .inr tail, hle, fun e he hbelow => ?_⟩
    refine List.mem_map.2 ⟨e, List.mem_filter.2 ⟨he, ?_⟩, rfl⟩
    simp only [GroupTable.doomed, Bool.and_eq_true, decide_eq_true_eq]
    exact ⟨ordered e he e' he' hbelow hd, by omega⟩

/-- A committed purge drops the envelopes up to some number. -/
theorem filter_of_selected {l : List Envelope} {seqs : List Nat} (hl : Numbered n l)
    (below : ∀ s ∈ seqs, s ≤ k) (all : ∀ e ∈ l, e.seq ≤ k → e.seq ∈ seqs) :
    l.filter (·.seq ∉ seqs) = l.drop (k - n) := by
  rw [← hl.filter_lt]
  refine List.filter_congr fun e he => ?_
  rw [decide_eq_decide]
  exact ⟨fun hne => Nat.lt_of_not_le fun hle => hne (all e he hle),
    fun hlt hmem => by have := below _ hmem; omega⟩

/-! ## Clients -/

section
variable {log : List Envelope} {t : GroupTable} {c : Client} {fetch : Fetch}

/-- A post is committed. -/
theorem FetchOk.insert (h : FetchOk log t cursor fetch) :
    FetchOk (log ++ [e]) (t.insert e) cursor fetch := by
  cases fetch with
  | idle => trivial
  | asked after | member after => exact h
  | counted after oldest =>
    refine ⟨h.1, fun hle => Tasks.forall_mem_concat (fun e' he' ha => ?_) fun _ => ?_⟩
    · exact List.mem_append_left _ (h.2 hle e' he' ha)
    · exact List.mem_append_right _ (List.mem_singleton.2 rfl)
  | answered after page posted =>
    exact ⟨h.1, fun hle => ⟨prefix_drop_concat (h.2 hle).1, (h.2 hle).2⟩⟩

/-- A purge takes effect, on nothing the fetch counts on. -/
theorem FetchOk.delete (h : FetchOk log t cursor fetch)
    (hg : ∀ after oldest, fetch = .counted after oldest → oldest ≤ after + 1 →
      ∀ e ∈ t.envelopes, e.seq ∈ seqs → e.seq ≤ after) :
    FetchOk log (t.delete seqs) cursor fetch := by
  cases fetch with
  | idle => trivial
  | asked after | member after | answered after page posted => exact h
  | counted after oldest =>
    refine ⟨h.1, fun hle e he ha => ?_⟩
    have hmem := h.2 hle e he ha
    refine List.mem_filter.2 ⟨hmem, ?_⟩
    rw [decide_eq_true_eq]
    intro hdel
    have := hg after oldest rfl hle e hmem hdel
    omega

theorem Follows.insert (h : Follows log t c) :
    Follows (log ++ [e]) (t.insert e) c :=
  ⟨prefix_drop_concat h.read, h.cursor, h.fetch.insert⟩

theorem Follows.setFetch (h : Follows log t c)
    (hf : FetchOk log t c.cursor fetch) : Follows log t { c with fetch } :=
  ⟨h.read, h.cursor, hf⟩

theorem foldl_max_seq {l : List Envelope} (h : Numbered n l) :
    l.foldl (max · ·.seq) n = n + l.length := by
  induction l generalizing n with
  | nil => rfl
  | cons e l ih =>
    obtain ⟨he, hl⟩ := Numbered.cons_iff.1 h
    rw [List.foldl_cons, he, Nat.max_eq_right (Nat.le_succ n), ih hl, List.length_cons]
    omega

/-- The client takes in the page it asked for. -/
theorem Follows.follow (h : Follows log t c) (hl : Numbered 0 log)
    (hf : c.fetch = .answered after page posted) : Follows log t (c.follow page) := by
  have ok := h.fetch
  rw [hf] at ok
  obtain ⟨rfl, hpage⟩ := ok
  simp only [Client.follow]
  split
  · exact ⟨h.read, h.cursor, trivial⟩
  · obtain ⟨ahead, _⟩ := hpage (by omega)
    have hnumbered : Numbered c.cursor page.envelopes := by
      have := hl.drop c.cursor
      obtain ⟨rest, hrest⟩ := ahead
      rw [← hrest, Nat.zero_add] at this
      exact this.of_append
    refine ⟨prefix_append_of_prefix_drop h.read ?_, ?_, trivial⟩
    · rwa [List.drop_drop, ← h.cursor]
    · rw [foldl_max_seq hnumbered, h.cursor, List.length_append, Nat.add_assoc]

end

/-! ## Steps -/

namespace Inv

variable {m : Mailbox} (h : Inv m)
include h

theorem setPost (hp : PostsOk (m.posts.set i (r, new)) m.log m.nextSeq) :
    Inv (m.setPost i r new) :=
  ⟨h.numbered, h.counter, h.suffix, hp, h.purges, h.clients⟩

theorem setClient (hc : Follows m.log m.toGroupTable c) : Inv (m.setClient i c) :=
  ⟨h.numbered, h.counter, h.suffix, h.posts, h.purges, Tasks.forall_mem_set h.clients hc⟩

/-- The holder of the row commits its envelope. -/
theorem commit (at_ : m.posts[i]? = some (r, .inserted createdAt seq)) :
    Inv { m.setPost i r (.posted seq) with
      toGroupTable := m.toGroupTable.insert ⟨seq, r.payload, createdAt⟩
      log := m.log ++ [⟨seq, r.payload, createdAt⟩] } := by
  have next : seq = m.nextSeq + 1 := h.posts.drawn _ (List.mem_of_getElem? at_) seq rfl
  obtain ⟨k, hk, hkept⟩ := h.suffix
  have hlen : k ≤ m.log.length := by
    have := h.counter
    omega
  refine ⟨?_, ?_, ⟨k, ?_, ?_⟩, h.posts.commit h.numbered h.counter at_, ?_, ?_⟩
  · exact h.numbered.concat (by simp [next, h.counter])
  · simp [next, h.counter]
  · simp only [GroupTable.insert_envelopes, hk]
    rw [List.drop_append_of_le_length hlen]
  · simp only [GroupTable.insert_nextSeq]
    omega
  · exact fun seqs hseqs => (h.purges seqs hseqs).insert next
  · exact fun c hc => (h.clients c hc).insert

/-- A purge starts. -/
theorem purge (hg : m.inOrderOfAge now) :
    Inv { m with purges := m.purges ++ [(m.envelopes.filter (m.doomed now)).map (·.seq)] } := by
  refine ⟨h.numbered, h.counter, h.suffix, h.posts, ?_, h.clients⟩
  refine Tasks.forall_mem_concat h.purges (selected_of_inOrderOfAge hg fun e he => ?_)
  obtain ⟨k, hk, _⟩ := h.suffix
  have := (h.numbered.lt_of_mem (List.mem_of_mem_drop (hk ▸ he))).1
  omega

/-- A purge takes effect. -/
theorem commitPurge (at_ : m.purges[j]? = some seqs) (hg : m.undisturbed (.commitPurge j)) :
    Inv { m with toGroupTable := m.toGroupTable.delete seqs, purges := m.purges.eraseIdx j } := by
  obtain ⟨k, hk, hkept⟩ := h.suffix
  obtain ⟨k', hk', below, all⟩ := h.purges seqs (List.mem_of_getElem? at_)
  refine ⟨h.numbered, h.counter, ⟨max k k', ?_, ?_⟩, h.posts, ?_, fun c hc => ?_⟩
  · rw [GroupTable.delete_envelopes]
    rw [hk] at all ⊢
    rw [filter_of_selected (h.numbered.drop k) below all, List.drop_drop]
    congr 1
    omega
  · simp only [GroupTable.delete_nextSeq]
    omega
  · exact fun seqs' hs => (h.purges seqs' (List.mem_of_mem_eraseIdx hs)).delete
  · have follows := h.clients c hc
    refine ⟨follows.read, follows.cursor, follows.fetch.delete fun after oldest hf hle e he hd => ?_⟩
    simp only [undisturbed, at_, List.all_eq_true] at hg
    have := hg c hc
    rw [hf] at this
    simp only [decide_eq_true_eq] at this
    exact this hle e he hd

/-- A post goes on to its next await. -/
theorem advancePost (at_ : m.posts[i]? = some (r, phase))
    (hs : m.advancePost i r now phase = some m') : Inv m' := by
  cases phase with
  | received =>
    cases hs
    exact h.setPost (h.posts.move at_ (by simp) (by simp [PostPhase.drawn]))
  | begun createdAt =>
    simp only [Mailbox.advancePost] at hs
    split at hs
    · cases hs
      refine h.setPost (h.posts.move at_ (by simp) fun seq hseq => .inr ?_)
      cases hseq
      refine ⟨rfl, fun p hp => ?_⟩
      have free : m.rowFree := ‹_›
      simpa using List.all_eq_true.1 free p hp
    · cases hs
  | numbered createdAt seq =>
    cases hs
    exact h.setPost (h.posts.move at_ (by simp) fun seq' hseq => .inl hseq)
  | inserted createdAt seq =>
    cases hs
    exact h.commit at_
  | posted seq | refused why => cases hs

/-- A fetch that shows no gap finds, above its cursor, all that was ever posted. -/
theorem counted {c : Client} (hc : c ∈ m.clients) (hf : c.fetch = .member after) :
    FetchOk m.log m.toGroupTable c.cursor (.counted after m.oldestSurviving) := by
  have ok := (h.clients c hc).fetch
  rw [hf] at ok
  refine ⟨ok, fun hle e he ha => ?_⟩
  obtain ⟨k, hk, hkept⟩ := h.suffix
  have oldest : m.oldestSurviving = k + 1 := by
    have := (h.numbered.drop k).oldestSurviving_eq (m := m.nextSeq) fun hnil => by
      have := List.drop_eq_nil_iff.1 hnil
      have := h.counter
      simp only [ENVELOPE_MIN_TAIL] at hkept
      omega
    rw [← hk, Nat.zero_add] at this
    exact this
  rw [hk, h.numbered.mem_drop_iff]
  exact ⟨he, by omega⟩

/-- The page a fetch reads when it still finds all it asks for. -/
theorem answered {c : Client} (hc : c ∈ m.clients) (hf : c.fetch = .counted after oldest) :
    FetchOk m.log m.toGroupTable c.cursor
      (.answered after ⟨oldest, m.page after⟩ m.nextSeq) := by
  have ok := (h.clients c hc).fetch
  rw [hf] at ok
  refine ⟨ok.1, fun hle => ?_⟩
  obtain ⟨k, hk, _⟩ := h.suffix
  have page : m.page after = (m.log.drop after).take Group.MAX_ENVELOPES_PER_PAGE := by
    have := (h.numbered.drop k).page_eq (m := m.nextSeq) after
    rw [← hk, Nat.zero_add] at this
    rw [show m.page after = _ from this]
    congr 1
    rw [hk, List.drop_drop]
    by_cases hka : k ≤ after
    · congr 1
      omega
    · -- What lies between the cursor and the retained envelopes was never posted.
      have short : m.log.length ≤ after := by
        by_contra hlt
        have hget : m.log[after]? = some m.log[after] := List.getElem?_eq_getElem (by omega)
        have hseq := h.numbered.getElem? hget
        have hmem := ok.2 hle m.log[after] (List.mem_of_getElem? hget) (by omega)
        rw [hk, h.numbered.mem_drop_iff] at hmem
        omega
      rw [List.drop_eq_nil_of_le short, List.drop_eq_nil_of_le (by omega)]
  refine ⟨page ▸ List.take_prefix .., fun hnil => ?_⟩
  simp only [page, List.take_eq_nil_iff, List.drop_eq_nil_iff, Group.MAX_ENVELOPES_PER_PAGE] at hnil
  rw [← h.counter]
  omega

theorem advanceFetch (at_ : m.clients[i]? = some c) (hs : m.advanceFetch i c = some m') :
    Inv m' := by
  have hc : c ∈ m.clients := List.mem_of_getElem? at_
  have follows := h.clients c hc
  simp only [Mailbox.advanceFetch] at hs
  split at hs <;> rename_i hf
  · cases hs
  · cases hs
    have ok := follows.fetch
    rw [hf] at ok
    refine h.setClient (follows.setFetch ?_)
    split
    · exact ok
    · trivial
  · cases hs
    exact h.setClient (follows.setFetch (h.counted hc hf))
  · cases hs
    exact h.setClient (follows.setFetch (h.answered hc hf))
  · cases hs
    exact h.setClient (follows.follow h.numbered hf)

/-- The invariant, along undisturbed steps. -/
theorem step (hg : m.undisturbed a) (hs : m.step a = some m') : Inv m' := by
  cases a with
  | post request =>
    cases hs
    refine ⟨h.numbered, h.counter, h.suffix, h.posts.concat ?_ ?_, h.purges, h.clients⟩
    · simp only [precheck]
      split <;> repeat (first | rfl | split)
    · intro seq
      simp only [precheck]
      split <;> repeat (first | exact PostPhase.noConfusion | split)
  | advancePost i now =>
    simp only [Mailbox.step] at hs
    split at hs
    · exact h.advancePost ‹_› hs
    · cases hs
  | failPost i =>
    simp only [Mailbox.step] at hs
    split at hs
    any_goals cases hs
    exact h.setPost (h.posts.move ‹_› (by simp) (by simp [PostPhase.drawn]))
  | purge now =>
    cases hs
    exact h.purge hg
  | commitPurge j =>
    simp only [Mailbox.step] at hs
    split at hs
    · cases hs
      exact h.commitPurge ‹_› hg
    · cases hs
  | failPurge j =>
    cases hs
    exact ⟨h.numbered, h.counter, h.suffix, h.posts,
      fun seqs hseqs => h.purges seqs (List.mem_of_mem_eraseIdx hseqs), h.clients⟩
  | follow device start =>
    cases hs
    refine ⟨h.numbered, h.counter, h.suffix, h.posts, h.purges, ?_⟩
    exact Tasks.forall_mem_concat h.clients ⟨List.nil_prefix, rfl, trivial⟩
  | ask i =>
    simp only [Mailbox.step] at hs
    split at hs
    · split at hs
      · cases hs
        exact h.setClient ((h.clients _ (List.mem_of_getElem? ‹_›)).setFetch rfl)
      · cases hs
    · cases hs
  | advanceFetch i =>
    simp only [Mailbox.step] at hs
    split at hs
    · exact h.advanceFetch ‹_› hs
    · cases hs
  | failFetch i =>
    simp only [Mailbox.step] at hs
    split at hs
    · cases hs
      exact h.setClient ((h.clients _ (List.mem_of_getElem? ‹_›)).setFetch trivial)
    · cases hs

end Inv

/-! ## What clients may rely on -/

/-- A mailbox as the server finds it: numbered, purged or not, and nobody at work on it. -/
structure Initial (m : Mailbox) : Prop where
  numbers : m.log.map (·.seq) = List.range' 1 m.nextSeq
  suffix : ∃ k, m.envelopes = m.log.drop k ∧ (k = 0 ∨ k + ENVELOPE_MIN_TAIL ≤ m.nextSeq)
  posts : m.posts = []
  purges : m.purges = []
  clients : m.clients = []

/-- The order of a mailbox, and no gap left unreported. -/
structure Ordered (m : Mailbox) : Prop where
  /-- The envelopes ever committed are numbered `1, 2, 3, …` in the order of their commits. -/
  numbers : m.log.map (·.seq) = List.range' 1 m.nextSeq
  /-- The number a post is answered with is the one of its envelope. -/
  answers : ∀ (i : Nat) (request : PostEnvelope) (seq : Nat),
    m.posts[i]? = some (request, .posted seq) →
    ∃ createdAt, m.log[seq - 1]? = some ⟨seq, request.payload, createdAt⟩
  /-- No number is answered twice. -/
  unique : ∀ (i j : Nat) (request request' : PostEnvelope) (seq : Nat),
    m.posts[i]? = some (request, .posted seq) → m.posts[j]? = some (request', .posted seq) → i = j
  /-- A suffix is retained, with the newest envelopes in it. -/
  suffix : ∃ k, m.envelopes = m.log.drop k ∧ (k = 0 ∨ k + ENVELOPE_MIN_TAIL ≤ m.nextSeq)
  /-- A page without a gap before it starts right after the cursor and is consecutive; it is empty
  when nothing above the cursor had been posted. -/
  pages : ∀ c ∈ m.clients, ∀ after page posted, c.fetch = .answered after page posted →
    page.oldest - 1 ≤ after →
    page.envelopes <+: m.log.drop after ∧
      page.envelopes.map (·.seq) = List.range' (after + 1) page.envelopes.length ∧
      (page.envelopes = [] → posted ≤ after)
  /-- A client was handed every envelope from where it started up to its cursor. -/
  reads : ∀ c ∈ m.clients, c.start ≤ c.cursor ∧
    c.read = (m.log.drop c.start).take (c.cursor - c.start)

theorem length_of_range {l : List Envelope} (h : l.map (·.seq) = List.range' 1 n) :
    l.length = n := by
  simpa using congrArg List.length h

theorem Initial.inv {m : Mailbox} (h : m.Initial) : Inv m := by
  have counter := length_of_range h.numbers
  refine ⟨?_, counter, h.suffix, ?_, by simp [h.purges], by simp [h.clients]⟩
  · rw [Numbered, h.numbers, counter]
  · rw [h.posts]
    exact ⟨by simp, .of_none (by simp), by simp, fun _ => .of_none (by simp)⟩

theorem Inv.ordered {m : Mailbox} (h : Inv m) : m.Ordered where
  numbers := by
    rw [← h.counter]
    exact h.numbered
  answers i request seq hi := by
    obtain ⟨createdAt, he⟩ := h.posts.answered _ (List.mem_of_getElem? hi) seq rfl
    refine ⟨createdAt, ?_⟩
    obtain ⟨j, hj⟩ := List.mem_iff_getElem?.1 he
    have hseq : seq = 0 + j + 1 := h.numbered.getElem? hj
    rw [show seq - 1 = j by omega, hj]
  unique i j request request' seq hi hj := h.posts.unique seq hi hj rfl rfl
  suffix := h.suffix
  pages c hc after page posted hf hle := by
    have ok := (h.clients c hc).fetch
    rw [hf] at ok
    obtain ⟨ahead, hempty⟩ := ok.2 (by omega)
    refine ⟨ahead, ?_, hempty⟩
    obtain ⟨rest, hrest⟩ := ahead
    have numbered := h.numbered.drop after
    rw [← hrest, Nat.zero_add] at numbered
    exact numbered.of_append
  reads c hc := by
    have follows := h.clients c hc
    have hcursor := follows.cursor
    refine ⟨by omega, ?_⟩
    rw [show c.cursor - c.start = c.read.length by omega]
    exact List.prefix_iff_eq_take.1 follows.read

end Mailbox

/-- In every run in which purges start where age and number agree and never take effect on what a
fetch counts on between its two queries, numbers are handed out one after the other, a suffix with
the newest envelopes is retained, and no client skips an envelope without a gap being reported. -/
theorem ordered_of_undisturbed {s t : Mailbox} (start : s.Initial)
    (h : Reach Mailbox.step (fun m a => m.undisturbed a) s t) : t.Ordered :=
  (h.invariant start.inv fun hi hg hs => hi.step hg hs : Mailbox.Inv t).ordered

/-! ## A phone that reads -/

/-- A group of one device, before its first envelope. -/
def emptyMailbox : Mailbox where
  nextSeq := 0
  envelopes := []
  members := ["phone"]
  log := []
  posts := []
  purges := []
  clients := []

/-- The phone posts, then reads. -/
def postAndRead : List Action :=
  [.post ⟨some "phone", [7]⟩, .advancePost 0 100, .advancePost 0 100, .advancePost 0 101,
    .advancePost 0 101, .follow "phone" 0, .ask 0, .advanceFetch 0, .advanceFetch 0,
    .advanceFetch 0, .advanceFetch 0]

theorem ordered_of_undisturbed_postAndRead : ∃ t,
    Reach Mailbox.step (fun m a => m.undisturbed a) emptyMailbox t ∧
    t.posts = [(⟨some "phone", [7]⟩, .posted 1)] ∧
    t.clients = [⟨"phone", 0, 1, false, .idle, [⟨1, [7], 100⟩]⟩] ∧ t.Ordered := by
  have read : ∃ t, run (fun m a => if m.undisturbed a then m.step a else none) emptyMailbox
      postAndRead = some t ∧ t.posts = [(⟨some "phone", [7]⟩, .posted 1)] ∧
      t.clients = [⟨"phone", 0, 1, false, .idle, [⟨1, [7], 100⟩]⟩] :=
    ⟨_, rfl, by decide, by decide⟩
  obtain ⟨t, h, posts, clients⟩ := read
  have reached : Reach _ (fun m a => m.undisturbed a) emptyMailbox t :=
    Transition.reach_of_run_guarded h
  exact ⟨t, reached, posts, clients,
    ordered_of_undisturbed ⟨rfl, ⟨0, rfl, .inl rfl⟩, rfl, rfl, rfl⟩ reached⟩

/-! ## A purge between the two queries -/

/-- `n` envelopes, all posted at the same time. -/
def envelopesUpTo (n : Nat) : List Envelope := (List.range' 1 n).map fun seq => ⟨seq, [], 0⟩

/-- A mailbox one envelope past the tail that is never purged. -/
def fullMailbox : Mailbox where
  nextSeq := 501
  envelopes := envelopesUpTo 501
  members := ["phone"]
  log := envelopesUpTo 501
  posts := []
  purges := []
  clients := []

theorem envelopesUpTo_numbers (n : Nat) :
    (envelopesUpTo n).map (·.seq) = List.range' 1 n := by
  simp [envelopesUpTo, Function.comp_def]

theorem fullMailbox_initial : fullMailbox.Initial :=
  ⟨envelopesUpTo_numbers 501, ⟨0, rfl, .inl rfl⟩, rfl, rfl, rfl⟩

/-- The phone asks for everything, and the first envelope is purged between the two queries. -/
def purgedBetween : List Action :=
  [.follow "phone" 0, .ask 0, .advanceFetch 0, .advanceFetch 0, .purge (ENVELOPE_RETENTION + 1),
    .commitPurge 0, .advanceFetch 0]

theorem fullMailbox_numbered : Numbered 0 fullMailbox.envelopes := by
  rw [Numbered, show fullMailbox.envelopes = envelopesUpTo 501 from rfl, envelopesUpTo_numbers]
  simp [envelopesUpTo]

theorem fullMailbox_oldest : fullMailbox.oldestSurviving = 1 :=
  fullMailbox_numbered.oldestSurviving_eq (m := 501) fun h => by
    simp [fullMailbox, envelopesUpTo] at h

/-- Of a mailbox all of one age, what is not in the tail is deleted: the first envelope. -/
theorem fullMailbox_doomed (he : e ∈ fullMailbox.envelopes) :
    fullMailbox.doomed (ENVELOPE_RETENTION + 1) e ↔ e.seq ≤ 1 := by
  have age : e.createdAt = 0 := by
    obtain ⟨seq, _, rfl⟩ := List.mem_map.1 he
    rfl
  have tail : e.seq + ENVELOPE_MIN_TAIL ≤ fullMailbox.nextSeq ↔ e.seq ≤ 1 :=
    Nat.add_le_add_iff_right (m := e.seq) (k := 1) (n := 500)
  simp only [GroupTable.doomed, GroupTable.expired, age, Bool.and_eq_true, decide_eq_true_eq, tail]
  omega

theorem fullMailbox_purged :
    fullMailbox.toGroupTable.delete
      ((fullMailbox.envelopes.filter (fullMailbox.doomed (ENVELOPE_RETENTION + 1))).map (·.seq)) =
      ⟨501, (envelopesUpTo 501).drop 1⟩ := by
  refine congrArg (GroupTable.mk 501)
    (Mailbox.filter_of_selected (k := 1) fullMailbox_numbered ?_ ?_)
  · intro seq hseq
    obtain ⟨e, he, rfl⟩ := List.mem_map.1 hseq
    obtain ⟨he, hdoomed⟩ := List.mem_filter.1 he
    exact (fullMailbox_doomed he).1 hdoomed
  · intro e he hle
    exact List.mem_map.2 ⟨e, List.mem_filter.2 ⟨he, (fullMailbox_doomed he).2 hle⟩, rfl⟩

/-- The rows the page is read from. -/
def purgedTable : GroupTable :=
  fullMailbox.toGroupTable.delete
    ((fullMailbox.envelopes.filter (fullMailbox.doomed (ENVELOPE_RETENTION + 1))).map (·.seq))

/-- The phone was told that nothing is missing, and its page starts at the second envelope. -/
theorem purge_between_queries_skips : ∃ t,
    fullMailbox.Initial ∧ run Mailbox.step fullMailbox purgedBetween = some t ∧
    (∃ c ∈ t.clients, ∃ page, c.fetch = .answered 0 page 501 ∧ page.oldest = 1 ∧
      page.envelopes = ((envelopesUpTo 501).drop 1).take 200) ∧ ¬ t.Ordered := by
  have page : purgedTable.page 0 = ((envelopesUpTo 501).drop 1).take 200 := by
    rw [purgedTable, fullMailbox_purged]
    exact (fullMailbox_numbered.drop 1).page_eq 0
  have skipped : ∃ t, run Mailbox.step fullMailbox purgedBetween = some t ∧ t.clients =
      [⟨"phone", 0, 0, false,
        .answered 0 ⟨fullMailbox.oldestSurviving, purgedTable.page 0⟩ 501, []⟩] := ⟨_, rfl, rfl⟩
  obtain ⟨t, h, clients⟩ := skipped
  rw [fullMailbox_oldest, page] at clients
  refine ⟨t, fullMailbox_initial, h, ?_, fun ordered => ?_⟩
  · exact ⟨_, clients ▸ List.mem_singleton_self _, _, rfl, rfl, rfl⟩
  · have numbers := (ordered.pages _ (clients ▸ List.mem_singleton_self _) 0
      ⟨1, ((envelopesUpTo 501).drop 1).take 200⟩ 501 rfl (Nat.le_refl 0)).2.1
    rw [List.map_take, List.map_drop, envelopesUpTo_numbers, List.drop_range',
      List.take_range'_of_length_ge (by decide)] at numbers
    have first := congrArg List.head? numbers
    simp [List.head?_range', envelopesUpTo] at first

end Whispee.Server
