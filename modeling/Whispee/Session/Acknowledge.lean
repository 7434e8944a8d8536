import Whispee.Session.Receipts

/-!
# Every receipt once

What a device records of its own account is above everything it has emitted, so that the numbers of
its receipts only grow, and each of them is the number of a message: receipts come to an end. A
receipt is recorded before it is sent, so that one whose emission failed is made up for only by one
with a higher number: by every poll that gets through, if its cursor is above everything that is
recorded (`receipts_finite_and_made_up`).
-/

namespace Whispee.Session.Receipts

open Transition

variable {d : Device} {account sender : String} {restored : Nat} {event : Event}
  {history : List Event} {state state' : ReceiptState} {seq : Nat} {mailbox : List Envelope}

theorem covers_self : covers state state = true := by cases state <;> rfl

theorem AccountReceipts.reached_le_record (known : AccountReceipts) :
    known.reached state' ≤ (known.record state seq).reached state' := by
  cases state <;> cases state' <;> simp [record, reached]

theorem AccountReceipts.le_reached_record (known : AccountReceipts) (h : covers state state') :
    seq ≤ (known.record state seq).reached state' := by
  cases state <;> cases state' <;> simp [record, reached, covers] at h ⊢

theorem reached_le_record (book : ReceiptBook) :
    (book account).reached state' ≤ (record book sender state seq account).reached state' := by
  unfold record
  rw [Function.update_apply]
  split
  next heq =>
    subst heq
    exact AccountReceipts.reached_le_record _
  · exact Nat.le_refl _

theorem le_reached_record (book : ReceiptBook) (h : covers state state') :
    seq ≤ (record book account state seq account).reached state' := by
  unfold record
  rw [Function.update_self]
  exact AccountReceipts.le_reached_record _ h

theorem pending_eq_some_iff {book : ReceiptBook} {cursor : Nat} :
    pending book account state cursor = some seq ↔
      (book account).reached state < cursor ∧ seq = cursor := by
  unfold pending
  rw [Option.ite_none_right_eq_some, Option.some.injEq]
  exact and_congr_right fun _ => eq_comm

/-! ## Histories -/

theorem positions_concat :
    positions restored (history ++ [event]) state =
      positions restored history state ++ event.reached?.toList := by
  unfold positions
  rw [List.filterMap_append, List.append_assoc]
  cases event <;> rfl

theorem emissions_concat :
    emissions (history ++ [event]) state =
      emissions history state ++ (event.emitted? state).toList := by
  unfold emissions
  rw [List.filterMap_append]
  cases h : event.emitted? state <;> simp [h]

theorem mem_emissions_iff : seq ∈ emissions history state ↔ .emitted state seq ∈ history := by
  unfold emissions
  rw [List.mem_filterMap]
  constructor
  · rintro ⟨event, hmem, hemitted⟩
    cases event with
    | emitted state' seq' =>
      obtain ⟨rfl, hseq⟩ := Option.ite_none_right_eq_some.1 hemitted
      cases hseq
      exact hmem
    | reached | heard | failed | polled => cases hemitted
  · exact fun hmem => ⟨_, hmem, if_pos rfl⟩

theorem subset_positions_concat :
    positions restored history state ⊆ positions restored (history ++ [event]) state := by
  rw [positions_concat]
  exact List.subset_append_left _ _

/-- What is there to be received is there to be read. -/
theorem positions_delivered_subset :
    positions restored history .delivered ⊆ positions restored history .read :=
  List.subset_append_right _ _

/-- The receipts of a device, next to what it has recorded of its account. -/
structure Inv (account : String) (restored : Nat) (d : Device) : Prop where
  recorded : ∀ {event state seq}, event ∈ d.history → event.recorded? = some (state, seq) →
    ∀ {state'}, covers state state' → seq ≤ (d.book account).reached state'
  sending : ∀ {state seq}, d.sending = some (state, seq) → ∀ {state'}, covers state state' →
    seq ≤ (d.book account).reached state'
  above : d.history.Pairwise Event.Above
  nodup : ∀ state, (emissions d.history state).Nodup
  among : ∀ state, emissions d.history state ⊆ positions restored d.history state
  content : d.contentCursor = 0 ∨ d.contentCursor ∈ positions restored d.history .delivered
  read : d.readCursor = 0 ∨ d.readCursor ∈ positions restored d.history .read

namespace Inv

/-- Something happens that is no emission. -/
theorem log (h : Inv account restored d) (hemitted : ∀ state, event.emitted? state = none)
    (hrecorded : ∀ state seq, event.recorded? = some (state, seq) → ∀ {state'},
      covers state state' → seq ≤ (d.book account).reached state') :
    Inv account restored { d with history := d.history ++ [event] } where
  recorded hmem hrec := by
    rcases List.mem_append.1 hmem with hold | hlast
    · exact h.recorded hold hrec
    · obtain rfl := List.mem_singleton.1 hlast
      exact hrecorded _ _ hrec
  sending := h.sending
  above := by
    refine List.pairwise_append.2 ⟨h.above, List.pairwise_singleton _ _, ?_⟩
    rintro before _ last hlast state seq hemit
    obtain rfl := List.mem_singleton.1 hlast
    have none := hemitted state
    rw [hemit, Event.emitted?, if_pos rfl] at none
    cases none
  nodup state := by
    rw [emissions_concat, hemitted]
    exact (List.append_nil _).symm ▸ h.nodup state
  among state := by
    rw [emissions_concat, hemitted]
    exact List.append_subset.2 ⟨List.Subset.trans (h.among state) subset_positions_concat, List.nil_subset _⟩
  content := h.content.imp_right fun hmem => subset_positions_concat hmem
  read := h.read.imp_right fun hmem => subset_positions_concat hmem

/-- More is recorded of the account. -/
theorem book (h : Inv account restored d) {book : ReceiptBook}
    (hle : ∀ state, (d.book account).reached state ≤ (book account).reached state) :
    Inv account restored { d with book } where
  recorded hmem hrec _ hcovers := (h.recorded hmem hrec hcovers).trans (hle _)
  sending hsending _ hcovers := (h.sending hsending hcovers).trans (hle _)
  above := h.above
  nodup := h.nodup
  among := h.among
  content := h.content
  read := h.read

theorem idle (h : Inv account restored d) : Inv account restored { d with sending := none } :=
  { h with sending := nofun }

theorem emit (h : Inv account restored d) (hbeyond : (d.book account).reached state < seq)
    (hposition : seq ∈ positions restored d.history state) :
    Inv account restored (d.emit account state seq) where
  recorded hmem hrec state' hcovers := by
    rcases List.mem_append.1 hmem with hold | hlast
    · exact (h.recorded hold hrec hcovers).trans (reached_le_record d.book)
    · obtain rfl := List.mem_singleton.1 hlast
      cases hrec
      exact le_reached_record d.book hcovers
  sending hsending _ hcovers := by
    cases hsending
    exact le_reached_record d.book hcovers
  above := by
    refine List.pairwise_append.2 ⟨h.above, List.pairwise_singleton _ _, ?_⟩
    rintro before hbefore last hlast state₁ seq₁ hemit state₂ seq₂ hrec hcovers
    obtain rfl := List.mem_singleton.1 hlast
    cases hemit
    exact (h.recorded hbefore hrec hcovers).trans_lt hbeyond
  nodup state₁ := by
    show (emissions (d.history ++ [Event.emitted state seq]) state₁).Nodup
    rw [emissions_concat, Event.emitted?]
    split
    next heq =>
      subst heq
      refine List.nodup_append.2 ⟨h.nodup _, List.nodup_singleton _, ?_⟩
      rintro a ha b hb rfl
      obtain rfl := List.mem_singleton.1 hb
      have recorded := h.recorded (mem_emissions_iff.1 ha) rfl covers_self
      omega
    · rw [Option.toList_none, List.append_nil]
      exact h.nodup state₁
  among state₁ := by
    show emissions (d.history ++ [Event.emitted state seq]) state₁ ⊆ _
    rw [emissions_concat, Event.emitted?]
    refine List.append_subset.2 ⟨List.Subset.trans (h.among state₁) subset_positions_concat, ?_⟩
    split
    next heq =>
      subst heq
      exact List.cons_subset.2 ⟨subset_positions_concat hposition, List.nil_subset _⟩
    · exact List.nil_subset _
  content := h.content.imp_right fun hmem => subset_positions_concat hmem
  read := h.read.imp_right fun hmem => subset_positions_concat hmem

theorem finish (h : Inv account restored d) : Inv account restored d.finish := by
  have logged : Inv account restored { d with sending := none, history := d.history ++ [.polled] } :=
    h.idle.log (fun _ => rfl) nofun
  exact logged

theorem acknowledgeRead (h : Inv account restored d) :
    Inv account restored (d.acknowledgeRead account) := by
  unfold Device.acknowledgeRead
  split
  · split
    next read hpending =>
      obtain ⟨hbeyond, rfl⟩ := pending_eq_some_iff.1 hpending
      rcases h.read with hzero | hposition
      · omega
      · exact h.emit hbeyond hposition
    · exact h.finish
  · exact h.finish

theorem acknowledge (h : Inv account restored d) : Inv account restored (d.acknowledge account) := by
  unfold Device.acknowledge
  split
  next delivered hpending =>
    obtain ⟨hbeyond, rfl⟩ := pending_eq_some_iff.1 hpending
    rcases h.content with hzero | hposition
    · omega
    · exact h.emit hbeyond hposition
  · exact h.acknowledgeRead

theorem sent (h : Inv account restored d) : Inv account restored (d.sent account state) := by
  cases state with
  | delivered => exact h.idle.acknowledgeRead
  | read => exact h.finish

theorem fail (h : Inv account restored d) (hsending : d.sending = some (state, seq)) :
    Inv account restored (d.fail state seq) := by
  have logged : Inv account restored
      { d with sending := none, history := d.history ++ [.failed state seq] } :=
    h.idle.log (fun _ => rfl) fun _ _ hrec _ hcovers => by
      cases hrec
      exact h.sending hsending hcovers
  exact logged

theorem hear (h : Inv account restored d) :
    Inv account restored (d.hear account sender state seq) := by
  have booked : Inv account restored { d with book := record d.book sender state seq } :=
    h.book fun _ => reached_le_record d.book
  unfold Device.hear
  split
  next heq =>
    subst heq
    exact booked.log (fun _ => rfl) (fun _ _ hrec _ hcovers => by
      cases hrec
      exact le_reached_record d.book hcovers)
  · exact booked

theorem reach (h : Inv account restored d) : Inv account restored (d.reach seq) := by
  have logged : Inv account restored { d with history := d.history ++ [.reached seq] } :=
    h.log (fun _ => rfl) nofun
  have position : max d.contentCursor seq = 0 ∨
      max d.contentCursor seq ∈ positions restored (d.history ++ [.reached seq]) .delivered := by
    rcases Nat.le_total d.contentCursor seq with hle | hle
    · rw [Nat.max_eq_right hle, positions_concat]
      exact .inr (List.mem_append_right _ (List.mem_singleton_self _))
    · rw [Nat.max_eq_left hle]
      exact logged.content
  exact { logged with content := position }

theorem absorb (h : Inv account restored d) (content : Content) :
    Inv account restored (d.absorb account sender seq content) := by
  unfold Device.absorb
  split
  · split
    · exact h.hear
    · exact h
  · exact h.reach

theorem markRead (h : Inv account restored d) :
    Inv account restored { d with readCursor := max d.readCursor d.contentCursor } := by
  have position : max d.readCursor d.contentCursor = 0 ∨
      max d.readCursor d.contentCursor ∈ positions restored d.history .read := by
    rcases Nat.le_total d.readCursor d.contentCursor with hle | hle
    · rw [Nat.max_eq_right hle]
      exact h.content.imp_right fun hmem => positions_delivered_subset hmem
    · rw [Nat.max_eq_left hle]
      exact h.read
  exact { h with read := position }

theorem bounded (h : Inv account restored d) : Bounded restored d.history where
  count state := by
    rw [← List.toFinset_card_of_nodup (h.nodup state)]
    refine Finset.card_le_card fun seq hseq => ?_
    exact List.mem_toFinset.2 (h.among state (List.mem_toFinset.1 hseq))
  above := h.above

end Inv

/-! ## Failed emissions -/

/-- A step of the history: the place it is split at is in what there was, or at the new event. -/
theorem split_concat {before after : List Event} {mark : Event}
    (h : history ++ [event] = before ++ mark :: after) :
    (after = [] ∧ mark = event) ∨ ∃ rest, after = rest ++ [event] ∧ history = before ++ mark :: rest := by
  rcases List.eq_nil_or_concat after with rfl | ⟨rest, last, rfl⟩
  · obtain ⟨_, hlast⟩ := List.append_inj' h rfl
    cases hlast
    exact .inl ⟨rfl, rfl⟩
  · rw [List.concat_eq_append, ← List.cons_append, ← List.append_assoc] at h
    obtain ⟨hhistory, hlast⟩ := List.append_inj' h rfl
    cases hlast
    exact .inr ⟨rest, List.concat_eq_append, hhistory⟩

theorem owed_concat :
    owed (history ++ [event]) state =
      match event with
      | .emitted state' _ => if state' = state then false else owed history state
      | .failed state' _ => if state' = state then true else owed history state
      | _ => owed history state := by
  unfold owed
  rw [List.foldl_append]
  rfl

/-- What is not owed has been made up for. -/
structure Kept (d : Device) : Prop where
  sending : ∀ {state seq}, d.sending = some (state, seq) →
    owed d.history .delivered = false ∧ owed d.history state = false
  answered : ∀ {state}, owed d.history state = false → ∀ {before seq after},
    d.history = before ++ .failed state seq :: after → ∃ seq' ≥ seq, .emitted state seq' ∈ after
  retried : Retried d.history

namespace Kept

/-- Something happens that is neither an emission, nor its failure, nor the end of a poll. -/
theorem log (h : Kept d) (howed : ∀ state, owed (d.history ++ [event]) state = owed d.history state)
    (hfailed : ∀ state seq, event ≠ .failed state seq) (hpolled : event ≠ .polled) :
    Kept { d with history := d.history ++ [event] } where
  sending hsending := by
    rw [howed, howed]
    exact h.sending hsending
  answered hnot _ _ _ hsplit := by
    rw [howed] at hnot
    rcases split_concat hsplit with ⟨_, hlast⟩ | ⟨rest, rfl, hold⟩
    · exact absurd hlast.symm (hfailed _ _)
    · obtain ⟨seq', hle, hmem⟩ := h.answered hnot hold
      exact ⟨seq', hle, List.mem_append_left _ hmem⟩
  retried _ _ _ _ hsplit hmem := by
    rcases split_concat hsplit with ⟨_, hlast⟩ | ⟨rest, rfl, hold⟩
    · exact absurd hlast.symm (hfailed _ _)
    · rcases List.mem_append.1 hmem with hbefore | hlast
      · obtain ⟨seq', hle, hmem⟩ := h.retried _ _ _ _ hold hbefore
        exact ⟨seq', hle, List.mem_append_left _ hmem⟩
      · exact absurd (List.mem_singleton.1 hlast).symm hpolled

theorem idle (h : Kept d) : Kept { d with sending := none } := { h with sending := nofun }

/-- A poll gets through with nothing owed. -/
theorem finish (h : Kept d) (hnone : ∀ state, owed d.history state = false) : Kept d.finish where
  sending := nofun
  answered _ _ _ _ hsplit := by
    rcases split_concat hsplit with ⟨_, hlast⟩ | ⟨rest, rfl, hold⟩
    · cases hlast
    · obtain ⟨seq', hle, hmem⟩ := h.answered (hnone _) hold
      exact ⟨seq', hle, List.mem_append_left _ hmem⟩
  retried _ _ _ _ hsplit _ := by
    rcases split_concat hsplit with ⟨_, hlast⟩ | ⟨rest, rfl, hold⟩
    · cases hlast
    · obtain ⟨seq', hle, hmem⟩ := h.answered (hnone _) hold
      exact ⟨seq', hle, List.mem_append_left _ hmem⟩

theorem emit (h : Kept d) (inv : Inv account restored d)
    (hbeyond : (d.book account).reached state < seq)
    (hdelivered : state = .read → owed d.history .delivered = false) :
    Kept (d.emit account state seq) where
  sending hsending := by
    cases hsending
    show owed (d.history ++ [Event.emitted state seq]) .delivered = false ∧
      owed (d.history ++ [Event.emitted state seq]) state = false
    rw [owed_concat, owed_concat]
    dsimp only
    refine ⟨?_, if_pos rfl⟩
    cases state with
    | delivered => exact if_pos rfl
    | read => exact (if_neg nofun).trans (hdelivered rfl)
  answered {state'} hnot _ failed _ hsplit := by
    replace hnot : owed (d.history ++ [Event.emitted state seq]) state' = false := hnot
    rcases split_concat hsplit with ⟨_, hlast⟩ | ⟨rest, rfl, hold⟩
    · cases hlast
    rw [owed_concat] at hnot
    dsimp only at hnot
    split at hnot
    next heq =>
      subst heq
      have hmem : Event.failed state failed ∈ d.history := by
        rw [hold]
        exact List.mem_append_right _ List.mem_cons_self
      exact ⟨seq, ((inv.recorded hmem rfl covers_self).trans_lt hbeyond).le,
        List.mem_append_right _ (List.mem_singleton_self _)⟩
    · obtain ⟨seq', hle, hmem⟩ := h.answered hnot hold
      exact ⟨seq', hle, List.mem_append_left _ hmem⟩
  retried _ _ _ _ hsplit hmem := by
    rcases split_concat hsplit with ⟨_, hlast⟩ | ⟨rest, rfl, hold⟩
    · cases hlast
    · rcases List.mem_append.1 hmem with hbefore | hlast
      · obtain ⟨seq', hle, hmem⟩ := h.retried _ _ _ _ hold hbefore
        exact ⟨seq', hle, List.mem_append_left _ hmem⟩
      · cases List.mem_singleton.1 hlast

theorem fail (h : Kept d) : Kept (d.fail state seq) where
  sending := nofun
  answered {state'} hnot _ _ _ hsplit := by
    replace hnot : owed (d.history ++ [Event.failed state seq]) state' = false := hnot
    rw [owed_concat] at hnot
    dsimp only at hnot
    split at hnot
    · cases hnot
    next hne =>
      rcases split_concat hsplit with ⟨_, hlast⟩ | ⟨rest, rfl, hold⟩
      · cases hlast
        exact absurd rfl hne
      · obtain ⟨seq', hle, hmem⟩ := h.answered hnot hold
        exact ⟨seq', hle, List.mem_append_left _ hmem⟩
  retried _ _ _ _ hsplit hmem := by
    rcases split_concat hsplit with ⟨rfl, _⟩ | ⟨rest, rfl, hold⟩
    · cases hmem
    · rcases List.mem_append.1 hmem with hbefore | hlast
      · obtain ⟨seq', hle, hmem⟩ := h.retried _ _ _ _ hold hbefore
        exact ⟨seq', hle, List.mem_append_left _ hmem⟩
      · cases List.mem_singleton.1 hlast

theorem acknowledgeRead (h : Kept d) (inv : Inv account restored d)
    (hdelivered : owed d.history .delivered = false) (hpays : d.paysRead account) :
    Kept (d.acknowledgeRead account) := by
  have pays : owed d.history .read = true → d.readReceipts = true ∧
      (pending d.book account .read d.readCursor).isSome = true := of_decide_eq_true hpays
  have done : ¬ (d.readReceipts = true ∧
      (pending d.book account .read d.readCursor).isSome = true) → Kept d.finish := by
    intro hnot
    refine h.finish fun state => ?_
    cases state with
    | delivered => exact hdelivered
    | read => exact Bool.eq_false_of_not_eq_true fun howed => hnot (pays howed)
  unfold Device.acknowledgeRead
  split
  · split
    next read hpending =>
      obtain ⟨hbeyond, rfl⟩ := pending_eq_some_iff.1 hpending
      exact h.emit inv hbeyond fun _ => hdelivered
    next hpending =>
      refine done fun hboth => ?_
      rw [hpending] at hboth
      cases hboth.2
  next hoff => exact done fun hboth => hoff hboth.1

theorem acknowledge (h : Kept d) (inv : Inv account restored d) (hpays : d.pays account) :
    Kept (d.acknowledge account) := by
  unfold Device.pays at hpays
  unfold Device.acknowledge
  split at hpays
  next delivered hpending =>
    obtain ⟨hbeyond, rfl⟩ := pending_eq_some_iff.1 hpending
    exact h.emit inv hbeyond nofun
  next hpending =>
    obtain ⟨hdelivered, hread⟩ := of_decide_eq_true hpays
    exact h.acknowledgeRead inv (Bool.not_eq_true' _ ▸ hdelivered) hread

theorem sent (h : Kept d) (inv : Inv account restored d) (hsending : d.sending = some (state, seq))
    (hpays : state = .delivered → d.paysRead account) : Kept (d.sent account state) := by
  obtain ⟨hdelivered, hstate⟩ := h.sending hsending
  cases state with
  | delivered => exact h.idle.acknowledgeRead inv.idle hdelivered (hpays rfl)
  | read =>
    refine h.finish fun state => ?_
    cases state with
    | delivered => exact hdelivered
    | read => exact hstate

theorem absorb (h : Kept d) (content : Content) :
    Kept (d.absorb account sender seq content) := by
  unfold Device.absorb
  split
  · split
    next heard acknowledged _ =>
      have booked : Kept { d with book := record d.book sender heard acknowledged } := { h with }
      unfold Device.hear
      split
      · exact booked.log (fun _ => owed_concat) nofun nofun
      · exact booked
    · exact h
  · have logged : Kept { d with history := d.history ++ [.reached seq] } :=
      h.log (fun _ => owed_concat) nofun nofun
    exact { logged with }

end Kept

/-! ## Every run -/

namespace OfMessages

theorem concat (h : OfMessages mailbox i history) (hevent : event.reached? = none) :
    OfMessages mailbox i (history ++ [event]) := by
  intro seq hmem
  rcases List.mem_append.1 hmem with hold | hlast
  · exact h seq hold
  · rw [← List.mem_singleton.1 hlast] at hevent
    cases hevent

theorem post (h : OfMessages mailbox i history) (e : Envelope) :
    OfMessages (mailbox ++ [e]) i history := by
  intro seq hmem
  obtain ⟨k, e', content, hseq, hk, hmessage⟩ := h seq hmem
  have inRange : k < mailbox.length := (List.getElem?_eq_some_iff.1 hk).1
  exact ⟨k, e', content, hseq, (List.getElem?_append_left inRange).trans hk, hmessage⟩

theorem acknowledgeRead (h : OfMessages mailbox i d.history) :
    OfMessages mailbox i (d.acknowledgeRead account).history := by
  unfold Device.acknowledgeRead
  split
  · split <;> exact h.concat rfl
  · exact h.concat rfl

theorem acknowledge (h : OfMessages mailbox i d.history) :
    OfMessages mailbox i (d.acknowledge account).history := by
  unfold Device.acknowledge
  split
  · exact h.concat rfl
  · exact h.acknowledgeRead

theorem sent (h : OfMessages mailbox i d.history) :
    OfMessages mailbox i (d.sent account state).history := by
  cases state with
  | delivered => exact acknowledgeRead (d := { d with sending := none }) h
  | read => exact h.concat rfl

theorem absorb {k : Nat} {e : Envelope} {content : Content} (h : OfMessages mailbox i d.history)
    (hk : mailbox[k]? = some e) (hother : e.device ≠ i) (hcontent : e.content = some content) :
    OfMessages mailbox i (d.absorb account sender (k + 1) content).history := by
  unfold Device.absorb
  split
  · split
    · unfold Device.hear
      dsimp only
      split
      · exact h.concat rfl
      · exact h
    · exact h
  next hcontrol =>
    intro seq hmem
    rcases List.mem_append.1 hmem with hold | hlast
    · exact h seq hold
    · cases List.mem_singleton.1 hlast
      exact ⟨k, e, content, rfl, hk, hother, hcontent, Bool.eq_false_of_not_eq_true hcontrol⟩

end OfMessages

namespace World

variable {accountOf : Nat → String} {opened : Opened} {w w' : World}

structure Good (accountOf : Nat → String) (opened : Opened) (w : World) : Prop where
  device : ∀ i, Inv (accountOf i) (opened.readCursor i) (w.devices i)
  messages : ∀ i, OfMessages w.mailbox i (w.devices i).history

/-- What holds of a device as it is, and of all the others. -/
theorem forall_update {P : Nat → Device → Prop} {devices : Nat → Device} (h : ∀ i, P i (devices i))
    (hd : P i d) : ∀ j, P j (Function.update devices i d j) := by
  intro j
  rw [Function.update_apply]
  split
  next heq =>
    subst heq
    exact hd
  · exact h j

namespace Good

theorem put (h : Good accountOf opened w) (hd : Inv (accountOf i) (opened.readCursor i) d)
    (hmessages : OfMessages w.mailbox i d.history) : Good accountOf opened (w.put i d) where
  device := forall_update (P := fun i d => Inv (accountOf i) (opened.readCursor i) d) h.device hd
  messages := forall_update (P := fun i d => OfMessages w.mailbox i d.history) h.messages hmessages

theorem post (h : Good accountOf opened w) (e : Envelope) : Good accountOf opened (w.post e) where
  device := h.device
  messages i := (h.messages i).post e

theorem step (h : Good accountOf opened w) (hstep : w.step accountOf a = some w') :
    Good accountOf opened w' := by
  cases a with
  | absorb i readable =>
    obtain ⟨_, hstep⟩ := Option.ite_none_right_eq_some.1 hstep
    obtain ⟨e, he, rfl⟩ := Option.map_eq_some_iff.1 hstep
    have moved : Inv (accountOf i) (opened.readCursor i)
        { w.devices i with cursor := (w.devices i).cursor + 1 } := { h.device i with }
    have messages := h.messages i
    unfold World.absorb
    dsimp only
    split
    next content hcontent =>
      split
      next hread =>
        refine h.put (moved.absorb content) ?_
        exact OfMessages.absorb (d := { w.devices i with cursor := (w.devices i).cursor + 1 })
          messages he hread.2 hcontent
      · exact h.put moved messages
    · exact h.put moved messages
  | acknowledge i =>
    obtain ⟨_, hstep⟩ := Option.ite_none_right_eq_some.1 hstep
    cases hstep
    exact h.put (h.device i).acknowledge (h.messages i).acknowledge
  | markRead i =>
    cases hstep
    exact h.put (h.device i).markRead (h.messages i)
  | setReadReceipts i on =>
    cases hstep
    exact h.put { h.device i with } (h.messages i)
  | send e =>
    obtain ⟨_, hstep⟩ := Option.ite_none_left_eq_some.1 hstep
    cases hstep
    exact h.post e
  | posted i =>
    obtain ⟨⟨state, seq⟩, hsending, rfl⟩ := Option.map_eq_some_iff.1 hstep
    exact (h.post _).put (h.device i).sent ((h.messages i).post _).sent
  | failed i stored =>
    obtain ⟨⟨state, seq⟩, hsending, rfl⟩ := Option.map_eq_some_iff.1 hstep
    dsimp only
    split
    · exact (h.post _).put ((h.device i).fail hsending) (((h.messages i).post _).concat rfl)
    · exact h.put ((h.device i).fail hsending) ((h.messages i).concat rfl)

end Good

theorem good_start : Good accountOf opened (start opened) where
  device i := {
    recorded := nofun
    sending := nofun
    above := .nil
    nodup _ := .nil
    among _ := List.nil_subset _
    content := .inl rfl
    read := by
      show opened.readCursor i = 0 ∨ opened.readCursor i ∈ positions (opened.readCursor i) [] .read
      rcases Nat.eq_zero_or_pos (opened.readCursor i) with hzero | hpos
      · exact .inl hzero
      · right
        rw [positions, if_pos ⟨rfl, hpos.ne'⟩]
        exact List.mem_cons_self }
  messages _ := nofun

theorem kept_step (h : Good accountOf opened w) (hkept : ∀ i, Kept (w.devices i))
    (hguard : w.guard accountOf a) (hstep : w.step accountOf a = some w') :
    ∀ i, Kept (w'.devices i) := by
  cases a with
  | absorb i readable =>
    obtain ⟨_, hstep⟩ := Option.ite_none_right_eq_some.1 hstep
    obtain ⟨e, _, rfl⟩ := Option.map_eq_some_iff.1 hstep
    have moved : Kept { w.devices i with cursor := (w.devices i).cursor + 1 } :=
      { hkept i with }
    refine forall_update (P := fun _ => Kept) hkept ?_
    unfold World.absorb
    dsimp only
    split
    · split
      · exact moved.absorb _
      · exact moved
    · exact moved
  | acknowledge i =>
    obtain ⟨_, hstep⟩ := Option.ite_none_right_eq_some.1 hstep
    cases hstep
    exact forall_update (P := fun _ => Kept) hkept ((hkept i).acknowledge (h.device i) hguard)
  | markRead i =>
    cases hstep
    exact forall_update (P := fun _ => Kept) hkept { hkept i with }
  | setReadReceipts i on =>
    cases hstep
    exact forall_update (P := fun _ => Kept) hkept { hkept i with }
  | send e =>
    obtain ⟨_, hstep⟩ := Option.ite_none_left_eq_some.1 hstep
    cases hstep
    exact hkept
  | posted i =>
    obtain ⟨⟨state, seq⟩, hsending, rfl⟩ := Option.map_eq_some_iff.1 hstep
    refine forall_update (P := fun _ => Kept) hkept ((hkept i).sent (h.device i) hsending ?_)
    rintro rfl
    rw [World.guard, hsending] at hguard
    exact hguard
  | failed i stored =>
    obtain ⟨⟨state, seq⟩, hsending, rfl⟩ := Option.map_eq_some_iff.1 hstep
    dsimp only
    split
    · exact forall_update (P := fun _ => Kept) hkept (hkept i).fail
    · exact forall_update (P := fun _ => Kept) hkept (hkept i).fail

theorem kept_start (i : Nat) : Kept ((start opened).devices i) where
  sending := nofun
  answered _ before _ _ h := by cases before <;> cases h
  retried before _ _ _ h := by cases before <;> cases h

/-- What holds in every run within the guard. -/
def Orderly (accountOf : Nat → String) (opened : Opened) (w : World) : Prop :=
  Good accountOf opened w ∧ ∀ i, Kept (w.devices i)

/-- Whatever fails, there are no more receipts than messages to acknowledge, each above everything
that was recorded; and when every poll that comes after a failed emission has more to acknowledge,
what failed is made up for. -/
theorem receipts_finite_and_made_up (accountOf : Nat → String) (opened : Opened) (i : Nat) :
    (∀ w, Reach (step accountOf) (fun _ _ => True) (start opened) w →
      Bounded (opened.readCursor i) (w.devices i).history ∧
        OfMessages w.mailbox i (w.devices i).history) ∧
    ∀ w, Reach (step accountOf) (fun w a => w.guard accountOf a) (start opened) w →
      Retried (w.devices i).history := by
  refine ⟨fun w h => ?_, fun w h => ?_⟩
  · have good : Good accountOf opened w := h.invariant good_start fun h _ hstep => h.step hstep
    exact ⟨(good.device i).bounded, good.messages i⟩
  · have inv : Orderly accountOf opened w :=
      h.invariant ⟨good_start, kept_start⟩ fun h hguard hstep =>
        ⟨h.1.step hstep, kept_step h.1 h.2 hguard hstep⟩
    exact (inv.2 i).retried

/-- An account with two devices and one with one. -/
def twoAndOne : Nat → String
  | 0 | 1 => "alice"
  | _ => "bob"

def allOn : Opened where
  mailbox := []
  cursor _ := 0
  readCursor _ := 0
  readReceipts _ := true

/-- The receipt for the first message fails, and that for the second is sent in its stead; the
other device hears of it and has nothing to add but that the messages were read. -/
def failedOnce : List Action :=
  [.send ⟨2, some .text⟩, .absorb 0 true, .acknowledge 0, .failed 0 false,
    .send ⟨2, some .text⟩, .absorb 0 true, .acknowledge 0, .posted 0,
    .absorb 1 true, .absorb 1 true, .absorb 1 true, .markRead 1, .acknowledge 1, .posted 1,
    .absorb 2 true, .acknowledge 2]

theorem receipts_finite_and_made_up_failedOnce :
    ∃ w, Reach (step twoAndOne) (fun w a => w.guard twoAndOne a) (start allOn) w ∧
      (w.devices 0).history = [.reached 1, .emitted .delivered 1, .failed .delivered 1, .reached 2,
        .emitted .delivered 2, .polled] ∧
      (w.devices 1).history = [.reached 1, .reached 2, .heard .delivered 2, .emitted .read 2,
        .polled] ∧
      Retried (w.devices 0).history := by
  have evaluated : (run (fun w a => if w.guard twoAndOne a then w.step twoAndOne a else none)
      (start allOn) failedOnce).map (fun w => ((w.devices 0).history, (w.devices 1).history)) =
        some ([.reached 1, .emitted .delivered 1, .failed .delivered 1, .reached 2,
          .emitted .delivered 2, .polled],
          [.reached 1, .reached 2, .heard .delivered 2, .emitted .read 2, .polled]) := by
    decide +kernel
  obtain ⟨w, hrun, hw⟩ := Option.map_eq_some_iff.1 evaluated
  obtain ⟨hfirst, hsecond⟩ := Prod.mk.inj hw
  have reach := reach_of_run_guarded hrun
  exact ⟨w, reach, hfirst, hsecond, (receipts_finite_and_made_up twoAndOne allOn 0).2 w reach⟩

/-- The connection drops as the receipt is sent, and the next poll gets through. -/
def dropped : List Action :=
  [.send ⟨2, some .text⟩, .absorb 0 true, .acknowledge 0, .failed 0 false, .acknowledge 0]

/-- The receipt is not sent again. -/
theorem failed_receipt_is_lost :
    ∃ w, run (step twoAndOne) (start allOn) dropped = some w ∧
      (w.devices 0).history =
        [.reached 1, .emitted .delivered 1, .failed .delivered 1, .polled] ∧
      ¬ Retried (w.devices 0).history := by
  have evaluated : (run (step twoAndOne) (start allOn) dropped).map
      (fun w => (w.devices 0).history) =
        some [.reached 1, .emitted .delivered 1, .failed .delivered 1, .polled] := by
    decide +kernel
  obtain ⟨w, hrun, hw⟩ := Option.map_eq_some_iff.1 evaluated
  refine ⟨w, hrun, hw, fun h => ?_⟩
  obtain ⟨seq, _, hmem⟩ := h [.reached 1, .emitted .delivered 1] .delivered 1 [.polled] hw
    List.mem_cons_self
  cases List.mem_singleton.1 hmem

end World

end Whispee.Session.Receipts
