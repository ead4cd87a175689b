/-
When a pipeline can withdraw every Interest it has pending: each pending Interest is for a segment
with an entry, under the id of that entry. `sendInterest` stores the id of a segment's first Interest
only, so this holds in the runs in which `schedulePackets` retransmits nothing (`Linked`), and a
retransmitted Interest stays pending after the pipeline is cancelled.
-/
import NdnTools.Chunks.Adaptive.Keyed
import NdnTools.Chunks.Adaptive.Aimd

namespace NdnTools.Chunks.Adaptive

variable {κ : Type}

/-- Every pending Interest has the id of its segment's entry. -/
def Entered (s : Adaptive κ) : Prop :=
  ∀ p ∈ s.face.pending, ∃ info, s.segmentInfo.lookup p.2 = some info ∧ info.interestId = p.1

/-- The pipeline knows its pending Interests: each has an entry with its id, there is one per segment
at most, and what is cancelled is no longer pending. -/
structure Tracked (s : Adaptive κ) : Prop where
  entered : Entered s
  single : (s.face.pending.map Prod.snd).Nodup
  cancelled : (cancel s).face.pending = [] ∧ (doCancel s).face.pending = []
  cancelledBeyond : ∀ n, ∀ p ∈ (cancelInFlightSegmentsGreaterThan n s).face.pending, p.2 ≤ n

/-- The invariant: nothing has been retransmitted. -/
structure Linked (s : Adaptive κ) : Prop where
  keyed : Keyed s
  entered : Entered s
  once : ∀ n, s.retxCount.lookup n = none

variable {sch : Scheme κ} {s s' : Adaptive κ} {n : ℕ}

/-! ## Withdrawing Interests -/

/-- The id of a pending Interest is among those of the entries of a part of the map. -/
theorem mem_ids {q : ℕ → Bool} (h : Entered s) {p : ℕ × ℕ} (hp : p ∈ s.face.pending) (hq : q p.2 = true) :
    p.1 ∈ (s.segmentInfo.filterKeys q).entries.map fun e => e.2.interestId := by
  obtain ⟨info, hl, hid⟩ := h p hp
  have hl' : (s.segmentInfo.filterKeys q).lookup p.2 = some info := by rw [AList.lookup_filterKeys, if_pos hq, hl]
  exact List.mem_map.2 ⟨⟨p.2, info⟩, AList.mem_lookup_iff.1 hl', hid⟩

theorem pending_cancelInFlight (h : Entered s) {p : ℕ × ℕ}
    (hp : p ∈ (cancelInFlightSegmentsGreaterThan n s).face.pending) : p ∈ s.face.pending ∧ p.2 ≤ n := by
  obtain ⟨hp, hid⟩ := Face.mem_removeAll.1 hp
  refine ⟨hp, ?_⟩
  by_contra hlt
  exact hid (mem_ids h hp (by simpa using hlt))

theorem pending_doCancel (h : Entered s) : (doCancel s).face.pending = [] := by
  rw [List.eq_nil_iff_forall_not_mem]
  intro p hp
  obtain ⟨hp, hid⟩ := Face.mem_removeAll.1 hp
  obtain ⟨info, hl, he⟩ := h p hp
  exact hid (List.mem_map.2 ⟨⟨p.2, info⟩, AList.mem_lookup_iff.1 hl, he⟩)

theorem pending_of_stopped (h : Entered s) (hk : Keyed s) (hst : s.isStopping = true) : s.face.pending = [] := by
  rw [List.eq_nil_iff_forall_not_mem]
  intro p hp
  obtain ⟨info, hl, -⟩ := h p hp
  rw [hk.stopped hst] at hl; cases hl

/-- Two pending Interests for one segment are the same. -/
theorem Linked.eq_of_segment (h : Linked s) {p q : ℕ × ℕ} (hp : p ∈ s.face.pending) (hq : q ∈ s.face.pending)
    (heq : p.2 = q.2) : p = q := by
  obtain ⟨info, hl, hid⟩ := h.entered p hp
  obtain ⟨info', hl', hid'⟩ := h.entered q hq
  rw [heq, hl'] at hl; cases hl
  exact Prod.ext (hid.symm.trans hid') heq

theorem Linked.tracked (h : Linked s) : Tracked s where
  entered := h.entered
  single := List.Nodup.map_on (fun _ hp _ hq => h.eq_of_segment hp hq) s.face.distinct.of_map
  cancelled := by
    refine ⟨?_, pending_doCancel h.entered⟩
    cases hgo : s.isStopping with
    | true => rw [cancel_of_stopping hgo]; exact pending_of_stopped h.entered h.keyed hgo
    | false => rw [cancel_of_going hgo]; exact pending_doCancel (s := { s with isStopping := true }) h.entered
  cancelledBeyond _ _ hp := (pending_cancelInFlight h.entered hp).2

/-! ## The operations -/

/-- An operation that leaves the Face alone and keeps the ids of the entries of pending Interests. -/
theorem Linked.keep (h : Linked s) (hk : Keyed s') (hface : s'.face = s.face) (hcount : s'.retxCount = s.retxCount)
    (hentry : ∀ p ∈ s.face.pending, ∀ info, s.segmentInfo.lookup p.2 = some info →
      ∃ info', s'.segmentInfo.lookup p.2 = some info' ∧ info'.interestId = info.interestId) : Linked s' where
  keyed := hk
  entered p hp := by
    rw [hface] at hp
    obtain ⟨info, hl, hid⟩ := h.entered p hp
    obtain ⟨info', hl', hid'⟩ := hentry p hp info hl
    exact ⟨info', hl', hid'.trans hid⟩
  once := by rw [hcount]; exact h.once

/-- An operation that withdraws Interests and keeps the entries of those that stay pending. -/
theorem Linked.withdraw (h : Linked s) (hk : Keyed s') (hcount : s'.retxCount = s.retxCount)
    (hsub : s'.face.pending ⊆ s.face.pending)
    (hentry : ∀ p ∈ s'.face.pending, s'.segmentInfo.lookup p.2 = s.segmentInfo.lookup p.2) : Linked s' where
  keyed := hk
  entered p hp := by rw [hentry p hp]; exact h.entered p (hsub hp)
  once := by rw [hcount]; exact h.once

theorem linked_stop (h : Linked s) (hk : Keyed s') (hcount : s'.retxCount = s.retxCount)
    (hface : s'.face = (doCancel s).face) : Linked s' := by
  -- every pending Interest has its id in an entry, so `doCancel` removes all
  have hnil : s'.face.pending = [] := by rw [hface, pending_doCancel h.entered]
  apply h.withdraw hk hcount
  · rw [hnil]
    exact List.nil_subset _
  · intro p hp
    rw [hnil] at hp; cases hp

theorem linked_cancel (h : Linked s) (hgo : s.isStopping = false) : Linked (cancel s) := by
  apply linked_stop h (keyed_cancel h.keyed hgo)
  · rw [cancel_of_going hgo]; rfl
  · rw [cancel_of_going hgo]; rfl

theorem linked_onFailure {reason : String} (h : Linked s) (hgo : s.isStopping = false) :
    Linked (onFailure reason s) := by
  apply linked_stop h (keyed_onFailure h.keyed hgo)
  · rw [onFailure_of_going _ hgo]; rfl
  · rw [onFailure_of_going _ hgo]; rfl

theorem linked_succeed (h : Linked s) (hgo : s.isStopping = false) : Linked (succeed s) := by
  apply linked_stop h (keyed_succeed h.keyed hgo)
  · simp only [succeed, cancel_of_going hgo]; rfl
  · simp only [succeed, cancel_of_going hgo]; rfl

theorem linked_learnLast (h : Linked s) (last : ℕ) (hgo : s.isStopping = false) : Linked (learnLast last s) := by
  apply h.withdraw (keyed_learnLast h.keyed last hgo) rfl (List.filter_subset_self _)
  intro p hp
  have hle := (pending_cancelInFlight (s := { s with lastSegmentNo := last, hasFinalBlockId := true }) h.entered hp).2
  rw [lookup_learnLast, if_pos hle]

/-- In the callback for segment `n`, whose Interest is no longer pending. -/
structure LinkedAt (n : ℕ) (s : Adaptive κ) : Prop where
  linked : Linked s
  called : Called n s
  answered : ∀ p ∈ s.face.pending, p.2 ≠ n

theorem linked_dropped (h : LinkedAt n s) : Linked (dropped n s) := by
  apply h.linked.keep (keyed_dropped h.called) rfl rfl
  intro p hp info hl
  refine ⟨info, ?_, rfl⟩
  rw [lookup_dropped, if_neg (h.answered p hp)]
  exact hl

theorem linked_gaveUp {reason : String} (h : LinkedAt n s) : Linked (gaveUp n reason s) := by
  apply h.linked.withdraw (keyed_gaveUp h.called) rfl (List.filter_subset_self _)
  intro p hp
  obtain ⟨hp, hle⟩ := pending_cancelInFlight (linked_dropped h).entered hp
  rw [lookup_gaveUp, if_pos (lt_of_le_of_ne hle (h.answered p hp))]

theorem linked_handleFail {reason : String} (h : LinkedAt n s) : Linked (handleFail n reason s) := by
  rcases handleFail_cases n reason h.called.going with ⟨-, -, heq⟩ | ⟨-, heq⟩ | ⟨-, heq⟩
  · rw [heq]; exact linked_onFailure h.linked h.called.going
  · rw [heq]; exact h.linked
  · rw [heq]
    rcases giveUp_cases n reason s with ⟨-, heq⟩ | ⟨-, heq⟩
    · rw [heq]; exact linked_onFailure (linked_dropped h) h.called.going
    · rw [heq]; exact linked_gaveUp h

theorem linked_answered (h : Linked s) (id : ℕ) : Linked (answered id s) :=
  h.withdraw (keyed_answered h.keyed id) rfl (List.filter_subset_self _) fun _ _ => rfl

theorem linkedAt_answered {id : ℕ} (h : Linked s) (hgo : s.isStopping = false) (hn : s.face.segmentOf id = some n) :
    LinkedAt n (answered id s) where
  linked := linked_answered h id
  called := called_answered h.keyed hgo hn
  answered p hp hpn := by
    obtain ⟨hp, hne⟩ := Face.mem_removePendingInterest.1 hp
    exact hne (congrArg Prod.fst (h.eq_of_segment hp (Face.mem_of_segmentOf hn) hpn))

theorem linkedAt_learnt (h : LinkedAt n s) (last : ℕ) : LinkedAt n (learnt last s) where
  linked := by
    have h' := linked_learnLast h.linked last h.called.going
    exact ⟨(called_learnt h.called last).keyed, h'.entered, h'.once⟩
  called := called_learnt h.called last
  answered p hp := h.answered p (Face.mem_removeAll.1 hp).1

theorem linked_lost (h : Linked s) (now : Time) (k : ℕ) : Linked (lost sch now k s) := by
  have hk : Keyed (lost sch now k s) := keyed_lost h.keyed now k
  obtain ⟨r, c, l, heq⟩ := lost_frame sch now k s
  rw [heq] at hk ⊢
  exact h.keep hk rfl rfl fun p _ info hl => ⟨info, hl, rfl⟩

theorem linked_requeue (h : LinkedAt n s) : Linked (requeue n s) := by
  apply h.linked.keep (keyed_requeue h.called) rfl rfl
  intro p hp info hl
  refine ⟨info, ?_, rfl⟩
  rw [lookup_requeue, if_neg (h.answered p hp)]
  exact hl

theorem linked_requeueAll (ns : List ℕ) (h : Linked s) (hgo : s.isStopping = false)
    (hmem : ∀ n ∈ ns, n ∈ s.segmentInfo.inFlight) : Linked (requeueAll ns s) := by
  have hk := keyed_requeueAll ns h.keyed hgo hmem
  have hl := lookup_requeueAll ns s
  obtain ⟨i, heq⟩ := requeueAll_frame ns s
  rw [heq] at hk hl ⊢
  apply h.keep hk rfl rfl
  intro p hp info hp'
  rw [hl p.2]
  split
  · exact ⟨_, rfl, by simp only [SegmentMap.infoOf_of_lookup hp']⟩
  · exact ⟨info, hp', rfl⟩

theorem linked_accept {d : Data} {now : Time} (h : LinkedAt d.segmentNo s) :
    Linked (accept sch now d (touch d.segmentNo s)) := by
  have hk : Keyed (accept sch now d (touch d.segmentNo s)) :=
    keyed_received h.called
  have hl := fun m => lookup_accept sch now (touch d.segmentNo s) m d
  obtain ⟨c, i, heq⟩ := accept_frame sch now d (touch d.segmentNo s)
  rw [heq] at hk hl ⊢
  apply h.linked.keep hk rfl rfl
  intro p hp info hp'
  refine ⟨info, ?_, rfl⟩
  rw [hl p.2, if_neg (h.answered p hp), lookup_touch, if_neg (h.answered p hp)]
  exact hp'

theorem linked_sendFirst {now : Time} (h : Linked s) (hgo : s.isStopping = false) :
    Linked (sendFirst sch now (nextNo s) (advance s)) where
  keyed := keyed_sendFirst h.keyed hgo
  entered p hp := by
    rw [lookup_sendFirst (s := advance s) sch _ _ h.keyed.nextNo_notMem]
    rcases Face.mem_expressInterest.1 hp with hp | rfl
    · -- the numbers given before are smaller
      obtain ⟨info, hl, hid⟩ := h.entered p hp
      have hne : p.2 ≠ nextNo s := by
        have := (h.keyed.pending p hp).1
        have := (nextNo_spec s).2.1
        omega
      exact ⟨info, by rw [if_neg hne]; exact hl, hid⟩
    · exact ⟨_, if_pos rfl, rfl⟩
  once := h.once

/-! ## Runs -/

/-- `schedulePackets` retransmits nothing. -/
def noRetransmission (κ : Type) : Points κ where
  resend _ _ := False

theorem linked_loop (sch : Scheme κ) : LoopPreserves sch (noRetransmission κ) Linked where
  pop h _ _ := ⟨keyed_popRetx h.keyed, h.entered, h.once⟩
  going h hn := h.keyed.going_of_mem hn
  resend _ _ _ _ _ hno := hno.elim
  fail _ h _ _ hex _ := by
    -- no segment was retransmitted yet, so none is out of retries
    obtain ⟨k, hk, -⟩ := hex
    rw [h.once] at hk; cases hk
  skip h _ _ := ⟨keyed_advance h.keyed, h.entered, h.once⟩
  first _ h _ hgo _ _ := linked_sendFirst h hgo

theorem linked_preserves (sch : Scheme κ) :
    Preserves sch (noRetransmission κ) Linked Linked (fun n s => LinkedAt n s) (fun n s => LinkedAt n s) where
  going h := h.called.going
  idle h := h.linked
  stopped id h _ := linked_answered h id
  cancel h hgo := linked_cancel h hgo
  answered h hgo hn := linkedAt_answered h hgo hn
  requeue now h _ := linked_lost (linked_requeue h) now 1
  expired now h hgo _ _ hmem := linked_lost (linked_requeueAll _ h hgo hmem) now _
  fail _ h _ := linked_handleFail h
  learnStop h _ _ _ := linked_onFailure (linked_learnLast h.linked _ h.called.going) h.called.going
  plain h := h
  learn h _ _ _ := linkedAt_learnt h _
  ignored h hc hn := by
    apply h.linked.keep ((keyed_preserves sch (noRetransmission κ)).ignored h.called hc hn) rfl rfl
    intro p _ info hl
    exact ⟨info, hl, rfl⟩
  duplicate h _ _ := by
    apply h.linked.keep (keyed_eraseInfo (keyed_touch h.called) _ h.called.going) rfl rfl
    intro p hp info hl
    refine ⟨info, ?_, rfl⟩
    rw [lookup_eraseInfo, if_neg (h.answered p hp), lookup_touch, if_neg (h.answered p hp)]
    exact hl
  complete now h _ _ _ _ := linked_succeed (linked_accept h) ((isStopping_accept _).trans h.called.going)
  accept _ h _ _ _ _ := linked_accept h
  schedule _ h hm := (linked_loop sch).loop h hm

theorem linked_run (sch : Scheme κ) (now : Time) (control : κ) (data : Data) : Linked (run sch now control data) := by
  have hs : Linked (start control data) := by
    refine ⟨keyed_start control data, ?_, fun _ => rfl⟩
    intro p hp
    cases hp
  rcases run_cases sch now control data with ⟨-, heq⟩ | ⟨-, heq⟩
  · rw [heq]
    exact ⟨keyed_advance hs.keyed, hs.entered, hs.once⟩
  · rw [heq]; exact linked_sendFirst hs rfl

/-- In every run in which `schedulePackets` retransmits nothing, the pipeline knows its pending
Interests in every state. -/
theorem tracked_of_noRetransmission (sch : Scheme κ) (now : Time) (control : κ) (data : Data) (es : List Event)
    (hruns : (machine sch).Runs (run sch now control data) es)
    (hno : (machine sch).Each (Meets (noRetransmission κ) sch) (run sch now control data) es) :
    (machine sch).Always Tracked (run sch now control data) es := by
  have hinv : (machine sch).Always Linked (run sch now control data) es :=
    Machine.always_of_inv (fun _ e hi he hm => (linked_preserves sch).step hi he hm)
      (linked_run sch now control data) hruns hno
  exact hinv.imp fun _ h => h.tracked

instance : (noRetransmission κ).Decides where
  requeue _ _ := isTrue trivial
  giveUp _ _ := isTrue trivial
  learn _ _ _ := isTrue trivial
  receive _ _ := isTrue trivial
  schedule _ := isTrue trivial
  resend _ _ := isFalse id

theorem tracked_of_noRetransmission_two :
    (machine (Aimd.pipeline 1)).Always Tracked (Aimd.started 1 (packet 0 none))
      [.data 10 1 (packet 1 (some 3)), .nack 20 2 .duplicate] :=
  tracked_of_noRetransmission (Aimd.pipeline 1) 0 _ (packet 0 none) _ (by decide +kernel) (by decide +kernel)

/-- Segment 1 times out and is retransmitted: the new Interest is not the one of the entry, and it
stays pending after `cancel`. -/
theorem retransmitted_interest_untracked :
    (machine (Aimd.pipeline 1)).Runs (Aimd.started 1 (packet 0 none)) [.checkRto 5000 [1], .cancel] ∧
      ¬ (machine (Aimd.pipeline 1)).Always Tracked (Aimd.started 1 (packet 0 none)) [.checkRto 5000 [1], .cancel] := by
  refine ⟨by decide +kernel, fun h => ?_⟩
  have hlast := (Machine.always_last _ _ h).cancelled.2
  revert hlast
  decide +kernel

end NdnTools.Chunks.Adaptive
