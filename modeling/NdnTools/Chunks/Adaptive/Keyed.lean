/-
Where the segment numbers in the state of an adaptive pipeline come from: every entry, every
pending Interest and every delivered or failed segment is of a number that `getNextSegmentNo` has
given, a stopped pipeline has no entries, and a segment marked as received has been delivered.
This holds in every run; the other invariants rest on it.
-/
import NdnTools.Chunks.Adaptive.Rules

namespace NdnTools.Chunks.Adaptive

variable {κ : Type}

/-- `getNextSegmentNo` has given the number. -/
def Requested (n : ℕ) (s : Adaptive κ) : Prop := n < s.nextSegmentNo ∧ n ≠ s.excludedSegmentNo

structure Keyed (s : Adaptive κ) : Prop where
  stopped : s.isStopping = true → ∀ n, s.segmentInfo.lookup n = none
  keys : ∀ n info, s.segmentInfo.lookup n = some info → Requested n s
  pending : ∀ p ∈ s.face.pending, Requested p.2 s
  received : ∀ n, IsRetxReceived n s → n ∈ s.delivered
  delivered : ∀ n ∈ s.delivered, Requested n s
  failed : ∀ n ∈ s.failed, Requested n s
  failing : s.hasFailure = true → s.failedSegNo ∈ s.failed
  counted : s.nReceived = s.delivered.length + 1

/-- In the callback for segment `n` of a pipeline that goes on. -/
structure Called (n : ℕ) (s : Adaptive κ) : Prop where
  keyed : Keyed s
  going : s.isStopping = false
  requested : Requested n s

variable {sch : Scheme κ} {s s' : Adaptive κ} {n : ℕ}

theorem Keyed.mem_requested (h : Keyed s) (hn : n ∈ s.segmentInfo) : Requested n s := by
  obtain ⟨info, hi⟩ := SegmentMap.mem_iff_lookup.1 hn
  exact h.keys n info hi

theorem Keyed.going_of_mem (h : Keyed s) (hn : n ∈ s.segmentInfo) : s.isStopping = false := by
  by_contra hst
  obtain ⟨info, hi⟩ := SegmentMap.mem_iff_lookup.1 hn
  rw [h.stopped (by simpa using hst)] at hi; cases hi

/-- What an operation that delivers nothing does from `s` to `s'`. -/
structure Quiet (s s' : Adaptive κ) : Prop where
  requested : ∀ n, Requested n s → Requested n s'
  stopped : s'.isStopping = true → ∀ n, s'.segmentInfo.lookup n = none
  /-- An entry was there before, or is of a given number and not marked as received. -/
  entries : ∀ n info, s'.segmentInfo.lookup n = some info →
    (∃ info', s.segmentInfo.lookup n = some info' ∧ (info.state = .retxReceived → info'.state = .retxReceived)) ∨
    (Requested n s' ∧ info.state ≠ .retxReceived)
  pending : ∀ p ∈ s'.face.pending, p ∈ s.face.pending ∨ Requested p.2 s'
  delivered : s'.delivered = s.delivered
  received : s'.nReceived = s.nReceived
  failed : ∀ n ∈ s'.failed, n ∈ s.failed ∨ Requested n s
  failing : s'.hasFailure = true →
    (s.hasFailure = true ∧ s'.failedSegNo = s.failedSegNo ∧ s'.failed = s.failed) ∨ s'.failedSegNo ∈ s'.failed

/-- Doing nothing is quiet; an operation differs from that in what it changes. -/
theorem Keyed.quiet (h : Keyed s) : Quiet s s where
  requested _ hr := hr
  stopped := h.stopped
  entries _ info hl := .inl ⟨info, hl, id⟩
  pending _ hp := .inl hp
  delivered := rfl
  received := rfl
  failed _ hn := .inl hn
  failing hf := .inl ⟨hf, rfl, rfl⟩

theorem Keyed.transfer (h : Keyed s) (hq : Quiet s s') : Keyed s' where
  stopped := hq.stopped
  keys n info hl := by
    rcases hq.entries n info hl with ⟨info', hl', -⟩ | ⟨hr, -⟩
    · exact hq.requested n (h.keys n info' hl')
    · exact hr
  pending p hp := by
    rcases hq.pending p hp with hp | hr
    · exact hq.requested _ (h.pending p hp)
    · exact hr
  received n hn := by
    obtain ⟨info, hl, hst⟩ := hn
    rcases hq.entries n info hl with ⟨info', hl', himp⟩ | ⟨-, hne⟩
    · rw [hq.delivered]; exact h.received n ⟨info', hl', himp hst⟩
    · exact absurd hst hne
  delivered n hn := by rw [hq.delivered] at hn; exact hq.requested n (h.delivered n hn)
  failed n hn := by
    rcases hq.failed n hn with hn | hr
    · exact hq.requested n (h.failed n hn)
    · exact hq.requested n hr
  failing hf := by
    rcases hq.failing hf with ⟨hf, hno, hfd⟩ | hm
    · rw [hno, hfd]; exact h.failing hf
    · exact hm
  counted := by rw [hq.received, hq.delivered]; exact h.counted

/-- The entries are some of those before. -/
theorem entries_of_subset
    (hsub : ∀ n info, s'.segmentInfo.lookup n = some info → s.segmentInfo.lookup n = some info) :
    ∀ n info, s'.segmentInfo.lookup n = some info →
      (∃ info', s.segmentInfo.lookup n = some info' ∧ (info.state = .retxReceived → info'.state = .retxReceived)) ∨
      (Requested n s' ∧ info.state ≠ .retxReceived) := by
  intro n info hl
  exact .inl ⟨info, hsub n info hl, id⟩

/-! ## Stopping -/

theorem keyed_doCancel (h : Keyed s) : Keyed (doCancel { s with isStopping := true }) := by
  apply h.transfer
  refine { h.quiet with stopped := fun _ _ => rfl, entries := ?_, pending := ?_ }
  · intro n info hl
    cases hl
  · intro p hp
    exact .inl (Face.mem_removeAll.1 hp).1

theorem keyed_cancel (h : Keyed s) (hgo : s.isStopping = false) : Keyed (cancel s) := by
  rw [cancel_of_going hgo]; exact keyed_doCancel h

theorem keyed_onFailure {reason : String} (h : Keyed s) (hgo : s.isStopping = false) :
    Keyed (onFailure reason s) := by
  rw [onFailure_of_going _ hgo]
  have h' := keyed_doCancel h
  exact ⟨h'.stopped, h'.keys, h'.pending, h'.received, h'.delivered, h'.failed, h'.failing, h'.counted⟩

theorem keyed_succeed (h : Keyed s) (hgo : s.isStopping = false) : Keyed (succeed s) := by
  have h' := keyed_cancel h hgo
  exact ⟨h'.stopped, h'.keys, h'.pending, h'.received, h'.delivered, h'.failed, h'.failing, h'.counted⟩

/-! ## Failures and the last segment -/

/-- Giving a segment up records it as failed. -/
theorem failed_append (hr : Requested n s) : ∀ m ∈ s.failed ++ [n], m ∈ s.failed ∨ Requested m s := by
  intro m hm
  rcases List.mem_append.1 hm with hm | hm
  · exact .inl hm
  · rw [List.mem_singleton.1 hm]; exact .inr hr

theorem keyed_dropped (h : Called n s) : Keyed (dropped n s) := by
  apply h.keyed.transfer
  refine { h.keyed.quiet with stopped := fun hst => absurd_of_going h.going hst, entries := ?_,
                              failed := failed_append h.requested, failing := ?_ }
  · apply entries_of_subset
    intro m info hl
    rw [lookup_dropped] at hl
    split at hl
    · cases hl
    · exact hl
  · intro hf
    exact .inr (List.mem_append_left _ (h.keyed.failing hf))

theorem keyed_gaveUp {reason : String} (h : Called n s) : Keyed (gaveUp n reason s) := by
  apply h.keyed.transfer
  refine { h.keyed.quiet with stopped := fun hst => absurd_of_going h.going hst, entries := ?_, pending := ?_,
                              failed := failed_append h.requested, failing := ?_ }
  · apply entries_of_subset
    intro m info hl
    rw [lookup_gaveUp] at hl
    split at hl
    · exact hl
    · cases hl
  · intro p hp
    exact .inl (Face.mem_removeAll.1 hp).1
  · intro _
    exact .inr (List.mem_append_right _ (List.mem_singleton_self _))

theorem keyed_handleFail {reason : String} (h : Called n s) : Keyed (handleFail n reason s) := by
  rcases handleFail_cases n reason h.going with ⟨-, -, heq⟩ | ⟨-, heq⟩ | ⟨-, heq⟩
  · rw [heq]; exact keyed_onFailure h.keyed h.going
  · rw [heq]; exact h.keyed
  · rw [heq]
    rcases giveUp_cases n reason s with ⟨-, heq⟩ | ⟨-, heq⟩
    · rw [heq]; exact keyed_onFailure (keyed_dropped h) h.going
    · rw [heq]; exact keyed_gaveUp h

theorem keyed_learnLast (h : Keyed s) (last : ℕ) (hgo : s.isStopping = false) : Keyed (learnLast last s) := by
  apply h.transfer
  refine { h.quiet with stopped := fun hst => absurd_of_going hgo hst, entries := ?_, pending := ?_ }
  · apply entries_of_subset
    intro m info hl
    rw [lookup_learnLast] at hl
    split at hl
    · exact hl
    · cases hl
  · intro p hp
    exact .inl (Face.mem_removeAll.1 hp).1

theorem called_learnt (h : Called n s) (last : ℕ) : Called n (learnt last s) := by
  have h' := keyed_learnLast h.keyed last h.going
  refine ⟨?_, h.going, h.requested⟩
  refine ⟨h'.stopped, h'.keys, h'.pending, h'.received, h'.delivered, h'.failed, ?_, h'.counted⟩
  intro hf
  cases hf

/-! ## Callbacks -/

theorem keyed_answered (h : Keyed s) (id : ℕ) : Keyed (answered id s) := by
  apply h.transfer
  refine { h.quiet with pending := ?_ }
  intro p hp
  exact .inl (Face.mem_removePendingInterest.1 hp).1

theorem called_answered {id : ℕ} (h : Keyed s) (hgo : s.isStopping = false) (hn : s.face.segmentOf id = some n) :
    Called n (answered id s) where
  keyed := keyed_answered h id
  going := hgo
  requested := h.pending _ (Face.mem_of_segmentOf hn)

theorem keyed_lost (h : Keyed s) (now : Time) (k : ℕ) : Keyed (lost sch now k s) := by
  obtain ⟨r, c, l, heq⟩ := lost_frame sch now k s
  rw [heq]
  exact ⟨h.stopped, h.keys, h.pending, h.received, h.delivered, h.failed, h.failing, h.counted⟩

theorem keyed_requeue (h : Called n s) : Keyed (requeue n s) := by
  apply h.keyed.transfer
  refine { h.keyed.quiet with stopped := fun hst => absurd_of_going h.going hst, entries := ?_ }
  intro m info hl
  rw [lookup_requeue] at hl
  split at hl
  · rename_i hm; subst hm; cases hl
    exact .inr ⟨h.requested, by simp⟩
  · exact .inl ⟨info, hl, id⟩

theorem keyed_requeueAll (ns : List ℕ) (h : Keyed s) (hgo : s.isStopping = false)
    (hmem : ∀ n ∈ ns, n ∈ s.segmentInfo.inFlight) : Keyed (requeueAll ns s) := by
  obtain ⟨i, heq⟩ := requeueAll_frame ns s
  have hl := lookup_requeueAll ns s
  rw [heq] at hl ⊢
  apply h.transfer
  refine { h.quiet with stopped := fun hst => absurd_of_going hgo hst, entries := ?_ }
  intro m info hm
  rw [hl m] at hm
  split at hm
  · rename_i hmn; cases hm
    exact .inr ⟨h.mem_requested (SegmentMap.mem_of_mem_inFlight (hmem m hmn)), by simp⟩
  · exact .inl ⟨info, hm, id⟩

/-! ## Received segments -/

theorem keyed_touch (h : Called n s) : Keyed (touch n s) := by
  apply h.keyed.transfer
  refine { h.keyed.quiet with stopped := fun hst => absurd_of_going h.going hst, entries := ?_ }
  intro m info hl
  rw [lookup_touch] at hl
  split at hl
  · rename_i hm; subst hm; cases hl
    by_cases hk : m ∈ s.segmentInfo
    · exact .inl ⟨_, SegmentMap.lookup_of_mem hk, id⟩
    · -- the entry is made here, as if the segment's first Interest had been sent
      refine .inr ⟨h.requested, ?_⟩
      unfold SegmentMap.infoOf
      rw [SegmentMap.lookup_of_notMem hk]
      simp [default]
  · exact .inl ⟨info, hl, id⟩

theorem keyed_eraseInfo (h : Keyed s) (n : ℕ) (hgo : s.isStopping = false) : Keyed (eraseInfo n s) := by
  apply h.transfer
  refine { h.quiet with stopped := fun hst => absurd_of_going hgo hst, entries := ?_ }
  apply entries_of_subset
  intro m info hl
  rw [lookup_eraseInfo] at hl
  split at hl
  · cases hl
  · exact hl

theorem keyed_accept {d : Data} {now : Time} (h : Keyed s) (hgo : s.isStopping = false)
    (hr : Requested d.segmentNo s) : Keyed (accept sch now d s) := by
  obtain ⟨c, i, heq⟩ := accept_frame sch now d s
  have hl := fun m => lookup_accept sch now s m d
  rw [heq] at hl ⊢
  refine ⟨fun hst => absurd_of_going hgo hst, ?_, h.pending, ?_, ?_, h.failed, h.failing, ?_⟩
  · intro m info hm
    rw [hl m] at hm
    split at hm
    · rename_i hmd; rw [hmd]; exact hr
    · exact h.keys m info hm
  · rintro m ⟨info, hm, hst⟩
    rw [hl m] at hm
    split at hm
    · rename_i hmd; rw [hmd]; exact List.mem_append_right _ (List.mem_singleton_self _)
    · exact List.mem_append_left _ (h.received m ⟨info, hm, hst⟩)
  · intro m hm
    rcases List.mem_append.1 hm with hm | hm
    · exact h.delivered m hm
    · rw [List.mem_singleton.1 hm]; exact hr
  · simp only [List.length_append, List.length_singleton, h.counted]

/-- The packet that a callback is for is taken. -/
theorem keyed_received {d : Data} {now : Time} (h : Called d.segmentNo s) :
    Keyed (accept sch now d (touch d.segmentNo s)) :=
  keyed_accept (keyed_touch h) h.going h.requested

theorem keyed_completed {d : Data} {now : Time} (h : Called d.segmentNo s) :
    Keyed (succeed (accept sch now d (touch d.segmentNo s))) :=
  keyed_succeed (keyed_received h) ((isStopping_accept _).trans h.going)

/-! ## Sending -/

theorem keyed_popRetx {queue : List ℕ} (h : Keyed s) : Keyed (popRetx queue s) :=
  ⟨h.stopped, h.keys, h.pending, h.received, h.delivered, h.failed, h.failing, h.counted⟩

theorem keyed_countRetx (h : Keyed s) : Keyed (countRetx n s) :=
  ⟨h.stopped, h.keys, h.pending, h.received, h.delivered, h.failed, h.failing, h.counted⟩

theorem keyed_resend {now : Time} (h : Keyed s) (hn : n ∈ s.segmentInfo) : Keyed (resend sch now n s) := by
  apply h.transfer
  refine { h.quiet with stopped := fun hst => absurd_of_going (h.going_of_mem hn) hst, entries := ?_, pending := ?_ }
  · intro m info hl
    rw [lookup_resend] at hl
    split at hl
    · rename_i hm; subst hm; cases hl
      exact .inr ⟨h.mem_requested hn, by simp⟩
    · exact .inl ⟨info, hl, id⟩
  · intro p hp
    rcases Face.mem_expressInterest.1 hp with hp | rfl
    · exact .inl (Face.mem_removePendingInterest.1 hp).1
    · exact .inr (h.mem_requested hn)

theorem requested_advance (n : ℕ) (h : Requested n s) : Requested n (advance s) :=
  ⟨lt_of_lt_of_le h.1 ((nextNo_spec s).2.1.trans (Nat.le_succ _)), h.2⟩

theorem requested_nextNo (s : Adaptive κ) : Requested (nextNo s) (advance s) :=
  ⟨Nat.lt_succ_self _, (nextNo_spec s).1⟩

theorem keyed_advance (h : Keyed s) : Keyed (advance s) := by
  apply h.transfer
  exact { h.quiet with requested := requested_advance, entries := entries_of_subset fun _ _ hl => hl,
                       pending := fun _ hp => .inl hp }

/-- The next number is not in use. -/
theorem Keyed.nextNo_notMem (h : Keyed s) : nextNo s ∉ s.segmentInfo := by
  intro hm
  have := (h.mem_requested hm).1
  have := (nextNo_spec s).2.1
  omega

theorem keyed_sendFirst {now : Time} (h : Keyed s) (hgo : s.isStopping = false) :
    Keyed (sendFirst sch now (nextNo s) (advance s)) := by
  apply h.transfer
  refine { h.quiet with requested := requested_advance, stopped := fun hst => absurd_of_going hgo hst, entries := ?_,
                        pending := ?_ }
  · intro m info hl
    rw [lookup_sendFirst (s := advance s) sch _ _ h.nextNo_notMem] at hl
    split at hl
    · rename_i hm; subst hm; cases hl
      exact .inr ⟨requested_nextNo s, by simp⟩
    · exact .inl ⟨info, hl, id⟩
  · intro p hp
    rcases Face.mem_expressInterest.1 hp with hp | rfl
    · exact .inl hp
    · exact .inr (requested_nextNo s)

/-! ## Runs -/

theorem keyed_loop (sch : Scheme κ) (P : Points κ) : LoopPreserves sch P Keyed where
  pop h _ _ := keyed_popRetx h
  going h hn := h.going_of_mem hn
  resend _ h _ hn _ _ := keyed_resend (keyed_countRetx (keyed_popRetx h)) hn
  fail _ h _ hn _ _ := keyed_handleFail ⟨keyed_countRetx (keyed_popRetx h), h.going_of_mem hn, h.mem_requested hn⟩
  skip h _ _ := keyed_advance h
  first _ h _ hgo _ _ := keyed_sendFirst h hgo

theorem keyed_preserves (sch : Scheme κ) (P : Points κ) :
    Preserves sch P Keyed Keyed (fun n s => Called n s) (fun n s => Called n s) where
  going h := h.going
  idle h := h.keyed
  stopped id h _ := keyed_answered h id
  cancel h hgo := keyed_cancel h hgo
  answered h hgo hn := called_answered h hgo hn
  requeue now h _ := keyed_lost (keyed_requeue h) now 1
  expired now h hgo _ _ hmem := keyed_lost (keyed_requeueAll _ h hgo hmem) now _
  fail _ h _ := keyed_handleFail h
  learnStop h _ _ _ := keyed_onFailure (keyed_learnLast h.keyed _ h.going) h.going
  plain h := h
  learn h _ _ _ := called_learnt h _
  ignored h _ _ := ⟨h.keyed.stopped, h.keyed.keys, h.keyed.pending, h.keyed.received, h.keyed.delivered,
    h.keyed.failed, h.keyed.failing, h.keyed.counted⟩
  duplicate h _ _ := keyed_eraseInfo (keyed_touch h) _ h.going
  complete _ h _ _ _ _ := keyed_completed h
  accept _ h _ _ _ _ := keyed_received h
  schedule _ h hm := (keyed_loop sch P).loop h hm

/-- The state before the first Interest is sent: the excluded segment counts as received. -/
def start (control : κ) (data : Data) : Adaptive κ := { init control data with nReceived := 1 }

theorem keyed_start (control : κ) (data : Data) : Keyed (start control data) where
  stopped hst := by cases hst
  keys n info hl := by cases hl
  pending p hp := by cases hp
  received n hn := by obtain ⟨info, hl, -⟩ := hn; cases hl
  delivered n hn := by cases hn
  failed n hn := by cases hn
  failing hf := by cases hf
  counted := rfl

/-- What `run` does: the number of the first Interest is used up, and the Interest is sent unless
the discovered packet tells that there is no such segment. -/
theorem run_cases (sch : Scheme κ) (now : Time) (control : κ) (data : Data) :
    ((start control data).beyond (nextNo (start control data)) ∧
      run sch now control data = advance (start control data)) ∨
    (¬ (start control data).beyond (nextNo (start control data)) ∧
      run sch now control data = sendFirst sch now (nextNo (start control data)) (advance (start control data))) := by
  rcases sendNext_cases sch now (start control data) with ⟨h | h | h, heq⟩ | ⟨-, h, -, heq⟩
  · cases h
  · exact .inl ⟨h, heq⟩
  · cases h
  · exact .inr ⟨h, heq⟩

end NdnTools.Chunks.Adaptive
