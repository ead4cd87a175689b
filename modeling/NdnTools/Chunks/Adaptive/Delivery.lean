/-
When every segment is delivered at most once, and all of them by a pipeline that completes. Here a
run consists of arrivals: arriving Data answers every pending Interest of its name, one after the
other. So after an arrival no Interest for a delivered segment is pending, and `handleData` is called
for it again in the same arrival only. It takes the segment for a new one if the entry is gone, which
happens in the two pipelines that look the segment up with `operator[]`, and if the entry was put back
in flight, which `schedulePackets` does to a segment that is still on the retransmission queue.
-/
import NdnTools.Lib.Pigeonhole
import NdnTools.Chunks.Adaptive.Keyed
import NdnTools.Chunks.Adaptive.Aimd

namespace NdnTools.Chunks.Adaptive

variable {κ : Type}

/-! ## Arrivals -/

/-- What reaches the pipeline from outside; Data comes without the id of an Interest. -/
inductive Arrival
  | data (now : Time) (d : Data)
  | nack (now : Time) (id : ℕ) (reason : NackReason)
  | expire (now : Time) (id : ℕ)
  | checkRto (now : Time) (order : List ℕ)
  | cancel
  deriving Repr, DecidableEq

/-- Arriving Data is handled once for each Interest of its name, unless that is no longer pending when
its turn comes. -/
def Arrival.events (s : Adaptive κ) : Arrival → List Event
  | .data now d => (s.face.idsOf d.segmentNo).map fun id => .data now id d
  | .nack now id reason => [.nack now id reason]
  | .expire now id => [.expire now id]
  | .checkRto now order => [.checkRto now order]
  | .cancel => [.cancel]

def Arrival.enabled (s : Adaptive κ) : Arrival → Prop
  | .data _ _ => True
  | .nack now id reason => Adaptive.enabled s (.nack now id reason)
  | .expire now id => Adaptive.enabled s (.expire now id)
  | .checkRto now order => Adaptive.enabled s (.checkRto now order)
  | .cancel => True

instance (s : Adaptive κ) (a : Arrival) : Decidable (a.enabled s) := by
  cases a <;> unfold Arrival.enabled <;> infer_instance

def arrivals (sch : Scheme κ) : Machine (Adaptive κ) Arrival where
  enabled s a := a.enabled s
  step s a := (machine sch).skipping.exec s (a.events s)

instance (sch : Scheme κ) (s : Adaptive κ) (a : Arrival) : Decidable ((arrivals sch).enabled s a) :=
  inferInstanceAs (Decidable (a.enabled s))

/-- Every step of the arrival meets the conditions. -/
def ArrivalMeets (P : Points κ) (sch : Scheme κ) (s : Adaptive κ) (a : Arrival) : Prop :=
  (machine sch).skipping.Each (fun s e => enabled s e → Meets P sch s e) s (a.events s)

instance (P : Points κ) [P.Decides] (sch : Scheme κ) (s : Adaptive κ) (a : Arrival) :
    Decidable (ArrivalMeets P sch s a) :=
  inferInstanceAs (Decidable ((machine sch).skipping.Each (fun s e => enabled s e → Meets P sch s e) s (a.events s)))

/-- Arriving Data is of the content that ends with segment `last`. -/
def OfContent (last : ℕ) : Arrival → Prop
  | .data _ d => d.segmentNo ≤ last ∧ FinalIs last d
  | _ => True

instance (last : ℕ) (d : Data) : Decidable (FinalIs last d) :=
  match h : d.finalBlockId with
  | none => isTrue fun l hl => by rw [h] at hl; cases hl
  | some l => decidable_of_iff (l = last) ⟨fun he l' hl => (by rw [h] at hl; cases hl; exact he), fun hf => hf l h⟩

instance (last : ℕ) (a : Arrival) : Decidable (OfContent last a) := by
  cases a <;> unfold OfContent <;> infer_instance

/-! ## The property and the condition -/

/-- No segment has been delivered twice, and if the pipeline has completed, every segment but the
discovered one has been delivered. -/
def DeliveredOnce (last : ℕ) (s : Adaptive κ) : Prop :=
  s.delivered.Nodup ∧ (s.completed = true → ∀ n ≤ last, n ≠ s.excludedSegmentNo → n ∈ s.delivered)

/-- No segment that was delivered is looked up without an entry or sent again. -/
def deliversOnce (sch : Scheme κ) : Points κ where
  receive s n := sch.isCubic = true ∨ n ∈ s.segmentInfo ∨ n ∉ s.delivered
  resend s n := ¬ IsRetxReceived n s

instance (sch : Scheme κ) : (deliversOnce sch).Decides where
  requeue _ _ := isTrue trivial
  giveUp _ _ := isTrue trivial
  learn _ _ _ := isTrue trivial
  receive _ _ := inferInstanceAs (Decidable (_ ∨ _ ∨ _))
  schedule _ := isTrue trivial
  resend _ _ := inferInstanceAs (Decidable (¬ _))

variable {sch : Scheme κ} {s s' : Adaptive κ} {n m last : ℕ} {left : ℕ → List ℕ}

/-! ## The invariant -/

/-- The pending Interests for segment `n` are among `ids`. -/
def PendingIn (n : ℕ) (ids : List ℕ) (s : Adaptive κ) : Prop := ∀ p ∈ s.face.pending, p.2 = n → p.1 ∈ ids

/-- An arrival may still have to answer the Interests `left n` for segment `n`. -/
structure Once (last : ℕ) (left : ℕ → List ℕ) (s : Adaptive κ) : Prop where
  keyed : Keyed s
  excluded : s.excludedSegmentNo ≤ last
  nodup : s.delivered.Nodup
  within : ∀ n ∈ s.delivered, n ≤ last
  final : s.isStopping = false → s.hasFinalBlockId = true → s.lastSegmentNo = last
  completed : s.completed = true → ∀ n ≤ last, n ≠ s.excludedSegmentNo → n ∈ s.delivered
  settled : ∀ n ∈ s.delivered, n ∈ s.segmentInfo → IsRetxReceived n s
  answered : s.isStopping = false → ∀ n ∈ s.delivered, PendingIn n (left n) s

/-- In a callback for segment `n`. -/
def OnceAt (last : ℕ) (left : ℕ → List ℕ) (n : ℕ) (s : Adaptive κ) : Prop := Called n s ∧ Once last left s

/-- With what the Face promises: a Nack or an expiry is for a segment that has not been delivered,
Data is of the content, and nothing but the rest of the arrival is pending for it. -/
def faceDelivers (sch : Scheme κ) (last : ℕ) (left : ℕ → List ℕ) : Points κ where
  requeue s n := n ∉ s.delivered
  learn _ _ l := l = last
  receive s n := (deliversOnce sch).receive s n ∧ n ≤ last ∧ PendingIn n (left n) s
  resend := (deliversOnce sch).resend

/-- A delivered segment is not in flight. -/
theorem Once.notMem_inFlight (h : Once last left s) (hn : n ∈ s.segmentInfo.inFlight) : n ∉ s.delivered := by
  intro hd
  obtain ⟨info, hl, hst⟩ := h.settled n hd (SegmentMap.mem_of_mem_inFlight hn)
  obtain ⟨info', hl', hfl⟩ := SegmentMap.mem_inFlight_iff.1 hn
  rw [hl] at hl'; cases hl'
  rw [hst] at hfl; cases hfl

/-- An operation that delivers nothing, changes no entry of a delivered segment but to remove it, and
sends no Interest for one. -/
structure Settles (last : ℕ) (s s' : Adaptive κ) : Prop where
  keyed : Keyed s'
  delivered : s'.delivered = s.delivered
  excluded : s'.excludedSegmentNo = s.excludedSegmentNo
  completed : s'.completed = s.completed
  going : s'.isStopping = false → s.isStopping = false
  final : s'.isStopping = false → s'.hasFinalBlockId = true → s'.lastSegmentNo = last
  entries : ∀ n ∈ s.delivered, ∀ info, s'.segmentInfo.lookup n = some info → s.segmentInfo.lookup n = some info
  pending : ∀ p ∈ s'.face.pending, p ∈ s.face.pending ∨ p.2 ∉ s.delivered

theorem Once.settles (h : Once last left s) : Settles last s s where
  keyed := h.keyed
  delivered := rfl
  excluded := rfl
  completed := rfl
  going hgo := hgo
  final := h.final
  entries _ _ _ hl := hl
  pending _ hp := .inl hp

theorem Once.transfer (h : Once last left s) (hs : Settles last s s') : Once last left s' where
  keyed := hs.keyed
  excluded := by rw [hs.excluded]; exact h.excluded
  nodup := by rw [hs.delivered]; exact h.nodup
  within n hn := by rw [hs.delivered] at hn; exact h.within n hn
  final := hs.final
  completed hc n hn hne := by
    rw [hs.completed] at hc
    rw [hs.excluded] at hne
    rw [hs.delivered]
    exact h.completed hc n hn hne
  settled n hn hmem := by
    rw [hs.delivered] at hn
    obtain ⟨info, hl⟩ := SegmentMap.mem_iff_lookup.1 hmem
    -- the entry is the one from before, which was settled
    have hl' := hs.entries n hn info hl
    obtain ⟨info', hl'', hst⟩ := h.settled n hn (SegmentMap.mem_iff_lookup.2 ⟨info, hl'⟩)
    rw [hl'] at hl''; cases hl''
    exact ⟨info, hl, hst⟩
  answered hgo n hn p hp hpn := by
    rw [hs.delivered] at hn
    rcases hs.pending p hp with hp | hno
    · exact h.answered (hs.going hgo) n hn p hp hpn
    · rw [hpn] at hno; exact absurd hn hno

/-! ## The operations -/

theorem once_doCancel (h : Once last left s) : Once last left (doCancel { s with isStopping := true }) := by
  apply h.transfer
  refine { h.settles with keyed := keyed_doCancel h.keyed, going := ?_, final := ?_, entries := ?_, pending := ?_ }
  · intro hgo
    cases hgo
  · intro hgo
    cases hgo
  · intro _ _ _ hl
    cases hl
  · intro p hp
    exact .inl (Face.mem_removeAll.1 hp).1

theorem once_cancel (h : Once last left s) (hgo : s.isStopping = false) : Once last left (cancel s) := by
  rw [cancel_of_going hgo]; exact once_doCancel h

theorem once_onFailure {reason : String} (h : Once last left s) (hgo : s.isStopping = false) :
    Once last left (onFailure reason s) := by
  have hk : Keyed (onFailure reason s) := keyed_onFailure h.keyed hgo
  have hc := once_doCancel h
  rw [onFailure_of_going _ hgo] at hk ⊢
  exact ⟨hk, hc.excluded, hc.nodup, hc.within, hc.final, hc.completed, hc.settled, hc.answered⟩

theorem once_answered (h : Once last left s) (id : ℕ) : Once last left (answered id s) := by
  apply h.transfer
  refine { h.settles with keyed := keyed_answered h.keyed id, pending := ?_ }
  intro p hp
  exact .inl (Face.mem_removePendingInterest.1 hp).1

theorem once_dropped (h : OnceAt last left n s) : Once last left (dropped n s) := by
  apply h.2.transfer
  refine { h.2.settles with keyed := keyed_dropped h.1, entries := ?_ }
  intro m _ info hl
  rw [lookup_dropped] at hl
  split at hl
  · cases hl
  · exact hl

theorem once_gaveUp {reason : String} (h : OnceAt last left n s) : Once last left (gaveUp n reason s) := by
  apply h.2.transfer
  refine { h.2.settles with keyed := keyed_gaveUp h.1, entries := ?_, pending := ?_ }
  · intro m _ info hl
    rw [lookup_gaveUp] at hl
    split at hl
    · exact hl
    · cases hl
  · intro p hp
    exact .inl (Face.mem_removeAll.1 hp).1

theorem once_handleFail {reason : String} (h : OnceAt last left n s) : Once last left (handleFail n reason s) := by
  rcases handleFail_cases n reason h.1.going with ⟨-, -, heq⟩ | ⟨-, heq⟩ | ⟨-, heq⟩
  · rw [heq]; exact once_onFailure h.2 h.1.going
  · rw [heq]; exact h.2
  · rw [heq]
    rcases giveUp_cases n reason s with ⟨-, heq⟩ | ⟨-, heq⟩
    · rw [heq]; exact once_onFailure (once_dropped h) h.1.going
    · rw [heq]; exact once_gaveUp h

/-- The last segment becomes known and the pipeline stops: which number it is does not matter. -/
theorem once_learnStop {reason : String} {l : ℕ} (h : OnceAt last left n s) :
    Once last left (onFailure reason (learnLast l s)) := by
  have heq := onFailure_of_going (s := learnLast l s) reason h.1.going
  have hk : Keyed (onFailure reason (learnLast l s)) :=
    keyed_onFailure (keyed_learnLast h.1.keyed l h.1.going) h.1.going
  rw [heq] at hk ⊢
  apply h.2.transfer
  refine { h.2.settles with keyed := hk, going := ?_, final := ?_, entries := ?_, pending := ?_ }
  · intro hgo
    cases hgo
  · intro hgo
    cases hgo
  · intro _ _ _ hl
    cases hl
  · intro p hp
    -- cancelled when the last segment was learnt, or when the pipeline stopped
    exact .inl (Face.mem_removeAll.1 (Face.mem_removeAll.1 hp).1).1

theorem once_learnt (h : OnceAt last left n s) : OnceAt last left n (learnt last s) := by
  have hc := called_learnt h.1 last
  refine ⟨hc, h.2.transfer ?_⟩
  refine { h.2.settles with keyed := hc.keyed, final := fun _ _ => rfl, entries := ?_, pending := ?_ }
  · intro m _ info hl
    rw [lookup_learnt] at hl
    split at hl
    · exact hl
    · cases hl
  · intro p hp
    exact .inl (Face.mem_removeAll.1 hp).1

theorem once_lost {now : Time} {k : ℕ} (h : Once last left s) : Once last left (lost sch now k s) := by
  have hk : Keyed (lost sch now k s) := keyed_lost h.keyed now k
  obtain ⟨r, c, l, heq⟩ := lost_frame sch now k s
  rw [heq] at hk ⊢
  apply h.transfer
  exact { h.settles with keyed := hk }

theorem once_requeue (h : OnceAt last left n s) (hn : n ∉ s.delivered) : Once last left (requeue n s) := by
  apply h.2.transfer
  refine { h.2.settles with keyed := keyed_requeue h.1, entries := ?_ }
  intro m hm info hl
  rw [lookup_requeue, if_neg fun he => hn (by rwa [he] at hm)] at hl
  exact hl

theorem once_requeueAll {ns : List ℕ} (h : Once last left s) (hgo : s.isStopping = false)
    (hmem : ∀ n ∈ ns, n ∈ s.segmentInfo.inFlight) : Once last left (requeueAll ns s) := by
  have hk := keyed_requeueAll ns h.keyed hgo hmem
  have hl := lookup_requeueAll ns s
  obtain ⟨i, heq⟩ := requeueAll_frame ns s
  rw [heq] at hk hl ⊢
  apply h.transfer
  refine { h.settles with keyed := hk, entries := ?_ }
  intro m hm info hi
  -- an expired segment is in flight, so it has not been delivered
  rw [hl m, if_neg fun hmn => h.notMem_inFlight (hmem m hmn) hm] at hi
  exact hi

theorem once_ignored (h : Once last left s) (n : ℕ) : Once last left { s with highData := max s.highData n } := by
  have hk := h.keyed
  refine ⟨?_, h.excluded, h.nodup, h.within, h.final, h.completed, h.settled, h.answered⟩
  exact ⟨hk.stopped, hk.keys, hk.pending, hk.received, hk.delivered, hk.failed, hk.failing, hk.counted⟩

/-- The entry of a segment that was received before is erased. -/
theorem once_duplicate (h : OnceAt last left n s) : Once last left (eraseInfo n (touch n s)) := by
  apply h.2.transfer
  refine { h.2.settles with keyed := keyed_eraseInfo (keyed_touch h.1) n h.1.going, entries := ?_ }
  intro m _ info hl
  rw [lookup_eraseInfo] at hl
  split at hl
  · cases hl
  · rename_i hmn
    rw [lookup_touch, if_neg hmn] at hl
    exact hl

/-- A segment that is accepted has not been delivered before. -/
theorem Once.notMem_delivered {d : Data} (h : Once last left s) (hdup : ¬ IsRetxReceived d.segmentNo s)
    (hcub : sch.isCubic = true → d.segmentNo ∈ s.segmentInfo) (hc : (deliversOnce sch).receive s d.segmentNo) :
    d.segmentNo ∉ s.delivered := by
  intro hd
  rcases hc with hc | hm | hno
  · exact hdup (h.settled _ hd (hcub hc))
  · exact hdup (h.settled _ hd hm)
  · exact hno hd

theorem once_accept {d : Data} {now : Time} (h : OnceAt last left d.segmentNo s) (hnew : d.segmentNo ∉ s.delivered)
    (hle : d.segmentNo ≤ last) (hpend : PendingIn d.segmentNo (left d.segmentNo) s) :
    Once last left (accept sch now d (touch d.segmentNo s)) := by
  have hk : Keyed (accept sch now d (touch d.segmentNo s)) := keyed_received h.1
  have hl := fun m => lookup_accept sch now (touch d.segmentNo s) m d
  obtain ⟨c, i, heq⟩ := accept_frame sch now d (touch d.segmentNo s)
  rw [heq] at hk hl ⊢
  refine ⟨hk, h.2.excluded, ?_, ?_, h.2.final, ?_, ?_, ?_⟩
  · refine List.nodup_append.2 ⟨h.2.nodup, List.nodup_singleton _, ?_⟩
    rintro a ha b hb rfl
    rw [List.mem_singleton.1 hb] at ha
    exact hnew ha
  · intro m hm
    rcases List.mem_append.1 hm with hm | hm
    · exact h.2.within m hm
    · rw [List.mem_singleton.1 hm]; exact hle
  · intro hc m hm hne
    exact List.mem_append_left _ (h.2.completed hc m hm hne)
  · intro m hm hmem
    obtain ⟨info, hi⟩ := SegmentMap.mem_iff_lookup.1 hmem
    have hi' := hi
    by_cases hmd : m = d.segmentNo
    · -- its entry is left only if it is marked
      rw [hl m, if_pos hmd] at hi'
      split at hi'
      · cases hi'
      · cases hi'; exact ⟨_, hi, rfl⟩
    · have hold := (List.mem_append.1 hm).resolve_right fun hm => hmd (List.mem_singleton.1 hm)
      rw [hl m, if_neg hmd, lookup_touch, if_neg hmd] at hi'
      obtain ⟨info', hi'', hst⟩ := h.2.settled m hold (SegmentMap.mem_iff_lookup.2 ⟨info, hi'⟩)
      rw [hi'] at hi''; cases hi''
      exact ⟨info, hi, hst⟩
  · intro hgo m hm
    rcases List.mem_append.1 hm with hm | hm
    · exact h.2.answered hgo m hm
    · rw [List.mem_singleton.1 hm]; exact hpend

/-- A pipeline that has as many segments as the last number, none of them twice, has all of them. -/
theorem once_succeed (h : Once last left s) (hgo : s.isStopping = false) (hall : s.allReceived) :
    Once last left (succeed s) := by
  have h' := once_cancel h hgo
  have hdel : (succeed s).delivered = s.delivered := by
    unfold succeed; rw [cancel_of_going hgo]; rfl
  have hexc : (succeed s).excludedSegmentNo = s.excludedSegmentNo := by
    unfold succeed; rw [cancel_of_going hgo]; rfl
  refine ⟨keyed_succeed h.keyed hgo, h'.excluded, h'.nodup, h'.within, h'.final, ?_, h'.settled, h'.answered⟩
  intro _ n hn hne
  rw [hexc] at hne
  rw [hdel]
  -- the counter is one ahead of the delivered segments: the excluded one was counted
  have hlen := hall.2
  rw [h.final hgo hall.1, h.keyed.counted, Nat.add_sub_cancel] at hlen
  have hmem : ∀ m ∈ s.delivered, m ≤ last ∧ m ≠ s.excludedSegmentNo := by
    intro m hm
    exact ⟨h.within m hm, (h.keyed.delivered m hm).2⟩
  exact Pigeonhole.covers_of_le_length h.nodup hmem h.excluded hlen n hn hne

/-! ## Sending -/

theorem once_popRetx {queue : List ℕ} (h : Once last left s) : Once last left (popRetx queue s) :=
  ⟨keyed_popRetx h.keyed, h.excluded, h.nodup, h.within, h.final, h.completed, h.settled, h.answered⟩

theorem once_countRetx (h : Once last left s) : Once last left (countRetx n s) :=
  ⟨keyed_countRetx h.keyed, h.excluded, h.nodup, h.within, h.final, h.completed, h.settled, h.answered⟩

theorem once_resend {now : Time} (h : Once last left s) (hn : n ∈ s.segmentInfo) (hc : ¬ IsRetxReceived n s) :
    Once last left (resend sch now n s) := by
  -- a delivered segment with an entry is in state `RetxReceived`
  have hnew : n ∉ s.delivered := fun hd => hc (h.settled n hd hn)
  apply h.transfer
  refine { h.settles with keyed := keyed_resend h.keyed hn, entries := ?_, pending := ?_ }
  · intro m hm info hl
    rw [lookup_resend, if_neg fun he => hnew (by rwa [he] at hm)] at hl
    exact hl
  · intro p hp
    rcases Face.mem_expressInterest.1 hp with hp | rfl
    · exact .inl (Face.mem_removePendingInterest.1 hp).1
    · exact .inr hnew

theorem once_advance (h : Once last left s) : Once last left (advance s) := by
  apply h.transfer
  exact { h.settles with keyed := keyed_advance h.keyed }

theorem once_sendFirst {now : Time} (h : Once last left s) (hgo : s.isStopping = false) :
    Once last left (sendFirst sch now (nextNo s) (advance s)) := by
  -- only smaller numbers have been requested
  have hnew : nextNo s ∉ s.delivered := by
    intro hd
    have := (h.keyed.delivered _ hd).1
    have := (nextNo_spec s).2.1
    omega
  apply h.transfer
  refine { h.settles with keyed := keyed_sendFirst h.keyed hgo, entries := ?_, pending := ?_ }
  · intro m hm info hl
    rw [lookup_sendFirst (s := advance s) sch _ _ h.keyed.nextNo_notMem,
      if_neg fun he => hnew (by rwa [he] at hm)] at hl
    exact hl
  · intro p hp
    rcases Face.mem_expressInterest.1 hp with hp | rfl
    · exact .inl hp
    · exact .inr hnew

theorem once_loop (sch : Scheme κ) (last : ℕ) (left : ℕ → List ℕ) :
    LoopPreserves sch (faceDelivers sch last left) (Once last left) where
  pop h _ _ := once_popRetx h
  going h hn := h.keyed.going_of_mem hn
  resend _ h _ hn _ hc := once_resend (once_countRetx (once_popRetx h)) hn hc
  fail _ h _ hn _ _ := once_handleFail ⟨⟨keyed_countRetx (keyed_popRetx h.keyed), h.keyed.going_of_mem hn,
    h.keyed.mem_requested hn⟩, once_countRetx (once_popRetx h)⟩
  skip h _ _ := once_advance h
  first _ h _ hgo _ _ := once_sendFirst h hgo

/-! ## Steps -/

theorem once_preserves (sch : Scheme κ) (last : ℕ) (left : ℕ → List ℕ) :
    Preserves sch (faceDelivers sch last left) (Once last left) (Once last left) (fun n s => OnceAt last left n s)
      (fun n s => OnceAt last left n s) where
  going h := h.1.going
  idle h := h.2
  stopped id h _ := once_answered h id
  cancel h hgo := once_cancel h hgo
  answered h hgo hn := ⟨called_answered h.keyed hgo hn, once_answered h _⟩
  requeue _ h hn := once_lost (once_requeue h hn)
  expired _ h hgo _ _ hmem := once_lost (once_requeueAll h hgo hmem)
  fail _ h _ := once_handleFail h
  learnStop h _ _ _ := once_learnStop h
  plain h := h
  learn h _ hl _ := by rw [show _ = last from hl]; exact once_learnt h
  ignored h _ _ := once_ignored h.2 _
  duplicate h _ _ := once_duplicate h
  complete _ h hdup hcub hc hall := once_succeed
    (once_accept h (h.2.notMem_delivered hdup hcub hc.1) hc.2.1 hc.2.2) ((isStopping_accept _).trans h.1.going) hall
  accept _ h hdup hcub hc _ := once_accept h (h.2.notMem_delivered hdup hcub hc.1) hc.2.1 hc.2.2
  schedule _ h hm := (once_loop sch last left).loop h hm

/-! ## Arrivals keep the invariant -/

theorem delivered_handleFail (n : ℕ) (reason : String) (s : Adaptive κ) :
    (handleFail n reason s).delivered = s.delivered := by
  obtain ⟨_, _, _, _, _, _, _, _, _, heq, -⟩ := handleFail_frame n reason s
  rw [heq]

/-- `schedulePackets` delivers nothing and takes nothing back. -/
theorem delivered_loop (sch : Scheme κ) (P : Points κ) (m : ℕ) :
    LoopPreserves sch P fun s => Keyed s ∧ m ∈ s.delivered where
  pop h hq hn := ⟨(keyed_loop sch P).pop h.1 hq hn, h.2⟩
  going h hn := h.1.going_of_mem hn
  resend now h hq hn hex hp := ⟨(keyed_loop sch P).resend now h.1 hq hn hex hp, h.2⟩
  fail reason h hq hn hex hp := by
    refine ⟨(keyed_loop sch P).fail reason h.1 hq hn hex hp, ?_⟩
    rw [delivered_handleFail]
    exact h.2
  skip h hq hc := ⟨(keyed_loop sch P).skip h.1 hq hc, h.2⟩
  first now h hq hgo hb hf := ⟨(keyed_loop sch P).first now h.1 hq hgo hb hf, h.2⟩

theorem PendingIn.mono {ids : List ℕ} (h : PendingIn n ids s) (hsub : ∀ p ∈ s'.face.pending, p ∈ s.face.pending) :
    PendingIn n ids s' := by
  intro p hp hn
  exact h p (hsub p hp) hn

/-- After `handleData` for a segment the pipeline is stopping, or the segment is delivered, or nothing
was sent. -/
theorem receive_outcome {P : Points κ} {now : Time} {d : Data} {ids : List ℕ} (h : Called d.segmentNo s)
    (hpend : PendingIn d.segmentNo ids s) (hm : ReceiveMeets P sch now d s) :
    let s' := (receive sch now d s).finish sch now
    s'.isStopping = true ∨ d.segmentNo ∈ s'.delivered ∨ PendingIn d.segmentNo ids s' := by
  obtain ⟨-, hnext⟩ := hm
  rcases receive_cases sch now d s with ⟨-, -, heq⟩ | ⟨-, heq⟩ | ⟨-, -, _, rfl, ⟨-, heq⟩ | ⟨-, heq⟩⟩
  · rw [heq]; exact .inr (.inr hpend)
  · rw [heq]; exact .inr (.inr hpend)
  · rw [heq]; exact .inl (isStopping_succeed _)
  · rw [heq] at hnext ⊢
    have hk : Keyed (accept sch now d (touch d.segmentNo s)) := keyed_received h
    have hd : d.segmentNo ∈ (accept sch now d (touch d.segmentNo s)).delivered := by
      obtain ⟨c, i, heq⟩ := accept_frame sch now d (touch d.segmentNo s)
      rw [heq]; exact List.mem_append_right _ (List.mem_singleton_self _)
    exact .inr (.inl ((delivered_loop sch P d.segmentNo).loop ⟨hk, hd⟩ hnext).2)

theorem handleData_outcome {P : Points κ} {now : Time} {d : Data} {ids : List ℕ} (h : Called d.segmentNo s)
    (hpend : PendingIn d.segmentNo ids s) (hm : DataMeets P sch now d s) :
    let s' := (handleData sch now d s).finish sch now
    s'.isStopping = true ∨ d.segmentNo ∈ s'.delivered ∨ PendingIn d.segmentNo ids s' := by
  obtain ⟨hplain, hlearn⟩ := hm h.going
  rcases handleData_cases sch now d h.going with ⟨hc, heq⟩ | ⟨last, hf, hl, ⟨h1, h2, heq⟩ | ⟨hstop, heq⟩⟩
  · rw [heq]; exact receive_outcome h hpend (hplain hc)
  · rw [heq]; exact .inl (isStopping_onFailure (s := learnLast last s) h.going)
  · rw [heq]
    exact receive_outcome (called_learnt h last) (hpend.mono fun _ hp => (Face.mem_removeAll.1 hp).1)
      ((hlearn last hf hl).2 hstop)

/-- In the arrival of segment `m` the Interests `ids` are still to be answered. -/
def leftOf (m : ℕ) (ids : List ℕ) (n : ℕ) : List ℕ := if n = m then ids else []

theorem leftOf_self (m : ℕ) (ids : List ℕ) : leftOf m ids m = ids := if_pos rfl

theorem leftOf_nil (m : ℕ) : leftOf m [] = fun _ => [] := by
  funext n; unfold leftOf; split <;> rfl

theorem Once.mono {left' : ℕ → List ℕ} (h : Once last left s)
    (hleft : s.isStopping = false → ∀ n ∈ s.delivered, PendingIn n (left n) s → PendingIn n (left' n) s) :
    Once last left' s :=
  ⟨h.keyed, h.excluded, h.nodup, h.within, h.final, h.completed, h.settled,
    fun hgo n hn => hleft hgo n hn (h.answered hgo n hn)⟩

theorem dataMeets_face {now : Time} {d : Data} (hd : d.segmentNo ≤ last) (hf : FinalIs last d)
    (hpend : PendingIn d.segmentNo (left d.segmentNo) s) (hm : DataMeets (deliversOnce sch) sch now d s) :
    DataMeets (faceDelivers sch last left) sch now d s := by
  intro hgo
  obtain ⟨hplain, hlearn⟩ := hm hgo
  constructor
  · intro hc
    obtain ⟨hr, hnext⟩ := hplain hc
    exact ⟨⟨hr, hd, hpend⟩, hnext⟩
  · intro l hfb hl
    refine ⟨hf l hl, ?_⟩
    intro hno
    obtain ⟨hr, hnext⟩ := (hlearn l hfb hl).2 hno
    exact ⟨⟨hr, hd, hpend.mono fun _ hp => (Face.mem_removeAll.1 hp).1⟩, hnext⟩

/-- The answered Interest is no longer pending. -/
theorem pendingIn_answered {id : ℕ} {ids : List ℕ} (h : PendingIn n (id :: ids) (answered id s)) :
    PendingIn n ids (answered id s) := by
  intro p hp hn
  rcases List.mem_cons.1 (h p hp hn) with hid | hmem
  · exact absurd hid (Face.mem_removePendingInterest.1 hp).2
  · exact hmem

/-- What is left for the other segments does not change. -/
theorem pendingIn_leftOf {ids ids' : List ℕ} (h : n = m → PendingIn n ids s → PendingIn n ids' s)
    (hp : PendingIn n (leftOf m ids n) s) : PendingIn n (leftOf m ids' n) s := by
  unfold leftOf at hp ⊢
  split
  · rename_i hnm
    rw [if_pos hnm] at hp
    exact h hnm hp
  · rename_i hnm
    rw [if_neg hnm] at hp
    exact hp

/-- One pending Interest for the arriving segment is answered. -/
theorem once_answer {now : Time} {d : Data} {id : ℕ} {ids : List ℕ} (hd : d.segmentNo ≤ last) (hf : FinalIs last d)
    (h : Once last (leftOf d.segmentNo (id :: ids)) s)
    (hpend : s.isStopping = false → PendingIn d.segmentNo (id :: ids) s)
    (he : s.face.segmentOf id = some d.segmentNo) (hm : DataMeets (deliversOnce sch) sch now d (answered id s)) :
    let s' := Adaptive.step sch s (.data now id d)
    Once last (leftOf d.segmentNo ids) s' ∧ (s'.isStopping = false → PendingIn d.segmentNo ids s') := by
  have hstep : Adaptive.step sch s (.data now id d) = (handleData sch now d (answered id s)).finish sch now := by
    simp only [Adaptive.step, callback, he]
  have hans := once_answered h id
  rw [hstep]
  cases hgo : s.isStopping with
  | true =>
    have hst : (answered id s).isStopping = true := hgo
    rw [show handleData sch now d (answered id s) = .done (answered id s) from if_pos hst]
    exact ⟨hans.mono fun hgo' => absurd_of_going hgo' hst, fun hgo' => absurd_of_going hgo' hst⟩
  | false =>
    have hleft : PendingIn d.segmentNo ids (answered id s) :=
      pendingIn_answered ((hpend hgo).mono fun _ hp => (Face.mem_removePendingInterest.1 hp).1)
    have honce : Once last (leftOf d.segmentNo ids) (answered id s) :=
      hans.mono fun _ n _ hn => pendingIn_leftOf (fun _ => pendingIn_answered) hn
    have hcalled := called_answered h.keyed hgo he
    have hres := (once_preserves sch last (leftOf d.segmentNo ids)).handleData now ⟨hcalled, honce⟩
      (dataMeets_face hd hf (by rw [leftOf_self]; exact hleft) hm)
    refine ⟨hres, ?_⟩
    intro hgo'
    -- if the segment is still undelivered, no Interest was sent for it
    rcases handleData_outcome hcalled hleft hm with hst | hdel | hp
    · exact absurd_of_going hgo' hst
    · have := hres.answered hgo' _ hdel
      rwa [leftOf_self] at this
    · exact hp

theorem once_answerAll {now : Time} {d : Data} (hd : d.segmentNo ≤ last) (hf : FinalIs last d) :
    ∀ (ids : List ℕ) {s : Adaptive κ}, Once last (leftOf d.segmentNo ids) s →
      (s.isStopping = false → PendingIn d.segmentNo ids s) →
      (machine sch).skipping.Each (fun s e => enabled s e → Meets (deliversOnce sch) sch s e) s
        (ids.map fun id => .data now id d) →
      Once last (fun _ => []) ((machine sch).skipping.exec s (ids.map fun id => .data now id d))
  | [], _, h, _, _ => leftOf_nil d.segmentNo ▸ h
  | id :: ids, s, h, hpend, hm => by
    obtain ⟨hm, hrest⟩ := hm
    by_cases he : enabled s (.data now id d)
    · have hs : (machine sch).skipping.step s (.data now id d) = Adaptive.step sch s (.data now id d) := if_pos he
      rw [hs] at hrest
      obtain ⟨h', hpend'⟩ := once_answer hd hf h hpend he (hm he)
      simp only [List.map_cons, Machine.exec_cons, hs]
      exact once_answerAll hd hf ids h' hpend' hrest
    · have hs : (machine sch).skipping.step s (.data now id d) = s := if_neg he
      rw [hs] at hrest
      simp only [List.map_cons, Machine.exec_cons, hs]
      -- the Interest was removed or answered in the meantime
      have hgone : ∀ {n}, n = d.segmentNo → PendingIn n (id :: ids) s → PendingIn n ids s := by
        rintro n rfl hp p hpm hpn
        rcases List.mem_cons.1 (hp p hpm hpn) with hid | hmem
        · refine absurd (Face.segmentOf_of_mem ?_) he
          rw [← hid, ← hpn]; exact hpm
        · exact hmem
      exact once_answerAll hd hf ids (h.mono fun _ n _ hn => pendingIn_leftOf hgone hn)
        (fun hgo => hgone rfl (hpend hgo)) hrest

/-- A Nack or an expiry concerns a segment that has not been delivered. -/
theorem meets_face {e : Event} (h : Once last (fun _ => []) s) (hno : ∀ now id d, e ≠ .data now id d)
    (hm : Meets (deliversOnce sch) sch s e) : Meets (faceDelivers sch last fun _ => []) sch s e := by
  -- between arrivals no Interest for a delivered segment is pending
  have hnew : ∀ {id n}, s.isStopping = false → s.face.segmentOf id = some n → n ∉ s.delivered := by
    intro id n hgo hn hd
    exact absurd (h.answered hgo n hd _ (Face.mem_of_segmentOf hn) rfl) List.not_mem_nil
  cases e with
  | data now id d => exact absurd rfl (hno now id d)
  | nack now id reason =>
    intro n hn
    have hm := hm n hn
    cases reason with
    | none => exact fun _ _ => trivial
    | congestion => exact fun hgo => ⟨hnew hgo hn, (hm hgo).2⟩
    | duplicate => trivial
    | noRoute => exact fun _ _ => trivial
  | expire now id => exact fun n hn hgo => ⟨hnew hgo hn, (hm n hn hgo).2⟩
  | checkRto now order => exact hm
  | cancel => trivial

theorem once_single {e : Event} (h : Once last (fun _ => []) s) (he : enabled s e)
    (hno : ∀ now id d, e ≠ .data now id d)
    (hm : (machine sch).skipping.Each (fun s e => enabled s e → Meets (deliversOnce sch) sch s e) s [e]) :
    Once last (fun _ => []) ((machine sch).skipping.exec s [e]) := by
  have hs : (machine sch).skipping.step s e = Adaptive.step sch s e := if_pos he
  rw [Machine.exec_cons, Machine.exec_nil, hs]
  exact (once_preserves sch last fun _ => []).step h he (meets_face h hno (hm.1 he))

/-- Between arrivals nothing is pending for a delivered segment. -/
theorem once_arrival {a : Arrival} (h : Once last (fun _ => []) s) (he : a.enabled s) (hof : OfContent last a)
    (hm : ArrivalMeets (deliversOnce sch) sch s a) : Once last (fun _ => []) ((arrivals sch).step s a) := by
  cases a with
  | data now d =>
    apply once_answerAll hof.1 hof.2 _ ?_ ?_ hm
    · refine h.mono fun _ n _ hn p hp hpn => ?_
      exact absurd (hn p hp hpn) List.not_mem_nil
    · intro _ p hp hpn
      exact List.mem_map.2 ⟨p, List.mem_filter.2 ⟨hp, by simpa using hpn⟩, rfl⟩
  | nack now id reason => exact once_single h he (fun _ _ _ h => by cases h) hm
  | expire now id => exact once_single h he (fun _ _ _ h => by cases h) hm
  | checkRto now order => exact once_single h he (fun _ _ _ h => by cases h) hm
  | cancel => exact once_single h (show enabled s .cancel from trivial) (fun _ _ _ h => by cases h) hm

/-! ## Runs -/

theorem once_run (sch : Scheme κ) (now : Time) (control : κ) {data : Data} (hdata : data.segmentNo ≤ last)
    (hf : FinalIs last data) : Once last (fun _ => []) (run sch now control data) := by
  have hs : Once last (fun _ => []) (start control data) :=
    { keyed := keyed_start control data
      excluded := hdata
      nodup := List.nodup_nil
      within := fun n hn => by cases hn
      final := fun _ hfb => by
        obtain ⟨l, hl⟩ := Option.isSome_iff_exists.1 (show data.finalBlockId.isSome = true from hfb)
        simp only [start, init, PipelineInterests.setup, hl, Option.getD_some]
        exact hf l hl
      completed := fun hc => by cases hc
      settled := fun n hn => by cases hn
      answered := fun _ n hn => by cases hn }
  rcases run_cases sch now control data with ⟨-, heq⟩ | ⟨-, heq⟩
  · rw [heq]; exact once_advance hs
  · rw [heq]; exact once_sendFirst hs rfl

/-- In every run over a content that ends with segment `last`, in which no delivered segment is looked
up without an entry or sent again, every segment is delivered at most once, and all are when the
pipeline completes. -/
theorem deliveredOnce_of_deliversOnce (sch : Scheme κ) (last : ℕ) (now : Time) (control : κ) (data : Data)
    (arrived : List Arrival) (hdata : data.segmentNo ≤ last ∧ FinalIs last data)
    (hof : ∀ a ∈ arrived, OfContent last a)
    (hruns : (arrivals sch).Runs (run sch now control data) arrived)
    (honce : (arrivals sch).Each (ArrivalMeets (deliversOnce sch) sch) (run sch now control data) arrived) :
    (arrivals sch).Always (DeliveredOnce last) (run sch now control data) arrived := by
  have hinv : (arrivals sch).Always (Once last fun _ => []) (run sch now control data) arrived :=
    Machine.always_of_inv (fun _ _ hi he hm => once_arrival hi he hm.2 hm.1) (once_run sch now control hdata.1 hdata.2)
      hruns (honce.and_of_mem hof)
  exact hinv.imp fun _ h => ⟨h.nodup, h.completed⟩

/-- A run with a retransmission and a duplicate. -/
theorem deliveredOnce_of_deliversOnce_retransmission :
    (arrivals (Aimd.pipeline 1)).Always (DeliveredOnce 2) (Aimd.started 1 (packet 0 none))
      [.checkRto 1010 [1], .checkRto 2020 [1], .data 2100 (packet 1 (some 2)), .data 2200 (packet 2 (some 2))] :=
  deliveredOnce_of_deliversOnce (Aimd.pipeline 1) 2 0 _ (packet 0 none) _ (by decide) (by decide) (by decide +kernel)
    (by decide +kernel)

/-- Segment 1 times out three times, and its three retransmissions are pending when it arrives: the
first delivers it, the second erases its entry, and the third delivers it again. That makes as many
segments as the last number, and the pipeline completes without segment 2. -/
def threeRetransmissions : List Arrival :=
  [.checkRto 1010 [1], .checkRto 2020 [1], .checkRto 3030 [1], .data 3100 (packet 1 (some 2))]

theorem third_retransmission_completes :
    (∀ a ∈ threeRetransmissions, OfContent 2 a) ∧
      (arrivals (Aimd.pipeline 1)).Runs (Aimd.started 1 (packet 0 none)) threeRetransmissions ∧
      ((arrivals (Aimd.pipeline 1)).exec (Aimd.started 1 (packet 0 none)) threeRetransmissions).delivered = [1, 1] ∧
      ((arrivals (Aimd.pipeline 1)).exec (Aimd.started 1 (packet 0 none)) threeRetransmissions).completed = true ∧
      ¬ (arrivals (Aimd.pipeline 1)).Always (DeliveredOnce 2) (Aimd.started 1 (packet 0 none))
        threeRetransmissions := by
  refine ⟨by decide, by decide +kernel, by decide +kernel, by decide +kernel, fun h => ?_⟩
  have hlast := (Machine.always_last _ _ h).1
  revert hlast
  decide +kernel

end NdnTools.Chunks.Adaptive
