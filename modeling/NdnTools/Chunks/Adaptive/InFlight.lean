/-
When `m_nInFlight` counts the segments in flight. The operations adjust the counter without looking
at the state of the segment: a failed segment and every cancelled one is subtracted even if it was
waiting on the retransmission queue, a Nack or an expiry of an old Interest is subtracted even if its
segment is on the queue already, Data for a segment without an entry is subtracted, and a segment
that is on the queue twice is added twice. Apart from these cases, which `inFlightExact` excludes
one by one, the counter is exact.
-/
import NdnTools.Chunks.Adaptive.Keyed
import NdnTools.Chunks.Adaptive.Aimd

namespace NdnTools.Chunks.Adaptive

variable {κ : Type}

/-- The counter of a pipeline that goes on is the number of its segments in flight. -/
def CountsInFlight (s : Adaptive κ) : Prop := s.isStopping = false → s.nInFlight = s.segmentInfo.inFlight.card

/-- Every entry after the segment is in flight. -/
def LaterInFlight (n : ℕ) (s : Adaptive κ) : Prop := ∀ m ∈ s.segmentInfo.keys, n < m → m ∈ s.segmentInfo.inFlight

instance (n : ℕ) (s : Adaptive κ) : Decidable (LaterInFlight n s) :=
  inferInstanceAs (Decidable (∀ m ∈ s.segmentInfo.keys, n < m → m ∈ s.segmentInfo.inFlight))

/-- The operations meet the segments in the states their adjustments of the counter are right for.
Where the counter would go below zero it stops at zero, which is right if nothing stays in flight. -/
def inFlightExact (κ : Type) : Points κ where
  requeue s n := n ∈ s.segmentInfo.inFlight ∨ s.segmentInfo.inFlight = ∅
  giveUp s n := OnlyEntry n s ∨ (n ∈ s.segmentInfo.inFlight ∧ LaterInFlight n s) ∨ ∀ m ∈ s.segmentInfo.inFlight, n ≤ m
  learn s _ last := (s.hasFailure = true ∧ s.failedSegNo ≤ last) ∨ LaterInFlight last s ∨
    ∀ m ∈ s.segmentInfo.inFlight, last < m
  receive s n := n ∈ s.segmentInfo ∨ s.segmentInfo.inFlight = ∅
  resend s n := n ∉ s.segmentInfo.inFlight

instance : (inFlightExact κ).Decides where
  requeue _ _ := inferInstanceAs (Decidable (_ ∨ _))
  giveUp _ _ := inferInstanceAs (Decidable (_ ∨ _ ∨ _))
  learn _ _ _ := inferInstanceAs (Decidable (_ ∨ _ ∨ _))
  receive _ _ := inferInstanceAs (Decidable (_ ∨ _))
  schedule _ := isTrue trivial
  resend _ _ := inferInstanceAs (Decidable (¬ _))

variable {sch : Scheme κ} {s : Adaptive κ} {n : ℕ}

/-! ## The segments in flight after an operation -/

theorem inFlight_requeue : (requeue n s).segmentInfo.inFlight = s.segmentInfo.inFlight.erase n :=
  AList.keysWhere_of_update _ fun _ => lookup_requeue

theorem inFlight_gaveUp {reason : String} :
    (gaveUp n reason s).segmentInfo.inFlight = s.segmentInfo.inFlight.filter (· < n) :=
  AList.keysWhere_of_filter _ fun _ => lookup_gaveUp

theorem inFlight_learnt : (learnt n s).segmentInfo.inFlight = s.segmentInfo.inFlight.filter (· ≤ n) :=
  AList.keysWhere_of_filter _ fun _ => lookup_learnt

theorem inFlight_resend {now : Time} : (resend sch now n s).segmentInfo.inFlight = insert n s.segmentInfo.inFlight :=
  AList.keysWhere_of_update _ fun _ => lookup_resend

theorem inFlight_sendFirst {now : Time} (h : n ∉ s.segmentInfo) :
    (sendFirst sch now n s).segmentInfo.inFlight = insert n s.segmentInfo.inFlight :=
  AList.keysWhere_of_update _ fun _ => lookup_sendFirst _ _ _ h

theorem inFlight_requeueAll (ns : List ℕ) :
    (requeueAll ns s).segmentInfo.inFlight = s.segmentInfo.inFlight \ ns.toFinset := by
  ext m
  rw [SegmentMap.mem_inFlight_iff, Finset.mem_sdiff, SegmentMap.mem_inFlight_iff, List.mem_toFinset, lookup_requeueAll]
  split
  · rename_i hm; simp [hm, SegmentState.isInFlight]
  · rename_i hm; simp [hm]

/-- A segment that was received before is not in flight. -/
theorem inFlight_duplicate (h : IsRetxReceived n s) :
    (eraseInfo n (touch n s)).segmentInfo.inFlight = s.segmentInfo.inFlight := by
  obtain ⟨info, hl, hst⟩ := h
  ext m
  rw [SegmentMap.mem_inFlight_iff, SegmentMap.mem_inFlight_iff, lookup_eraseInfo]
  split
  · rename_i hm; subst hm
    simp [hl, hst, SegmentState.isInFlight]
  · rename_i hm
    rw [lookup_touch, if_neg hm]

theorem inFlight_accept {d : Data} {now : Time} :
    (accept sch now d (touch d.segmentNo s)).segmentInfo.inFlight = s.segmentInfo.inFlight.erase d.segmentNo := by
  ext m
  rw [SegmentMap.mem_inFlight_iff, Finset.mem_erase, SegmentMap.mem_inFlight_iff, lookup_accept]
  split
  · rename_i hm
    split
    · simp [hm]
    · simp [hm, SegmentState.isInFlight]
  · rename_i hm
    rw [lookup_touch, if_neg hm]
    simp [hm]

theorem mem_inFlight_of_mem (hn : n ∈ s.segmentInfo) (hdup : ¬ IsRetxReceived n s)
    (hq : (s.segmentInfo.infoOf n).state ≠ .inRetxQueue) : n ∈ s.segmentInfo.inFlight := by
  refine SegmentMap.mem_inFlight_iff.2 ⟨_, SegmentMap.lookup_of_mem hn, ?_⟩
  cases hst : (s.segmentInfo.infoOf n).state
  · rfl
  · exact absurd hst hq
  · rfl
  · exact absurd (isRetxReceived_iff.2 hst) hdup

theorem notMem_inFlight_of_queued (hq : (s.segmentInfo.infoOf n).state = .inRetxQueue) :
    n ∉ s.segmentInfo.inFlight := by
  intro h
  obtain ⟨info, hl, hst⟩ := SegmentMap.mem_inFlight_iff.1 h
  rw [SegmentMap.infoOf_of_lookup hl] at hq
  rw [hq] at hst; cases hst

/-! ## Counting -/

/-- A set of numbers, split at one of them. -/
theorem card_split (F : Finset ℕ) (n : ℕ) :
    F.card = (F.filter (· < n)).card + (if n ∈ F then 1 else 0) + (F.filter (n < ·)).card := by
  -- on the set: a new number is before, at or after the split
  induction F using Finset.induction_on with
  | empty => rfl
  | insert a F ha ih =>
    rw [Finset.card_insert_of_notMem ha, Finset.filter_insert, Finset.filter_insert]
    rcases lt_trichotomy a n with h | h | h
    · have hlt : ¬ n < a := by omega
      have hne : n ≠ a := by omega
      simp only [h, hlt, if_true, if_false, Finset.mem_insert, hne, false_or]
      rw [Finset.card_insert_of_notMem (by simp [ha])]
      omega
    · subst h
      simp only [ha, if_false] at ih
      simp only [lt_irrefl, if_true, if_false, Finset.mem_insert_self]
      omega
    · have hlt : ¬ a < n := by omega
      have hne : n ≠ a := by omega
      simp only [h, hlt, if_true, if_false, Finset.mem_insert, hne, false_or]
      rw [Finset.card_insert_of_notMem (by simp [ha])]
      omega

/-- How many entries follow the segment. -/
theorem countP_later (n : ℕ) (s : Adaptive κ) :
    s.segmentInfo.keys.countP (fun m => n < m) = (s.segmentInfo.allKeys.filter (n < ·)).card := by
  rw [← AList.card_filter_allKeys]; simp

theorem card_later_le (n : ℕ) (s : Adaptive κ) :
    (s.segmentInfo.inFlight.filter (n < ·)).card ≤ (s.segmentInfo.allKeys.filter (n < ·)).card :=
  Finset.card_le_card (Finset.filter_subset_filter _ (AList.keysWhere_subset_allKeys _ _))

theorem card_later_eq (h : LaterInFlight n s) :
    (s.segmentInfo.inFlight.filter (n < ·)).card = (s.segmentInfo.allKeys.filter (n < ·)).card := by
  apply le_antisymm (card_later_le n s)
  apply Finset.card_le_card
  intro m hm
  obtain ⟨hm, hlt⟩ := Finset.mem_filter.1 hm
  obtain ⟨info, hl⟩ := AList.mem_allKeys.1 hm
  exact Finset.mem_filter.2 ⟨h m (AList.mem_keys.1 (SegmentMap.mem_iff_lookup.2 ⟨info, hl⟩)) hlt, hlt⟩

theorem allKeys_dropped_later :
    ((dropped n s).segmentInfo.allKeys.filter (n < ·)) = s.segmentInfo.allKeys.filter (n < ·) := by
  ext m
  simp only [Finset.mem_filter, AList.mem_allKeys, lookup_dropped]
  constructor
  · rintro ⟨⟨info, hl⟩, hlt⟩
    rw [if_neg (by omega)] at hl
    exact ⟨⟨info, hl⟩, hlt⟩
  · rintro ⟨⟨info, hl⟩, hlt⟩
    exact ⟨⟨info, by rw [if_neg (by omega)]; exact hl⟩, hlt⟩

theorem nInFlight_gaveUp {reason : String} :
    (gaveUp n reason s).nInFlight = s.nInFlight - 1 - (s.segmentInfo.allKeys.filter (n < ·)).card := by
  rw [← allKeys_dropped_later, ← countP_later]; rfl

theorem nInFlight_learnt :
    (learnt n s).nInFlight = s.nInFlight - (s.segmentInfo.allKeys.filter (n < ·)).card := by
  rw [← countP_later]; rfl

/-- Giving a segment up keeps the counter exact under the condition of `inFlightExact`. -/
theorem gaveUp_counts {reason : String} (h : s.nInFlight = s.segmentInfo.inFlight.card)
    (hc : (n ∈ s.segmentInfo.inFlight ∧ LaterInFlight n s) ∨ ∀ m ∈ s.segmentInfo.inFlight, n ≤ m) :
    (gaveUp n reason s).nInFlight = (gaveUp n reason s).segmentInfo.inFlight.card := by
  have hsplit := card_split s.segmentInfo.inFlight n
  have hle := card_later_le n s
  rw [nInFlight_gaveUp, inFlight_gaveUp, h]
  -- the code subtracts one for the segment and one for each later entry
  rcases hc with ⟨hn, hlater⟩ | hall
  · rw [if_pos hn] at hsplit
    rw [← card_later_eq hlater]
    omega
  · -- nothing stays in flight, and the counter stops at zero
    have hzero : (s.segmentInfo.inFlight.filter (· < n)).card = 0 := by
      rw [Finset.card_eq_zero, Finset.filter_eq_empty_iff]
      intro m hm hlt
      have := hall m hm
      omega
    have : (if n ∈ s.segmentInfo.inFlight then 1 else 0) ≤ 1 := by split <;> omega
    omega

theorem learnt_counts (h : s.nInFlight = s.segmentInfo.inFlight.card)
    (hc : LaterInFlight n s ∨ ∀ m ∈ s.segmentInfo.inFlight, n < m) :
    (learnt n s).nInFlight = (learnt n s).segmentInfo.inFlight.card := by
  have hsplit := Finset.card_filter_add_card_filter_not (s := s.segmentInfo.inFlight) (· ≤ n)
  simp only [not_le] at hsplit
  have hle := card_later_le n s
  rw [nInFlight_learnt, inFlight_learnt, h]
  rcases hc with hlater | hall
  · rw [← card_later_eq hlater]; omega
  · have hzero : (s.segmentInfo.inFlight.filter (· ≤ n)).card = 0 := by
      rw [Finset.card_eq_zero, Finset.filter_eq_empty_iff]
      intro m hm hle
      have := hall m hm
      omega
    omega

/-- One Interest less, for a segment in flight or with nothing in flight. -/
theorem erase_counts {F : Finset ℕ} {k : ℕ} (h : k = F.card) (hc : n ∈ F ∨ F = ∅) : k - 1 = (F.erase n).card := by
  rcases hc with hn | rfl
  · rw [Finset.card_erase_of_mem hn, h]
  · simp [h]

/-! ## Runs -/

/-- The invariant between events. -/
def Counted (s : Adaptive κ) : Prop := Keyed s ∧ CountsInFlight s

/-- In a callback. -/
def CountedAt (n : ℕ) (s : Adaptive κ) : Prop := Called n s ∧ s.nInFlight = s.segmentInfo.inFlight.card

theorem counts_of_stopping (h : s.isStopping = true) : CountsInFlight s := fun hgo => absurd_of_going hgo h

theorem counted_handleFail {reason : String} (h : CountedAt n s) (hc : FailMeets (inFlightExact κ) n s) :
    Counted (handleFail n reason s) := by
  have hgo := h.1.going
  refine ⟨keyed_handleFail h.1, ?_⟩
  rcases handleFail_cases n reason hgo with ⟨-, -, heq⟩ | ⟨-, heq⟩ | ⟨hf, heq⟩
  · rw [heq]; exact counts_of_stopping (isStopping_onFailure hgo)
  · rw [heq]; exact fun _ => h.2
  · rw [heq]
    rcases giveUp_cases n reason s with ⟨-, heq⟩ | ⟨hno, heq⟩
    · rw [heq]; exact counts_of_stopping (isStopping_onFailure (s := dropped n s) hgo)
    · rw [heq]
      exact fun _ => gaveUp_counts h.2 ((hc hgo hf).resolve_left hno)

theorem counted_loop (sch : Scheme κ) : LoopPreserves sch (inFlightExact κ) Counted where
  pop h _ _ := ⟨keyed_popRetx h.1, h.2⟩
  going h hn := h.1.going_of_mem hn
  resend _ h _ hn _ hno := by
    refine ⟨keyed_resend (keyed_countRetx (keyed_popRetx h.1)) hn, ?_⟩
    intro _
    have hcount := h.2 (h.1.going_of_mem hn)
    rw [inFlight_resend]
    exact (congrArg (· + 1) hcount).trans (Finset.card_insert_of_notMem hno).symm
  fail _ h _ hn _ hm :=
    counted_handleFail
      ⟨⟨keyed_countRetx (keyed_popRetx h.1), h.1.going_of_mem hn, h.1.mem_requested hn⟩, h.2 (h.1.going_of_mem hn)⟩ hm
  skip h _ _ := ⟨keyed_advance h.1, h.2⟩
  first _ h _ hgo _ _ := by
    have hn := h.1.nextNo_notMem
    refine ⟨keyed_sendFirst h.1 hgo, ?_⟩
    intro _
    rw [inFlight_sendFirst (s := advance _) hn]
    refine (congrArg (· + 1) (h.2 hgo)).trans (Finset.card_insert_of_notMem ?_).symm
    intro hm
    exact hn (SegmentMap.mem_of_mem_inFlight hm)

theorem lost_counts {now : Time} {k : ℕ} (h : s.nInFlight - k = s.segmentInfo.inFlight.card) :
    CountsInFlight (lost sch now k s) := by
  obtain ⟨r, c, l, heq⟩ := lost_frame sch now k s
  rw [heq]; exact fun _ => h

theorem accept_counts {d : Data} {now : Time} (h : CountedAt d.segmentNo s) (hdup : ¬ IsRetxReceived d.segmentNo s)
    (hc : d.segmentNo ∈ s.segmentInfo ∨ s.segmentInfo.inFlight = ∅) :
    CountsInFlight (accept sch now d (touch d.segmentNo s)) := by
  intro _
  rw [inFlight_accept]
  have hn : (accept sch now d (touch d.segmentNo s)).nInFlight = landed d.segmentNo s := by
    obtain ⟨c, i, heq⟩ := accept_frame sch now d (touch d.segmentNo s)
    rw [heq]
    unfold landed
    rw [infoOf_touch]
    rfl
  rw [hn]
  unfold landed
  by_cases hq : (s.segmentInfo.infoOf d.segmentNo).state = .inRetxQueue
  -- a queued segment was counted off when it was queued
  · rw [if_neg (by simp [hq]), Finset.erase_eq_of_notMem (notMem_inFlight_of_queued hq)]
    exact h.2
  · rw [if_pos hq]
    exact erase_counts h.2 (hc.imp (fun hm => mem_inFlight_of_mem hm hdup hq) id)

theorem counted_preserves (sch : Scheme κ) :
    Preserves sch (inFlightExact κ) Counted Counted (fun n s => CountedAt n s) (fun n s => CountedAt n s) where
  going h := h.1.going
  idle h := ⟨h.1.keyed, fun _ => h.2⟩
  stopped id h hst := ⟨keyed_answered h.1 id, counts_of_stopping hst⟩
  cancel h hgo := ⟨keyed_cancel h.1 hgo, counts_of_stopping (isStopping_cancel _)⟩
  answered h hgo hn := ⟨called_answered h.1 hgo hn, h.2 hgo⟩
  requeue now h hc := by
    refine ⟨keyed_lost (keyed_requeue h.1) now 1, lost_counts ?_⟩
    rw [inFlight_requeue]
    exact erase_counts h.2 hc
  expired now h hgo hnd _ hmem := by
    refine ⟨keyed_lost (keyed_requeueAll _ h.1 hgo hmem) now _, lost_counts ?_⟩
    obtain ⟨i, heq⟩ := requeueAll_frame _ _
    rw [inFlight_requeueAll, Finset.card_sdiff_of_subset fun m hm => hmem m (List.mem_toFinset.1 hm),
      List.toFinset_card_of_nodup hnd, heq, ← h.2 hgo]
  fail _ h hm := counted_handleFail h hm
  learnStop h _ _ _ := ⟨keyed_onFailure (keyed_learnLast h.1.keyed _ h.1.going) h.1.going,
    counts_of_stopping (isStopping_onFailure (s := learnLast _ _) h.1.going)⟩
  plain h := h
  learn h _ hc hlt := by
    refine ⟨called_learnt h.1 _, learnt_counts h.2 ?_⟩
    -- the first case stops the pipeline, so it is not this one
    rcases hc with ⟨hf, hle⟩ | hc
    · have := hlt hf
      omega
    · exact hc
  ignored h hc hn := ⟨(keyed_preserves sch (inFlightExact κ)).ignored h.1 hc hn, fun _ => h.2⟩
  duplicate h hdup _ := by
    refine ⟨keyed_eraseInfo (keyed_touch h.1) _ h.1.going, ?_⟩
    intro _
    rw [inFlight_duplicate hdup]
    exact h.2
  complete _ h _ _ _ _ := ⟨keyed_completed h.1, counts_of_stopping (isStopping_cancel _)⟩
  accept _ h hdup _ hc _ := ⟨keyed_received h.1, accept_counts h hdup hc⟩
  schedule _ h hm := (counted_loop sch).loop h hm

theorem counted_run (sch : Scheme κ) (now : Time) (control : κ) (data : Data) :
    Counted (run sch now control data) := by
  have hk := keyed_start control data
  rcases run_cases sch now control data with ⟨-, heq⟩ | ⟨-, heq⟩
  · rw [heq]
    exact ⟨keyed_advance hk, fun _ => rfl⟩
  · rw [heq]
    refine ⟨keyed_sendFirst hk rfl, fun _ => ?_⟩
    rw [inFlight_sendFirst (s := advance (start control data)) hk.nextNo_notMem]
    rfl

/-- In every run whose steps meet `inFlightExact`, `m_nInFlight` is the number of segments in flight
in every state of a pipeline that is not stopping. -/
theorem counts_of_inFlightExact (sch : Scheme κ) (now : Time) (control : κ) (data : Data) (es : List Event)
    (hruns : (machine sch).Runs (run sch now control data) es)
    (hexact : (machine sch).Each (Meets (inFlightExact κ) sch) (run sch now control data) es) :
    (machine sch).Always CountsInFlight (run sch now control data) es := by
  have hinv : (machine sch).Always Counted (run sch now control data) es :=
    Machine.always_of_inv (fun _ e hi he hm => (counted_preserves sch).step hi he hm)
      (counted_run sch now control data) hruns hexact
  exact hinv.imp fun _ h => h.2

theorem counts_of_inFlightExact_retransmission :
    (machine (Aimd.pipeline 3)).Always CountsInFlight (Aimd.started 3 (packet 0 none))
      [.data 10 1 (packet 1 none), .checkRto 5000 [2, 3, 4, 5], .data 5010 6 (packet 2 (some 9))] :=
  counts_of_inFlightExact (Aimd.pipeline 3) 0 _ (packet 0 none) _ (by decide +kernel) (by decide +kernel)

/-- Segments 2 to 5 time out and the window shrinks to two, so 2 and 3 are retransmitted and 4 and 5
wait on the queue. The first Interest for 4 expires: the counter is decremented for a segment that was
not in flight, and one Interest too many is sent. -/
def staleExpiry : List Event :=
  [.data 10 1 (packet 1 none), .checkRto 5000 [2, 3, 4, 5], .expire 5010 4]

theorem stale_expiry_undercounts :
    (machine (Aimd.pipeline 3)).Runs (Aimd.started 3 (packet 0 none)) staleExpiry ∧
      ¬ (machine (Aimd.pipeline 3)).Always CountsInFlight (Aimd.started 3 (packet 0 none)) staleExpiry := by
  refine ⟨by decide +kernel, fun h => ?_⟩
  have hlast := Machine.always_last _ _ h (by decide +kernel)
  revert hlast
  decide +kernel

end NdnTools.Chunks.Adaptive
