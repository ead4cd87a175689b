/-
When a pipeline that goes on has a segment in flight or on the retransmission queue. Where the last
such segment disappears, the pipeline has to stop or to send. It does neither in these places: `run`
sends nothing if the discovered packet is the only one; giving a segment up stops the pipeline only
if no entry at all is left before the segments that follow are cancelled; Data that tells the last
segment and is then ignored sends nothing; and `schedulePackets` sends nothing if the window is
closed, or if a failure is waiting for the last segment to become known. Apart from these,
a segment that has not been requested is left until all segments are received, and it is sent.
-/
import NdnTools.Lib.Pigeonhole
import NdnTools.Chunks.Adaptive.Schedule
import NdnTools.Chunks.Adaptive.Requested
import NdnTools.Chunks.Adaptive.Aimd

namespace NdnTools.Chunks.Adaptive

variable {κ : Type}

/-- The pipeline is stopping, or has a segment in flight or on the retransmission queue. -/
def Busy (s : Adaptive κ) : Prop := s.isStopping = false → s.segmentInfo.active.Nonempty

instance (s : Adaptive κ) : Decidable (Busy s) :=
  inferInstanceAs (Decidable (s.isStopping = false → s.segmentInfo.active.Nonempty))

/-! ## What `schedulePackets` finds to send -/

/-- The segments on the retransmission queue that still have an entry. -/
def queued (s : Adaptive κ) : List ℕ := s.retxQueue.filter fun n => n ∈ s.segmentInfo

/-- The retries of the segment are used up, and `handleFail` does nothing because it lies after the
content. -/
def Spent (sch : Scheme κ) (s : Adaptive κ) (n : ℕ) : Prop := Exhausted sch n s ∧ s.beyond n

instance (sch : Scheme κ) (s : Adaptive κ) (n : ℕ) : Decidable (Spent sch s n) :=
  inferInstanceAs (Decidable (_ ∧ _))

/-- With `avail` places in the window there is room after the spent segments at the head of the
queue; and if no first Interest may be sent, there is a segment to retransmit. -/
def HasRoom (sch : Scheme κ) (avail : ℤ) (s : Adaptive κ) : Prop :=
  ((queued s).takeWhile fun n => Spent sch s n).length < avail ∧
    (s.hasFailure = true → ∃ n ∈ queued s, ¬ Spent sch s n)

instance (sch : Scheme κ) (avail : ℤ) (s : Adaptive κ) : Decidable (HasRoom sch avail s) :=
  inferInstanceAs (Decidable (_ ∧ _))

/-- No place passed leaves the pipeline without a segment to wait for. -/
def neverIdle (sch : Scheme κ) : Points κ where
  giveUp s n := OnlyEntry n s ∨ ∃ m ∈ s.segmentInfo.active, m < n
  learn s n last := (s.hasFailure = true ∧ s.failedSegNo ≤ last) ∨
    ((s.hasFailure = true → ∀ f ∈ s.failed, last < f) ∧
      (IsRetxReceived n s → n ≤ last → ∃ m ∈ s.segmentInfo.active, m ≤ last))
  schedule s := s.segmentInfo.active.Nonempty ∨ HasRoom sch (availableWindowSize sch s) s

instance (sch : Scheme κ) : (neverIdle sch).Decides where
  requeue _ _ := isTrue trivial
  giveUp s n := inferInstanceAs (Decidable (OnlyEntry n s ∨ ∃ m ∈ s.segmentInfo.active, m < n))
  learn s n last := inferInstanceAs (Decidable ((s.hasFailure = true ∧ s.failedSegNo ≤ last) ∨
    ((s.hasFailure = true → ∀ f ∈ s.failed, last < f) ∧
      (IsRetxReceived n s → n ≤ last → ∃ m ∈ s.segmentInfo.active, m ≤ last))))
  receive _ _ := isTrue trivial
  schedule s := inferInstanceAs (Decidable (s.segmentInfo.active.Nonempty ∨ HasRoom sch (availableWindowSize sch s) s))
  resend _ _ := isTrue trivial

variable {sch : Scheme κ} {s : Adaptive κ} {n m : ℕ}

/-! ## The active segments after an operation -/

theorem active_requeue : (requeue n s).segmentInfo.active = insert n s.segmentInfo.active :=
  AList.keysWhere_of_update _ fun _ => lookup_requeue

theorem active_gaveUp {reason : String} :
    (gaveUp n reason s).segmentInfo.active = s.segmentInfo.active.filter (· < n) :=
  AList.keysWhere_of_filter _ fun _ => lookup_gaveUp

theorem active_learnt : (learnt n s).segmentInfo.active = s.segmentInfo.active.filter (· ≤ n) :=
  AList.keysWhere_of_filter _ fun _ => lookup_learnt

theorem active_resend {now : Time} : (resend sch now n s).segmentInfo.active = insert n s.segmentInfo.active :=
  AList.keysWhere_of_update _ fun _ => lookup_resend

theorem active_sendFirst {now : Time} (h : n ∉ s.segmentInfo) :
    (sendFirst sch now n s).segmentInfo.active = insert n s.segmentInfo.active :=
  AList.keysWhere_of_update _ fun _ => lookup_sendFirst _ _ _ h

theorem active_requeueAll_nonempty {ns : List ℕ} (h : ns ≠ []) : (requeueAll ns s).segmentInfo.active.Nonempty := by
  obtain ⟨n, hn⟩ := List.exists_mem_of_ne_nil _ h
  have hl := lookup_requeueAll ns s n
  rw [if_pos hn] at hl
  exact ⟨n, SegmentMap.mem_active_iff.2 ⟨_, hl, rfl⟩⟩

/-- A segment that was received before is not active. -/
theorem active_duplicate (h : IsRetxReceived n s) :
    (eraseInfo n (touch n s)).segmentInfo.active = s.segmentInfo.active := by
  obtain ⟨info, hl, hst⟩ := h
  ext m
  rw [SegmentMap.mem_active_iff, SegmentMap.mem_active_iff, lookup_eraseInfo]
  split
  · rename_i hm; subst hm
    simp [hl, hst, SegmentState.isActive]
  · rename_i hm
    rw [lookup_touch, if_neg hm]

theorem active_of_firstTimeSent (h : s.segmentInfo.HasState n .firstTimeSent) : n ∈ s.segmentInfo.active := by
  obtain ⟨info, hl, hst⟩ := h
  exact SegmentMap.mem_active_iff.2 ⟨info, hl, by rw [hst]; rfl⟩

theorem active_of_retransmitted (h : s.segmentInfo.HasState n .retransmitted) : n ∈ s.segmentInfo.active := by
  obtain ⟨info, hl, hst⟩ := h
  exact SegmentMap.mem_active_iff.2 ⟨info, hl, by rw [hst]; rfl⟩

theorem active_of_inRetxQueue (h : s.segmentInfo.HasState n .inRetxQueue) : n ∈ s.segmentInfo.active := by
  obtain ⟨info, hl, hst⟩ := h
  exact SegmentMap.mem_active_iff.2 ⟨info, hl, by rw [hst]; rfl⟩

theorem Covered.delivered_or_active (h : Covered n s) : n ∈ s.delivered ∨ n ∈ s.segmentInfo.active := by
  rcases h with hd | h | h | ⟨h, -⟩
  · exact .inl hd
  · exact .inr (active_of_firstTimeSent h)
  · exact .inr (active_of_retransmitted h)
  · exact .inr (active_of_inRetxQueue h)

/-! ## All requested segments received -/

/-- A pipeline without failure that has requested everything and waits for nothing has received all
segments. -/
theorem allReceived_of_idle (h : Remembers s) (hgo : s.isStopping = false) (hidle : s.segmentInfo.active = ∅)
    (hfail : s.hasFailure = false) (hb : s.beyond (nextNo s)) : s.allReceived := by
  have hcov : ∀ n ≤ s.lastSegmentNo, n ≠ s.excludedSegmentNo → n ∈ s.delivered := by
    intro n hn hne
    have hreq : Requested n s := ⟨(nextNo_spec s).2.2 n (lt_of_le_of_lt hn hb.2) hne, hne⟩
    have hin : ¬ s.beyond n := fun hb' => absurd hb'.2 (Nat.not_lt.2 hn)
    rcases h.2 hgo n hreq hin id with hc | ⟨hf, -⟩
    · rcases hc.delivered_or_active with hd | hm
      · exact hd
      · rw [hidle] at hm; cases hm
    · rw [hfail] at hf; cases hf
  refine ⟨hb.1, ?_⟩
  rw [h.1.counted, Nat.add_sub_cancel]
  exact Pigeonhole.le_length_of_covers hcov

/-! ## Room to send -/

theorem length_takeWhile_le_of_imp {α : Type*} {p q : α → Bool} (h : ∀ a, p a = true → q a = true) :
    ∀ l : List α, (l.takeWhile p).length ≤ (l.takeWhile q).length
  | [] => le_rfl
  | a :: l => by
    cases hp : p a with
    | false =>
      rw [List.takeWhile_cons_of_neg (by simp [hp])]
      exact Nat.zero_le _
    | true =>
      rw [List.takeWhile_cons_of_pos hp, List.takeWhile_cons_of_pos (h a hp)]
      exact Nat.succ_le_succ (length_takeWhile_le_of_imp h l)

variable {queue : List ℕ} {avail : ℤ}

/-- A segment without an entry is taken off the queue. -/
theorem hasRoom_pop (hq : s.retxQueue = n :: queue) (hn : n ∉ s.segmentInfo) (h : HasRoom sch avail s) :
    HasRoom sch avail (popRetx queue s) := by
  have hqueued : queued s = queued (popRetx queue s) := by
    unfold queued
    rw [hq, List.filter_cons_of_neg (by simpa using hn)]
    rfl
  unfold HasRoom at h ⊢
  rw [hqueued] at h
  exact h

/-- A spent segment is taken off the queue, which uses up a place of the window. -/
theorem hasRoom_spent (hq : s.retxQueue = n :: queue) (hn : n ∈ s.segmentInfo) (hsp : Spent sch s n)
    (h : HasRoom sch avail s) : HasRoom sch (avail - 1) (countRetx n (popRetx queue s)) := by
  have hqueued : queued s = n :: queued (countRetx n (popRetx queue s)) := by
    unfold queued
    rw [hq, List.filter_cons_of_pos (by simpa using hn)]
    rfl
  have hspent : ∀ m, Spent sch (countRetx n (popRetx queue s)) m → Spent sch s m := by
    rintro m ⟨⟨k, hk, hlt⟩, hb⟩
    by_cases hm : m = n
    · rw [hm]; exact hsp
    · exact ⟨⟨k, (AList.lookup_insert_ne hm).symm.trans hk, hlt⟩, hb⟩
  obtain ⟨hlen, hwit⟩ := h
  rw [hqueued, List.takeWhile_cons_of_pos (by simpa using hsp), List.length_cons] at hlen
  -- what is spent now was spent before
  have himp : ∀ m, decide (Spent sch (countRetx n (popRetx queue s)) m) = true → decide (Spent sch s m) = true := by
    intro m hm
    simp only [decide_eq_true_eq] at hm ⊢
    exact hspent m hm
  have hle := length_takeWhile_le_of_imp himp (queued (countRetx n (popRetx queue s)))
  constructor
  · omega
  · intro hf
    obtain ⟨m, hm, hns⟩ := hwit hf
    rw [hqueued] at hm
    rcases List.mem_cons.1 hm with rfl | hm
    · exact absurd hsp hns
    · exact ⟨m, hm, fun hs => hns (hspent m hs)⟩

/-! ## The loop -/

/-- What the iterations of `schedulePackets` keep: a pipeline that goes on and waits for nothing has
segments left to send, and room for one. -/
def Sending (sch : Scheme κ) (x : ℤ × Adaptive κ) : Prop :=
  Remembers x.2 ∧
    (x.2.isStopping = false → x.2.segmentInfo.active.Nonempty ∨ (¬ x.2.allReceived ∧ HasRoom sch x.1 x.2))

/-- Giving a segment up while a segment before it is active, or no other has an entry. -/
theorem busy_giveUp {reason : String} (hgo : s.isStopping = false)
    (h : OnlyEntry n s ∨ ∃ m ∈ s.segmentInfo.active, m < n) : Busy (giveUp n reason s) := by
  intro hgo'
  rcases giveUp_cases n reason s with ⟨-, heq⟩ | ⟨hno, heq⟩
  · rw [heq] at hgo'
    exact absurd_of_going hgo' (isStopping_onFailure (s := dropped n s) hgo)
  · obtain ⟨m, hm, hlt⟩ := h.resolve_left hno
    rw [heq, active_gaveUp]
    exact ⟨m, Finset.mem_filter.2 ⟨hm, hlt⟩⟩

/-- `handleFail` on a busy pipeline. -/
theorem busy_handleFail {reason : String} (hgo : s.isStopping = false) (h : s.segmentInfo.active.Nonempty)
    (hm : FailMeets (neverIdle sch) n s) : Busy (handleFail n reason s) := by
  rcases handleFail_cases n reason hgo with ⟨-, -, heq⟩ | ⟨-, heq⟩ | ⟨hf, heq⟩
  · rw [heq]; exact fun hgo' => absurd_of_going hgo' (isStopping_onFailure hgo)
  · rw [heq]; exact fun _ => h
  · rw [heq]; exact busy_giveUp hgo (hm hgo hf)

/-- An iteration with an empty queue: if no first Interest may be sent, nothing is left to request,
and then everything has been received. -/
theorem sending_sendNext {now : Time} (h : Sending sch (avail, s)) (hq : s.retxQueue = []) :
    Sending sch (avail - 1, sendNext sch now s) := by
  obtain ⟨hr, hroom⟩ := h
  have hloop := remembers_loop sch (neverIdle sch)
  rcases sendNext_cases sch now s with ⟨hc, heq⟩ | ⟨hgo, hb, hf, heq⟩
  · refine ⟨heq ▸ hloop.skip hr hq hc, ?_⟩
    intro hgo
    left
    simp only [heq] at hgo ⊢
    rcases hroom hgo with hact | ⟨hall, -, hwit⟩
    · exact hact
    -- the queue is empty, so no failure is waiting
    have hfail : s.hasFailure = false := by
      by_contra hf
      obtain ⟨m, hm, -⟩ := hwit (by simpa using hf)
      simp only [queued, hq] at hm; cases hm
    rcases hc with hst | hb | hf
    · exact absurd_of_going hgo hst
    · by_contra hact
      exact hall (allReceived_of_idle hr hgo (Finset.not_nonempty_iff_eq_empty.1 hact) hfail hb)
    · rw [hfail] at hf; cases hf
  · refine ⟨heq ▸ hloop.first now hr hq hgo hb hf, ?_⟩
    intro _
    left
    simp only [heq]
    rw [active_sendFirst (s := advance s) hr.1.nextNo_notMem]
    exact Finset.insert_nonempty _ _

/-- An iteration with a segment that has an entry: it becomes active, or it is given up, or it is
spent. -/
theorem sending_retransmission {now : Time} (h : Sending sch (avail, s)) (hq : s.retxQueue = n :: queue)
    (hn : n ∈ s.segmentInfo) (hm : IterMeets (neverIdle sch) sch (avail, s)) :
    Sending sch (avail - 1, sendInterest sch now n true (popRetx queue s)) := by
  obtain ⟨hr, hroom⟩ := h
  have hloop := remembers_loop sch (neverIdle sch)
  have hgo := hr.1.going_of_mem hn
  obtain ⟨hres, hfail⟩ := hm n queue hq hn
  rcases sendInterest_retransmission (s := popRetx queue s) sch now n hgo with ⟨hex, heq⟩ | ⟨hex, heq⟩
  · rw [heq]
    refine ⟨hloop.fail _ hr hq hn hex (hfail hex), ?_⟩
    intro hgo'
    -- the retries of `n` are used up: it is given up, or it is known to be after the content
    rcases hroom hgo with hact | ⟨hall, hroom⟩
    · exact .inl (busy_handleFail (s := countRetx n (popRetx queue s)) hgo hact (hfail hex) hgo')
    rcases handleFail_cases (s := countRetx n (popRetx queue s)) n (tooManyRetries sch n) hgo with
      ⟨-, -, heq⟩ | ⟨hb, heq⟩ | ⟨hf, heq⟩
    · simp only [heq] at hgo'
      exact absurd_of_going hgo' (isStopping_onFailure (s := countRetx n (popRetx queue s)) hgo)
    · rw [heq]
      exact .inr ⟨hall, hasRoom_spent hq hn ⟨hex, hb⟩ hroom⟩
    · simp only [heq] at hgo' ⊢
      exact .inl (busy_giveUp (s := countRetx n (popRetx queue s)) hgo (hfail hex hgo hf) hgo')
  · rw [heq]
    refine ⟨hloop.resend now hr hq hn hex (hres hex), ?_⟩
    intro _
    left
    rw [active_resend]
    exact Finset.insert_nonempty _ _

theorem sending_body (now : Time) {x : ℤ × Adaptive κ} (h : Sending sch x) (hm : IterMeets (neverIdle sch) sch x) :
    Sending sch ((scheduleLoop sch now).body x) := by
  obtain ⟨avail, s⟩ := x
  cases hq : s.retxQueue with
  | nil =>
    simp only [scheduleLoop, hq]
    exact sending_sendNext h hq
  | cons n queue =>
    simp only [scheduleLoop, hq]
    split
    · rename_i hn; exact sending_retransmission h hq hn hm
    · rename_i hn
      refine ⟨(remembers_loop sch (neverIdle sch)).pop h.1 hq hn, ?_⟩
      intro hgo
      rcases h.2 hgo with hact | ⟨hall, hroom⟩
      · exact .inl hact
      · exact .inr ⟨hall, hasRoom_pop hq hn hroom⟩

/-- When the loop ends there is no room left, so the pipeline waits for something. -/
theorem busy_schedulePackets {now : Time} (h : Remembers s) (hs : s.segmentInfo.active.Nonempty ∨ ¬ s.allReceived)
    (hm : ScheduleMeets (neverIdle sch) sch now s) : Busy (schedulePackets sch now s) := by
  have hstart : Sending sch (availableWindowSize sch s, s) := by
    refine ⟨h, ?_⟩
    intro _
    rcases hs with hact | hall
    · exact .inl hact
    · rcases hm.1 with hact | hroom
      · exact .inl hact
      · exact .inr ⟨hall, hroom⟩
  -- room at the end would mean a place left in the window
  have hend := Loop.run_inv (fun x _ hx hp => sending_body now hx hp) hstart hm.2
  intro hgo
  rcases hend.2 hgo with hact | ⟨-, hlen, -⟩
  · exact hact
  · have := scheduleLoop_ends sch now s
    omega

/-! ## Runs -/

/-- The invariant between events. -/
def Waits (s : Adaptive κ) : Prop := Remembers s ∧ Busy s

/-- Where `schedulePackets` is called. -/
def WaitsOrMisses (s : Adaptive κ) : Prop := Remembers s ∧ (s.segmentInfo.active.Nonempty ∨ ¬ s.allReceived)

/-- In a callback. -/
def WaitsAt (n : ℕ) (s : Adaptive κ) : Prop := RemembersAt n s ∧ s.segmentInfo.active.Nonempty

/-- In a callback once the FinalBlockId has been looked at. -/
def WaitsUnlessNew (n : ℕ) (s : Adaptive κ) : Prop :=
  RemembersAt n s ∧ (IsRetxReceived n s → s.segmentInfo.active.Nonempty)

theorem busy_of_stopping (h : s.isStopping = true) : Busy s := fun hgo => absurd_of_going hgo h

/-- The last segment becomes known. -/
theorem waitsUnlessNew_learnt {last : ℕ} (h : WaitsAt n s) (hf : s.hasFinalBlockId = false)
    (hc : (neverIdle sch).learn s n last) (hlt : s.hasFailure = true → last < s.failedSegNo) :
    WaitsUnlessNew n (learnt last s) := by
  rcases hc with ⟨hfl, hle⟩ | ⟨hfail, hdup⟩
  · have := hlt hfl
    omega
  refine ⟨⟨called_learnt h.1.1 _, kept_learnt h.1.2 hf hfail⟩, ?_⟩
  rintro ⟨info, hl, hst⟩
  rw [lookup_learnt] at hl
  split at hl
  · rename_i hle
    obtain ⟨m, hm, hml⟩ := hdup ⟨info, hl, hst⟩ hle
    rw [active_learnt]
    exact ⟨m, Finset.mem_filter.2 ⟨hm, hml⟩⟩
  · cases hl

theorem active_lost {now : Time} {k : ℕ} : (lost sch now k s).segmentInfo.active = s.segmentInfo.active := by
  obtain ⟨r, c, l, heq⟩ := lost_frame sch now k s
  rw [heq]

theorem waits_preserves (hsch : sch.isCubic = false) :
    Preserves sch (neverIdle sch) Waits WaitsOrMisses (fun n s => WaitsAt n s) (fun n s => WaitsUnlessNew n s) where
  going h := h.1.1.going
  idle h := ⟨⟨h.1.1.keyed, fun _ => h.1.2⟩, fun _ => h.2⟩
  stopped id h hst := ⟨⟨keyed_answered h.1.1 id, fun hgo => absurd_of_going hgo hst⟩, busy_of_stopping hst⟩
  cancel h hgo := ⟨(remembers_preserves sch).cancel h.1 hgo, busy_of_stopping (isStopping_cancel _)⟩
  answered h hgo hn := ⟨(remembers_preserves sch).answered h.1 hgo hn, h.2 hgo⟩
  requeue now h _ := by
    refine ⟨(remembers_preserves sch).requeue now h.1 trivial, .inl ?_⟩
    rw [active_lost, active_requeue]
    exact Finset.insert_nonempty _ _
  expired now h hgo hnd hne hmem := by
    refine ⟨(remembers_preserves sch).expired now h.1 hgo hnd hne hmem, .inl ?_⟩
    rw [active_lost]
    exact active_requeueAll_nonempty hne
  fail reason h hm := ⟨(remembers_preserves sch).fail reason h.1 fun _ _ => trivial,
    busy_handleFail h.1.1.going h.2 hm⟩
  learnStop h hf h1 h2 := ⟨(remembers_preserves sch).learnStop h.1 hf h1 h2,
    busy_of_stopping (isStopping_onFailure (s := learnLast _ _) h.1.1.going)⟩
  plain h := ⟨h.1, fun _ => h.2⟩
  learn h hf hc hlt := waitsUnlessNew_learnt h hf hc hlt
  ignored h hc _ := by rw [hsch] at hc; cases hc
  duplicate h hdup _ := by
    refine ⟨(remembers_preserves sch).duplicate h.1 hdup trivial, ?_⟩
    intro _
    rw [active_duplicate hdup]
    exact h.2 hdup
  complete now h hdup hc _ hall := ⟨(remembers_preserves sch).complete now h.1 hdup hc trivial hall,
    busy_of_stopping (isStopping_succeed _)⟩
  accept now h hdup hc _ hall := ⟨(remembers_preserves sch).accept now h.1 hdup hc trivial hall, .inr hall⟩
  schedule now h hm := ⟨(remembers_loop sch (neverIdle sch)).loop h.1 hm, busy_schedulePackets h.1 h.2 hm⟩

/-- A run starts with an Interest unless the discovered segment 0 is the last one. -/
theorem waits_run (sch : Scheme κ) (now : Time) (control : κ) (data : Data)
    (hdata : ¬ (data.segmentNo = 0 ∧ data.finalBlockId = some 0)) : Waits (run sch now control data) := by
  refine ⟨remembers_run sch now control data, ?_⟩
  intro _
  rcases run_cases sch now control data with ⟨⟨hf, hlt⟩, -⟩ | ⟨-, heq⟩
  · exfalso
    obtain ⟨last, hl⟩ := Option.isSome_iff_exists.1 (show data.finalBlockId.isSome = true from hf)
    have hlt : last < if 0 = data.segmentNo then 1 else 0 := by
      simpa [start, init, PipelineInterests.setup, nextNo, hl] using hlt
    split at hlt
    · rename_i h0
      exact hdata ⟨h0.symm, by rw [hl]; congr 1; omega⟩
    · omega
  · rw [heq, active_sendFirst (s := advance (start control data)) (keyed_start control data).nextNo_notMem]
    exact Finset.insert_nonempty _ _

/-- In every run of `PipelineInterestsAimd` or `PipelineInterestsTcpBic`, whatever the congestion control, that does
not start with the only segment and whose steps all meet `neverIdle`, the pipeline is stopping or waits for a segment
in every state. -/
theorem busy_of_neverIdle (sch : Scheme κ) (hsch : sch.isCubic = false) (now : Time) (control : κ) (data : Data)
    (es : List Event) (hdata : ¬ (data.segmentNo = 0 ∧ data.finalBlockId = some 0))
    (hruns : (machine sch).Runs (run sch now control data) es)
    (hidle : (machine sch).Each (Meets (neverIdle sch) sch) (run sch now control data) es) :
    (machine sch).Always Busy (run sch now control data) es := by
  have hinv : (machine sch).Always Waits (run sch now control data) es :=
    Machine.always_of_inv (fun _ e hi he hm => (waits_preserves hsch).step hi he hm)
      (waits_run sch now control data hdata) hruns hidle
  exact hinv.imp fun _ h => h.2

namespace Aimd

/-- A run with a spurious failure, a retransmission and a duplicate. -/
theorem busy_of_neverIdle_spurious :
    (machine (pipeline 3)).Always Busy (started 3 (packet 0 none))
      [.data 10 1 (packet 1 none), .checkRto 5000 [5, 4, 3, 2], .nack 5010 6 .noRoute,
        .data 5020 7 (packet 4 (some 4)), .data 5030 8 (packet 3 none), .cancel] :=
  busy_of_neverIdle (pipeline 3) rfl 0 _ (packet 0 none) _ (by decide) (by decide +kernel) (by decide +kernel)

/-- The content has one segment, which is the discovered one: nothing is sent, and the pipeline does
not stop. -/
theorem single_segment_idles :
    (machine (pipeline 3)).Runs (started 3 (packet 0 (some 0))) [] ∧
      ¬ (machine (pipeline 3)).Always Busy (started 3 (packet 0 (some 0))) [] := by
  refine ⟨trivial, fun h => ?_⟩
  have hbusy := Machine.Always.head h
  revert hbusy
  decide +kernel

end Aimd

end NdnTools.Chunks.Adaptive
