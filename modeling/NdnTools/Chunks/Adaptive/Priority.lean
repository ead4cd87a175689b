/-
What one call of `schedulePackets` sends: no more than the window has places for, retransmissions first,
and then new segments in ascending order. The loop may fail the pipeline in between, which leaves all of
this as it is: a failure only takes Interests back and stops the sending.
-/
import NdnTools.Chunks.Adaptive.History
import NdnTools.Chunks.Adaptive.Schedule
import NdnTools.Chunks.Adaptive.Aimd
import Mathlib.Algebra.Order.Floor.Ring
import Mathlib.Data.Rat.Floor

namespace NdnTools.Chunks.Adaptive

variable {κ : Type} {sch : Scheme κ} {now : Time} {s : Adaptive κ}

/-! ## The places of the window -/

/-- `static_cast<int>(m_cwnd) - m_nInFlight`: the difference is taken in `uint64_t` and its low half is
the `int`. -/
def intWindowSize (cwnd : ℤ) (nInFlight : ℕ) : ℤ :=
  ((BitVec.ofInt 64 cwnd - BitVec.ofNat 64 nInFlight).setWidth 32).toInt

/-- A difference that an `int` can hold comes out right. -/
theorem intWindowSize_eq {cwnd : ℤ} {nInFlight : ℕ} (hcwnd : cwnd < 2 ^ 31) (hnif : nInFlight < 2 ^ 31)
    (hlow : (nInFlight : ℤ) ≤ cwnd + 2 ^ 31) : intWindowSize cwnd nInFlight = cwnd - nInFlight := by
  have hnat : ((BitVec.ofInt 64 cwnd - BitVec.ofNat 64 nInFlight).toNat : ℤ) = (cwnd - nInFlight) % 2 ^ 64 := by
    rw [BitVec.toNat_sub, BitVec.toNat_ofInt, BitVec.toNat_ofNat]
    omega
  unfold intWindowSize
  rw [BitVec.toInt_setWidth, hnat]
  have hmod : ((cwnd - nInFlight) % 2 ^ 64).bmod (2 ^ 32) = (cwnd - nInFlight).bmod (2 ^ 32) := by
    rw [Int.bmod_def, Int.bmod_def]
    omega
  rw [hmod]
  exact Int.bmod_eq_of_le (by omega) (by omega)

/-- The window of a number counts as its integer part does. -/
theorem toInt_sub_le (q : ℚ) (n : ℕ) : Aimd.toInt q - n ≤ max 0 (⌊q⌋ - n) := by
  unfold Aimd.toInt
  split
  · exact le_max_right _ _
  · rename_i hneg
    have hceil : q.ceil ≤ 0 := Rat.ceil_le_iff.2 (by exact_mod_cast (not_le.1 hneg).le)
    exact le_max_of_le_left (by omega)

/-! ## The attempts of a call -/

/-- The new segments among the attempts. -/
def newNos (h : List Attempt) : List ℕ := (h.filter fun a => !a.isRetry).map Attempt.segNo

/-- The segments up for retransmission. -/
def retriedNos (h : List Attempt) : List ℕ := (h.filter Attempt.isRetry).map Attempt.segNo

/-- The Interests that are sent, with the ids that a Face gives them whose next id is `nextId`. -/
def sentInterests (nextId : ℕ) (h : List Attempt) : List (ℕ × ℕ) :=
  (((h.filter Attempt.isSent).map Attempt.segNo).zipIdx nextId).map Prod.swap

@[simp] theorem newNos_append (h h' : List Attempt) : newNos (h ++ h') = newNos h ++ newNos h' := by
  simp [newNos]

@[simp] theorem retriedNos_append (h h' : List Attempt) : retriedNos (h ++ h') = retriedNos h ++ retriedNos h' := by
  simp [retriedNos]

theorem sentInterests_append (nextId : ℕ) (h h' : List Attempt) :
    sentInterests nextId (h ++ h') = sentInterests nextId h ++ sentInterests (nextId + h.countP Attempt.isSent) h' := by
  simp [sentInterests, List.zipIdx_append, List.countP_eq_length_filter]

theorem countP_append_sent (h : List Attempt) {a : Attempt} (ha : a.isSent = true) :
    (h ++ [a]).countP Attempt.isSent = h.countP Attempt.isSent + 1 := by
  rw [List.countP_append, List.countP_singleton, if_pos ha]

theorem countP_append_unsent (h : List Attempt) {a : Attempt} (ha : a.isSent = false) :
    (h ++ [a]).countP Attempt.isSent = h.countP Attempt.isSent := by
  rw [List.countP_append, List.countP_singleton, if_neg (by simp [ha]), Nat.add_zero]

/-- An invariant of the loop and of the attempts so far holds when `schedulePackets` ends. -/
theorem attempts_rule (sch : Scheme κ) (now : Time) (s : Adaptive κ) {I : ℤ × Adaptive κ → List Attempt → Prop}
    (hbody : ∀ x h, 0 < x.1 → I x h → I ((scheduleLoop sch now).body x) (h ++ attempt sch now x.2))
    (hs : I (availableWindowSize sch s, s) []) :
    I ((scheduleLoop sch now).run (scheduleFuel sch s) (availableWindowSize sch s, s)) (attempts sch now s) :=
  Loop.run_log_inv (h := []) (fun x h hg hx => hbody x h (of_decide_eq_true hg) hx) hs

/-- The same for an invariant of the pipeline alone. -/
theorem LogPreserves.attempts {I : Adaptive κ → List Attempt → Prop} (h : LogPreserves sch I) (hs : I s []) :
    I (Adaptive.schedulePackets sch now s) (Adaptive.attempts sch now s) :=
  attempts_rule sch now s (I := fun x hist => I x.2 hist) (fun x _ _ hx => h.body x hx) hs

/-! ## The window -/

/-- The places that are left of `avail`, and what is in flight, after the attempts `h`. -/
structure Fits (s : Adaptive κ) (avail : ℤ) (x : ℤ × Adaptive κ) (h : List Attempt) : Prop where
  places : h.countP Attempt.isSent + x.1 ≤ avail
  started : 0 ≤ x.1 ∨ h = []
  inFlight : x.2.nInFlight ≤ s.nInFlight + h.countP Attempt.isSent

theorem Fits.body {avail : ℤ} (x : ℤ × Adaptive κ) (h : List Attempt) (hpos : 0 < x.1) (hf : Fits s avail x h) :
    Fits s avail ((scheduleLoop sch now).body x) (h ++ attempt sch now x.2) := by
  obtain ⟨k, t⟩ := x
  obtain ⟨hplaces, -, hin⟩ := hf
  dsimp only at hpos hplaces hin ⊢
  rcases body_cases sch now k t with ⟨n, queue, -, -, ha, hb⟩ | ⟨n, queue, -, -, -, ha, hb⟩ |
      ⟨n, queue, -, -, -, -, ha, hb⟩ | ⟨n, queue, -, -, -, -, ha, hb⟩ | ⟨-, -, ha, hb⟩ | ⟨-, -, -, -, ha, hb⟩
  · rw [ha, hb, List.append_nil]
    exact ⟨hplaces, .inl hpos.le, hin⟩
  · rw [ha, hb, List.append_nil]
    exact ⟨by dsimp only; omega, .inl (by dsimp only; omega), hin⟩
  · rw [ha, hb]
    have hcount := countP_append_sent h (a := ⟨now, n, .retransmission⟩) rfl
    refine ⟨by rw [hcount]; push_cast; omega, .inl (by dsimp only; omega), ?_⟩
    rw [hcount]
    exact Nat.succ_le_succ hin
  · rw [ha, hb]
    have hcount := countP_append_unsent h (a := ⟨now, n, .exhausted⟩) rfl
    obtain ⟨_, _, _, _, _, _, _, _, _, heq, -, -, hle⟩ :=
      handleFail_frame n (tooManyRetries sch n) (countRetx n (popRetx queue t))
    refine ⟨by rw [hcount]; dsimp only; omega, .inl (by dsimp only; omega), ?_⟩
    rw [hcount, heq]
    exact hle.trans hin
  · rw [ha, hb, List.append_nil]
    exact ⟨by dsimp only; omega, .inl (by dsimp only; omega), hin⟩
  · rw [ha, hb]
    have hcount := countP_append_sent h (a := ⟨now, nextNo t, .first⟩) rfl
    refine ⟨by rw [hcount]; push_cast; omega, .inl (by dsimp only; omega), ?_⟩
    rw [hcount]
    exact Nat.succ_le_succ hin

/-- A call sends no more than the window has places for. -/
theorem attempts_fit (sch : Scheme κ) (now : Time) (s : Adaptive κ) :
    ((attempts sch now s).countP Attempt.isSent : ℤ) ≤ max 0 (availableWindowSize sch s) ∧
      (schedulePackets sch now s).nInFlight ≤ s.nInFlight + (attempts sch now s).countP Attempt.isSent := by
  obtain ⟨hplaces, hstarted, hin⟩ := attempts_rule sch now s
    (I := Fits s (availableWindowSize sch s)) Fits.body ⟨by simp, .inr rfl, le_rfl⟩
  refine ⟨?_, hin⟩
  rcases hstarted with hpos | hnil
  · exact le_max_of_le_right (by omega)
  · rw [hnil]
    exact le_max_left _ _

/-! ## Retransmissions first -/

/-- The queue after the attempts `h`: retransmissions come from it, in its order, and a new segment comes
after all of them, when it is empty. -/
structure Queued (s : Adaptive κ) (queue : List ℕ) (h : List Attempt) : Prop where
  taken : ∃ popped, s.retxQueue = popped ++ queue ∧ (retriedNos h).Sublist popped
  priority : newNos h ≠ [] → queue = []
  ordered : h = h.filter Attempt.isRetry ++ h.filter fun a => !a.isRetry

theorem Queued.retry {n : ℕ} {queue : List ℕ} {h : List Attempt} (hq : Queued s (n :: queue) h)
    {a : Attempt} (hn : a.segNo = n) (hretry : a.isRetry = true) : Queued s queue (h ++ [a]) := by
  obtain ⟨⟨popped, heq, hsub⟩, hprio, hord⟩ := hq
  -- no new segment has been sent yet
  have hnone : newNos h = [] := by
    by_contra hne
    cases hprio hne
  have hfilter : (h.filter fun a => !a.isRetry) = [] := List.map_eq_nil_iff.1 hnone
  rw [hfilter, List.append_nil] at hord
  refine ⟨⟨popped ++ [n], by rw [heq]; simp, ?_⟩, fun hne => absurd ?_ hne, ?_⟩
  · rw [retriedNos_append]
    refine hsub.append ?_
    simp [retriedNos, hretry, hn]
  · rw [newNos_append, hnone]
    simp [newNos, hretry]
  · simp [List.filter_append, hfilter, hretry, ← hord]

theorem Queued.pop {n : ℕ} {queue : List ℕ} {h : List Attempt} (hq : Queued s (n :: queue) h) : Queued s queue h := by
  obtain ⟨⟨popped, heq, hsub⟩, hprio, hord⟩ := hq
  refine ⟨⟨popped ++ [n], by rw [heq]; simp, hsub.trans (List.sublist_append_left _ _)⟩, fun hne => ?_, hord⟩
  cases hprio hne

theorem Queued.first {h : List Attempt} (hq : Queued s [] h) {a : Attempt} (hretry : a.isRetry = false) :
    Queued s [] (h ++ [a]) := by
  obtain ⟨⟨popped, heq, hsub⟩, -, hord⟩ := hq
  refine ⟨⟨popped, heq, ?_⟩, fun _ => rfl, ?_⟩
  · rw [retriedNos_append]
    simpa [retriedNos, hretry] using hsub
  · calc h ++ [a] = (h.filter Attempt.isRetry ++ h.filter fun a => !a.isRetry) ++ [a] := by rw [← hord]
      _ = (h ++ [a]).filter Attempt.isRetry ++ (h ++ [a]).filter fun a => !a.isRetry := by simp [hretry]

theorem queued_log (sch : Scheme κ) : LogPreserves sch fun t h => Queued s t.retxQueue h where
  pop hq heq _ := by
    rw [heq] at hq
    exact hq.pop
  resend now hq heq _ _ _ := by
    rw [heq] at hq
    exact hq.retry rfl rfl
  fail now reason hq heq _ _ _ := by
    rw [heq] at hq
    rw [retxQueue_handleFail]
    exact hq.retry rfl rfl
  skip hq _ _ := hq
  first := by
    intro t h now hq heq _ _ _
    rw [heq] at hq
    have hfirst := hq.first (a := ⟨now, nextNo t, .first⟩) rfl
    rw [← heq] at hfirst
    exact hfirst

theorem attempts_queued (sch : Scheme κ) (now : Time) (s : Adaptive κ) :
    Queued s (schedulePackets sch now s).retxQueue (attempts sch now s) :=
  (queued_log sch).attempts ⟨⟨[], rfl, List.Sublist.refl _⟩, fun hne => absurd rfl hne, rfl⟩

/-! ## What the Face is asked -/

/-- The Interests that are pending were so before the attempts `h` or were expressed by them. -/
structure Asked (s t : Adaptive κ) (h : List Attempt) : Prop where
  nextId : t.face.nextId = s.face.nextId + h.countP Attempt.isSent
  pending : ∀ p ∈ t.face.pending, p ∈ s.face.pending ∨ p ∈ sentInterests s.face.nextId h

/-- Taking Interests back expresses none. -/
theorem Asked.less {t r : Adaptive κ} {h : List Attempt} (ha : Asked s t h) (hid : r.face.nextId = t.face.nextId)
    (hsub : r.face.pending ⊆ t.face.pending) : Asked s r h :=
  ⟨hid.trans ha.nextId, fun p hp => ha.pending p (hsub hp)⟩

theorem Asked.sent {t r : Adaptive κ} {h : List Attempt} (ha : Asked s t h) {a : Attempt} (hsent : a.isSent = true)
    {f : Face} (hid : f.nextId = t.face.nextId) (hsub : f.pending ⊆ t.face.pending)
    (hr : r.face = f.expressInterest a.segNo) : Asked s r (h ++ [a]) := by
  have hnew : sentInterests s.face.nextId (h ++ [a]) = sentInterests s.face.nextId h ++ [(t.face.nextId, a.segNo)] := by
    rw [sentInterests_append, ← ha.nextId]
    simp [sentInterests, hsent]
  constructor
  · rw [hr, countP_append_sent h hsent, ← Nat.add_assoc, ← ha.nextId, ← hid]
    rfl
  · intro p hp
    rw [hr, Face.mem_expressInterest, hid] at hp
    rw [hnew, List.mem_append, List.mem_singleton]
    rcases hp with hp | hp
    · rcases ha.pending p (hsub hp) with hs | hh
      · exact .inl hs
      · exact .inr (.inl hh)
    · exact .inr (.inr hp)

theorem Asked.unsent {t : Adaptive κ} {h : List Attempt} (ha : Asked s t h) {a : Attempt} (hunsent : a.isSent = false) :
    Asked s t (h ++ [a]) := by
  constructor
  · rw [countP_append_unsent h hunsent]
    exact ha.nextId
  · intro p hp
    rw [sentInterests_append]
    rcases ha.pending p hp with hs | hh
    · exact .inl hs
    · exact .inr (List.mem_append_left _ hh)

theorem asked_log (sch : Scheme κ) (s : Adaptive κ) : LogPreserves sch (Asked s) where
  pop ha _ _ := ha.less rfl fun _ hp => hp
  resend := by
    intro t h n queue now ha _ _ _ _
    exact ha.sent (a := ⟨now, n, .retransmission⟩)
      (f := t.face.removePendingInterest (t.segmentInfo.infoOf n).interestId) rfl rfl
      (fun _ hp => (Face.mem_removePendingInterest.1 hp).1) rfl
  fail := by
    intro t h n queue now reason ha _ _ _ _
    obtain ⟨_, _, _, _, _, _, _, _, _, heq, hid, hsub, -⟩ := handleFail_frame n reason (countRetx n (popRetx queue t))
    have hless := ha.less (r := handleFail n reason (countRetx n (popRetx queue t))) (by rw [heq]; exact hid)
      (by rw [heq]; exact hsub)
    exact hless.unsent rfl
  skip ha _ _ := ha.less rfl fun _ hp => hp
  first now ha _ _ _ _ := ha.sent (a := ⟨now, _, .first⟩) rfl rfl (fun _ hp => hp) rfl

theorem attempts_asked (sch : Scheme κ) (now : Time) (s : Adaptive κ) :
    Asked s (schedulePackets sch now s) (attempts sch now s) :=
  (asked_log sch s).attempts ⟨rfl, fun _ hp => .inl hp⟩

/-! ## New segments in order -/

/-- The numbers of the new segments among the attempts `h`. -/
structure Numbered (s t : Adaptive κ) (h : List Attempt) : Prop where
  excluded : t.excludedSegmentNo = s.excludedSegmentNo
  final : t.hasFinalBlockId = s.hasFinalBlockId ∧ t.lastSegmentNo = s.lastSegmentNo
  next : s.nextSegmentNo ≤ t.nextSegmentNo
  ascending : (newNos h).Pairwise (· < ·)
  bounds : ∀ n ∈ newNos h, s.nextSegmentNo ≤ n ∧ n < t.nextSegmentNo ∧ n ≠ s.excludedSegmentNo ∧ ¬ s.beyond n

/-- A retransmission gives no number. -/
theorem Numbered.retry {t r : Adaptive κ} {h : List Attempt} (hn : Numbered s t h) {a : Attempt}
    (hretry : a.isRetry = true) (hnext : r.nextSegmentNo = t.nextSegmentNo)
    (hexcl : r.excludedSegmentNo = t.excludedSegmentNo)
    (hfinal : r.hasFinalBlockId = t.hasFinalBlockId ∧ r.lastSegmentNo = t.lastSegmentNo) :
    Numbered s r (h ++ [a]) := by
  have hsame : newNos (h ++ [a]) = newNos h := by simp [newNos, hretry]
  refine ⟨hexcl.trans hn.excluded, ⟨hfinal.1.trans hn.final.1, hfinal.2.trans hn.final.2⟩, hnext ▸ hn.next, ?_, ?_⟩
  · rw [hsame]
    exact hn.ascending
  · rw [hsame, hnext]
    exact hn.bounds

theorem Numbered.advance {t : Adaptive κ} {h : List Attempt} (hn : Numbered s t h) : Numbered s (advance t) h := by
  have hle : t.nextSegmentNo ≤ (Adaptive.advance t).nextSegmentNo := (nextNo_spec t).2.1.trans (Nat.le_succ _)
  refine ⟨hn.excluded, hn.final, hn.next.trans hle, hn.ascending, fun n hmem => ?_⟩
  obtain ⟨hlow, hhigh, hexcl, hbey⟩ := hn.bounds n hmem
  exact ⟨hlow, hhigh.trans_le hle, hexcl, hbey⟩

theorem Numbered.first {t : Adaptive κ} {h : List Attempt} (hn : Numbered s t h) {a : Attempt}
    (hretry : a.isRetry = false) (hno : a.segNo = nextNo t) (hbey : ¬ t.beyond (nextNo t)) :
    Numbered s (Adaptive.advance t) (h ++ [a]) := by
  obtain ⟨hexcl, hle, -⟩ := nextNo_spec t
  have hnew : newNos (h ++ [a]) = newNos h ++ [nextNo t] := by simp [newNos, hretry, hno]
  refine { hn.advance with ascending := ?_, bounds := ?_ }
  · rw [hnew, List.pairwise_append]
    refine ⟨hn.ascending, List.pairwise_singleton _ _, fun n hmem m hm => ?_⟩
    rw [List.mem_singleton.1 hm]
    exact (hn.bounds n hmem).2.1.trans_le hle
  · intro n hmem
    rw [hnew, List.mem_append, List.mem_singleton] at hmem
    rcases hmem with hmem | rfl
    · exact hn.advance.bounds n hmem
    · refine ⟨hn.next.trans hle, Nat.lt_succ_self _, ?_, ?_⟩
      · rw [← hn.excluded]
        exact hexcl
      · unfold PipelineInterests.beyond at hbey ⊢
        rw [← hn.final.1, ← hn.final.2]
        exact hbey

theorem numbered_log (sch : Scheme κ) (s : Adaptive κ) : LogPreserves sch (Numbered s) where
  pop hn _ _ := ⟨hn.excluded, hn.final, hn.next, hn.ascending, hn.bounds⟩
  resend now hn _ _ _ _ := hn.retry rfl rfl rfl ⟨rfl, rfl⟩
  fail := by
    intro t h n queue now reason hn _ _ _ _
    obtain ⟨_, _, _, _, _, _, _, _, _, heq, -⟩ := handleFail_frame n reason (countRetx n (popRetx queue t))
    rw [heq]
    exact hn.retry rfl rfl rfl ⟨rfl, rfl⟩
  skip hn _ _ := hn.advance
  first now hn _ _ hbey _ := by
    have hfirst := hn.first (a := ⟨now, _, .first⟩) rfl rfl hbey
    exact ⟨hfirst.excluded, hfirst.final, hfirst.next, hfirst.ascending, hfirst.bounds⟩

theorem attempts_numbered (sch : Scheme κ) (now : Time) (s : Adaptive κ) :
    Numbered s (schedulePackets sch now s) (attempts sch now s) :=
  (numbered_log sch s).attempts ⟨rfl, ⟨rfl, rfl⟩, le_rfl, List.Pairwise.nil, fun n hn => by cases hn⟩

/-- The next number, with the excluded one counted as long as it lies ahead. -/
def numbersUsed (s : Adaptive κ) : ℕ := s.nextSegmentNo + if s.nextSegmentNo ≤ s.excludedSegmentNo then 1 else 0

theorem numbersUsed_advance (s : Adaptive κ) : numbersUsed (advance s) ≤ numbersUsed s + 1 := by
  unfold numbersUsed advance nextNo
  dsimp only
  split_ifs <;> omega

theorem numbersUsed_congr {t r : Adaptive κ} (hnext : r.nextSegmentNo = t.nextSegmentNo)
    (hexcl : r.excludedSegmentNo = t.excludedSegmentNo) : numbersUsed r = numbersUsed t := by
  unfold numbersUsed
  rw [hnext, hexcl]

/-- An iteration that uses up a number uses up a place. -/
theorem numbersUsed_body (x : ℤ × Adaptive κ) (hpos : 0 < x.1) :
    (numbersUsed ((scheduleLoop sch now).body x).2 + max 0 ((scheduleLoop sch now).body x).1 : ℤ) ≤
      numbersUsed x.2 + max 0 x.1 := by
  obtain ⟨k, t⟩ := x
  dsimp only at hpos ⊢
  rcases body_cases sch now k t with ⟨n, queue, -, -, -, hb⟩ | ⟨n, queue, -, -, -, -, hb⟩ |
      ⟨n, queue, -, -, -, -, -, hb⟩ | ⟨n, queue, -, -, -, -, -, hb⟩ | ⟨-, -, -, hb⟩ | ⟨-, -, -, -, -, hb⟩
  · rw [hb]
    exact le_rfl
  · have hsame : numbersUsed (popRetx queue t) = numbersUsed t := rfl
    rw [hb]
    dsimp only
    omega
  · have hsame : numbersUsed (resend sch now n (countRetx n (popRetx queue t))) = numbersUsed t := rfl
    rw [hb]
    dsimp only
    omega
  · obtain ⟨_, _, _, _, _, _, _, _, _, heq, -⟩ :=
      handleFail_frame n (tooManyRetries sch n) (countRetx n (popRetx queue t))
    have hsame : numbersUsed (handleFail n (tooManyRetries sch n) (countRetx n (popRetx queue t))) = numbersUsed t :=
      numbersUsed_congr (by rw [heq]; rfl) (by rw [heq]; rfl)
    rw [hb]
    dsimp only
    omega
  · have hstep := numbersUsed_advance t
    rw [hb]
    dsimp only
    omega
  · have hsame : numbersUsed (sendFirst sch now (nextNo t) (advance t)) = numbersUsed (advance t) := rfl
    have hstep := numbersUsed_advance t
    rw [hb]
    dsimp only
    omega

/-- A call uses up at most one number for each place and the excluded one, so no number wraps unless the
next one is that close to the end. -/
theorem nextSegmentNo_schedulePackets_le (sch : Scheme κ) (now : Time) (s : Adaptive κ) :
    ((schedulePackets sch now s).nextSegmentNo : ℤ) ≤ s.nextSegmentNo + max 0 (availableWindowSize sch s) + 1 := by
  have hend := attempts_rule sch now s
    (I := fun x _ => (numbersUsed x.2 + max 0 x.1 : ℤ) ≤ numbersUsed s + max 0 (availableWindowSize sch s))
    (fun x _ hpos hle => (numbersUsed_body x hpos).trans hle) le_rfl
  have hlow : (schedulePackets sch now s).nextSegmentNo ≤ numbersUsed (schedulePackets sch now s) :=
    Nat.le_add_right _ _
  have hhigh : numbersUsed s ≤ s.nextSegmentNo + 1 := by
    unfold numbersUsed
    split <;> omega
  unfold schedulePackets at hlow ⊢
  omega

/-! ## Along a run -/

/-- Each new segment has a greater number than all that were sent before, retransmissions included. -/
def Fresh (h : List Attempt) : Prop := h.Pairwise fun b a => a.isRetry = false → b.segNo < a.segNo

structure Given (s : Adaptive κ) (h : List Attempt) : Prop where
  keyed : Keyed s
  given : ∀ a ∈ h, a.segNo < s.nextSegmentNo
  fresh : Fresh h

theorem Given.retry {t : Adaptive κ} {h : List Attempt} (hg : Given s h) (hk : Keyed t) {a : Attempt}
    (hretry : a.isRetry = true) (hno : a.segNo < s.nextSegmentNo) (hnext : t.nextSegmentNo = s.nextSegmentNo) :
    Given t (h ++ [a]) := by
  refine ⟨hk, fun b hb => ?_, ?_⟩
  · rw [hnext]
    rcases List.mem_append.1 hb with hb | hb
    · exact hg.given b hb
    · rw [List.mem_singleton.1 hb]
      exact hno
  · refine List.pairwise_append.2 ⟨hg.fresh, List.pairwise_singleton _ _, fun b _ c hc hnew => ?_⟩
    rw [List.mem_singleton.1 hc, hretry] at hnew
    cases hnew

theorem given_log (sch : Scheme κ) : LogPreserves sch Given where
  pop hg _ _ := ⟨keyed_popRetx hg.keyed, hg.given, hg.fresh⟩
  resend := by
    intro t h n queue now hg hq hn _ hex
    have hk := (keyed_loop sch {}).resend now hg.keyed hq hn hex trivial
    exact hg.retry hk rfl (hg.keyed.mem_requested hn).1 rfl
  fail := by
    intro t h n queue now reason hg hq hn hgo hex
    have hk := (keyed_loop sch {}).fail reason hg.keyed hq hn hex fun _ _ => trivial
    have hsame := sameSending_handleFail n reason (countRetx n (popRetx queue t))
    exact hg.retry hk rfl (hg.keyed.mem_requested hn).1 hsame.nextSegmentNo
  skip hg _ _ := by
    refine ⟨keyed_advance hg.keyed, fun a ha => ?_, hg.fresh⟩
    exact (hg.given a ha).trans_le ((nextNo_spec _).2.1.trans (Nat.le_succ _))
  first := by
    intro t h now hg _ hgo _ _
    have hle := (nextNo_spec t).2.1
    refine ⟨keyed_sendFirst hg.keyed hgo, fun a ha => ?_, ?_⟩
    · rcases List.mem_append.1 ha with ha | ha
      · exact ((hg.given a ha).trans_le hle).trans (Nat.lt_succ_self _)
      · rw [List.mem_singleton.1 ha]
        exact Nat.lt_succ_self _
    · refine List.pairwise_append.2 ⟨hg.fresh, List.pairwise_singleton _ _, fun b hb c hc _ => ?_⟩
      rw [List.mem_singleton.1 hc]
      exact (hg.given b hb).trans_le hle

theorem Given.step {h : List Attempt} (hg : Given s h) {e : Event} (he : enabled s e) :
    Given (step sch s e) (h ++ attemptsOf sch s e) := by
  have hkeyed : Keyed (handle sch s e).state := closed_rule (keyed_preserves (closed sch) {}) hg.keyed he
  have hnext : (handle sch s e).state.nextSegmentNo = s.nextSegmentNo := (sameSending_handle he).nextSegmentNo
  exact (given_log sch).step ⟨hkeyed, fun a ha => hnext ▸ hg.given a ha, hg.fresh⟩

theorem history_fresh (sch : Scheme κ) (now : Time) (control : κ) (data : Data) (es : List Event)
    (hr : (machine sch).Runs (run sch now control data) es) : Fresh (history sch now control data es) := by
  have hstart : Given (start control data) [] :=
    ⟨keyed_start control data, by simp, List.Pairwise.nil⟩
  have hend := Machine.exec_log_inv (m := machine sch) (I := Given) (fun s h e hg he => hg.step he)
    ((given_log sch).run now hstart) hr
  exact hend.fresh

/-! ## `PipelineInterestsAimd` -/

/-- One call of `schedulePackets` with the window `cwnd`: it ends, keeps to the window and the queue comes first. -/
structure WithinWindow (sch : Scheme κ) (now : Time) (cwnd : ℚ) (s : Adaptive κ) : Prop where
  intWindow : intWindowSize (sch.cwnd s.control) s.nInFlight = availableWindowSize sch s
  ends : (scheduleLoop sch now).guard
    ((scheduleLoop sch now).run (scheduleFuel sch s) (availableWindowSize sch s, s)) = false
  sent : ((attempts sch now s).countP Attempt.isSent : ℤ) ≤ max 0 (⌊cwnd⌋ - s.nInFlight)
  inFlight : ((schedulePackets sch now s).nInFlight : ℤ) ≤ max (s.nInFlight : ℤ) ⌊cwnd⌋
  asked : Asked s (schedulePackets sch now s) (attempts sch now s)
  queued : Queued s (schedulePackets sch now s).retxQueue (attempts sch now s)
  numbered : Numbered s (schedulePackets sch now s) (attempts sch now s)
  next : ((schedulePackets sch now s).nextSegmentNo : ℤ) ≤ s.nextSegmentNo + max 0 (⌊cwnd⌋ - s.nInFlight) + 1

theorem toInt_lt {q : ℚ} (h : q < 2 ^ 31) : Aimd.toInt q < 2 ^ 31 := by
  unfold Aimd.toInt
  split
  · exact Int.floor_lt.2 (by exact_mod_cast h)
  · rename_i hneg
    have hceil : q.ceil ≤ 0 := Rat.ceil_le_iff.2 (by exact_mod_cast (not_le.1 hneg).le)
    omega

theorem withinWindow (o : Aimd.Options) (toUri : ℕ → String) (now : Time) (s : Adaptive Aimd.Window)
    (hcwnd : s.control.cwnd < 2 ^ 31) (hnif : s.nInFlight < 2 ^ 31)
    (hlow : (s.nInFlight : ℤ) ≤ Aimd.toInt s.control.cwnd + 2 ^ 31) :
    WithinWindow (Aimd.scheme o toUri) now s.control.cwnd s := by
  have havail : availableWindowSize (Aimd.scheme o toUri) s ≤ max 0 (⌊s.control.cwnd⌋ - s.nInFlight) :=
    toInt_sub_le _ _
  obtain ⟨hsent, hflight⟩ := attempts_fit (Aimd.scheme o toUri) now s
  have hnext := nextSegmentNo_schedulePackets_le (Aimd.scheme o toUri) now s
  exact
    { intWindow := intWindowSize_eq (toInt_lt hcwnd) hnif hlow
      ends := decide_eq_false (not_lt.2 (scheduleLoop_ends _ now s))
      sent := by omega
      inFlight := by omega
      asked := attempts_asked _ now s
      queued := attempts_queued _ now s
      numbered := attempts_numbered _ now s
      next := by omega }

/-- A window that is not negative needs no lower bound. -/
theorem withinWindow_of_nonneg (o : Aimd.Options) (toUri : ℕ → String) (now : Time) (s : Adaptive Aimd.Window)
    (hpos : 0 ≤ s.control.cwnd) (hcwnd : s.control.cwnd < 2 ^ 31) (hnif : s.nInFlight < 2 ^ 31) :
    WithinWindow (Aimd.scheme o toUri) now s.control.cwnd s := by
  have htoInt : 0 ≤ Aimd.toInt s.control.cwnd := by
    unfold Aimd.toInt
    rw [if_pos hpos]
    exact Int.floor_nonneg.2 hpos
  exact withinWindow o toUri now s hcwnd hnif (by omega)

/-- One call of `schedulePackets` in any state whose window and counter are below 2^31, where a negative window is
not far below the counter, and all calls of a run. -/
theorem schedulePackets_within_window (o : Aimd.Options) (toUri : ℕ → String) (now : Time)
    (s : Adaptive Aimd.Window) (hcwnd : s.control.cwnd < 2 ^ 31) (hnif : s.nInFlight < 2 ^ 31)
    (hlow : (s.nInFlight : ℤ) ≤ Aimd.toInt s.control.cwnd + 2 ^ 31) :
    WithinWindow (Aimd.scheme o toUri) now s.control.cwnd s ∧
    (∀ now₀ control data es,
      (machine (Aimd.scheme o toUri)).Runs (run (Aimd.scheme o toUri) now₀ control data) es →
        Fresh (history (Aimd.scheme o toUri) now₀ control data es)) :=
  ⟨withinWindow o toUri now s hcwnd hnif hlow, history_fresh _⟩

/-- The queue has a segment twice and one that has no entry; the retries of the other fail the pipeline. -/
theorem schedulePackets_within_window_failing :
    let s : Adaptive Aimd.Window :=
      { Aimd.started 4 (packet 0 none) with
        retxQueue := [7, 1, 1]
        retxCount := (∅ : AList fun _ : ℕ => ℕ).insert 1 3 }
    let h := attempts (Aimd.pipeline 4) 0 s
    (schedulePackets (Aimd.pipeline 4) 0 s).isStopping = true ∧ (h.countP Attempt.isSent : ℤ) ≤ 3 ∧
      Queued s (schedulePackets (Aimd.pipeline 4) 0 s).retxQueue h := by
  intro s h
  obtain ⟨hwithin, -⟩ := schedulePackets_within_window (Aimd.withCwnd 4) (fun n => "/data/" ++ toString n) 0 s
    (by decide +kernel) (by decide +kernel) (by decide +kernel)
  exact ⟨by decide +kernel, hwithin.sent, hwithin.queued⟩

end NdnTools.Chunks.Adaptive
