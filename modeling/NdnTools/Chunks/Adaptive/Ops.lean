/-
What the operations of the adaptive pipelines do: the entry of each segment after the operation,
and the cases of the operations that branch.
-/
import NdnTools.Chunks.Adaptive.Model
import Mathlib.Tactic

namespace NdnTools.Chunks

namespace SegmentMap

variable {m : SegmentMap} {n : ℕ} {info : SegmentInfo}

theorem infoOf_of_lookup (h : m.lookup n = some info) : m.infoOf n = info := by
  unfold infoOf; rw [h]; rfl

theorem mem_iff_lookup : n ∈ m ↔ ∃ info, m.lookup n = some info := by
  rw [← AList.lookup_isSome, Option.isSome_iff_exists]

theorem lookup_of_notMem (h : n ∉ m) : m.lookup n = none := AList.lookup_eq_none.2 h

theorem lookup_of_mem (h : n ∈ m) : m.lookup n = some (m.infoOf n) := by
  obtain ⟨info, hi⟩ := mem_iff_lookup.1 h
  rw [infoOf_of_lookup hi, hi]

theorem mem_active_iff : n ∈ active m ↔ ∃ info, m.lookup n = some info ∧ info.state.isActive = true :=
  AList.mem_keysWhere

theorem mem_inFlight_iff : n ∈ inFlight m ↔ ∃ info, m.lookup n = some info ∧ info.state.isInFlight = true :=
  AList.mem_keysWhere

theorem mem_of_mem_inFlight (h : n ∈ inFlight m) : n ∈ m := by
  obtain ⟨info, hi, -⟩ := mem_inFlight_iff.1 h
  exact mem_iff_lookup.2 ⟨info, hi⟩

end SegmentMap

/-! ## The Face -/

namespace Face

variable {f : Face}

theorem mem_of_segmentOf {id segNo : ℕ} (h : f.segmentOf id = some segNo) : (id, segNo) ∈ f.pending := by
  unfold segmentOf at h
  rw [Option.map_eq_some_iff] at h
  obtain ⟨⟨id', segNo'⟩, hf, rfl⟩ := h
  have hid := List.find?_some hf
  simp only [decide_eq_true_eq] at hid
  subst hid
  exact List.mem_of_find?_eq_some hf

/-- Ids are distinct, so the segment of a pending Interest is the one of its id. -/
theorem segmentOf_of_mem {id segNo : ℕ} (h : (id, segNo) ∈ f.pending) : f.segmentOf id = some segNo := by
  unfold segmentOf
  cases hf : f.pending.find? fun p => decide (p.1 = id) with
  | none => exact absurd (List.find?_eq_none.1 hf _ h) (by simp)
  | some p =>
    have hid : p.1 = id := by simpa using List.find?_some hf
    rw [List.inj_on_of_nodup_map f.distinct (List.mem_of_find?_eq_some hf) h hid]
    rfl

theorem mem_removePendingInterest {id : ℕ} {p : ℕ × ℕ} :
    p ∈ (f.removePendingInterest id).pending ↔ p ∈ f.pending ∧ p.1 ≠ id := by
  simp [removePendingInterest, restrict]

theorem mem_removeAll {ids : List ℕ} {p : ℕ × ℕ} : p ∈ (f.removeAll ids).pending ↔ p ∈ f.pending ∧ p.1 ∉ ids := by
  simp [removeAll, restrict]

theorem mem_expressInterest {segNo : ℕ} {p : ℕ × ℕ} :
    p ∈ (f.expressInterest segNo).pending ↔ p ∈ f.pending ∨ p = (f.nextId, segNo) := by
  simp [expressInterest]

end Face

namespace Adaptive

variable {κ : Type} {sch : Scheme κ} {now : Time} {s : Adaptive κ} {n m : ℕ}

/-! ## The entries -/

theorem lookup_updateInfo (f : SegmentInfo → SegmentInfo) :
    (updateInfo n f s).segmentInfo.lookup m =
      if m = n then some (f (s.segmentInfo.infoOf n)) else s.segmentInfo.lookup m := by
  unfold updateInfo
  split
  · rename_i h; subst h; exact AList.lookup_insert _
  · rename_i h; exact AList.lookup_insert_ne h

theorem lookup_setState (st : SegmentState) :
    (setState n st s).segmentInfo.lookup m =
      if m = n then some { s.segmentInfo.infoOf n with state := st } else s.segmentInfo.lookup m :=
  lookup_updateInfo _

theorem lookup_requeue :
    (requeue n s).segmentInfo.lookup m =
      if m = n then some { s.segmentInfo.infoOf n with state := .inRetxQueue } else s.segmentInfo.lookup m :=
  lookup_updateInfo _

theorem lookup_eraseInfo :
    (eraseInfo n s).segmentInfo.lookup m = if m = n then none else s.segmentInfo.lookup m := by
  unfold eraseInfo
  split
  · rename_i h; subst h; exact AList.lookup_erase _ _
  · rename_i h; exact AList.lookup_erase_ne h

theorem lookup_cancelInFlight :
    (cancelInFlightSegmentsGreaterThan n s).segmentInfo.lookup m =
      if m ≤ n then s.segmentInfo.lookup m else none := by
  unfold cancelInFlightSegmentsGreaterThan
  rw [AList.lookup_filterKeys]
  simp only [decide_eq_true_eq]

theorem lookup_learnLast :
    (learnLast n s).segmentInfo.lookup m = if m ≤ n then s.segmentInfo.lookup m else none :=
  lookup_cancelInFlight

theorem lookup_resend :
    (resend sch now n s).segmentInfo.lookup m =
      if m = n then some { s.segmentInfo.infoOf n with
        state := .retransmitted
        rto := sch.getEstimatedRto s.control
        timeSent := now } else s.segmentInfo.lookup m :=
  lookup_updateInfo _

theorem lookup_sendFirst (sch : Scheme κ) (now : Time) (m : ℕ) (h : n ∉ s.segmentInfo) :
    (sendFirst sch now n s).segmentInfo.lookup m =
      if m = n then some ⟨s.face.nextId, .firstTimeSent, sch.getEstimatedRto s.control, now⟩
      else s.segmentInfo.lookup m := by
  simp only [sendFirst, h, if_false]
  split
  · rename_i hm; subst hm; exact AList.lookup_insert _
  · rename_i hm; exact AList.lookup_insert_ne hm

/-! ## Stopping -/

/-- A pipeline does not both go on and stop. -/
theorem absurd_of_going {C : Prop} (hgo : s.isStopping = false) (hst : s.isStopping = true) : C := by
  rw [hgo] at hst; cases hst

theorem cancel_of_going (h : s.isStopping = false) : cancel s = doCancel { s with isStopping := true } := by
  unfold cancel; rw [if_neg (by simp [h])]

theorem cancel_of_stopping (h : s.isStopping = true) : cancel s = s := by
  unfold cancel; rw [if_pos h]

theorem onFailure_of_going (reason : String) (h : s.isStopping = false) :
    onFailure reason s =
      { doCancel { s with isStopping := true } with failures := s.failures ++ [reason] } := by
  unfold onFailure; rw [if_neg (by simp [h])]
  simp only [cancel_of_going h]
  rfl

theorem isStopping_onFailure {reason : String} (hgo : s.isStopping = false) :
    (onFailure reason s).isStopping = true := by
  rw [onFailure_of_going _ hgo]; rfl

theorem isStopping_cancel (s : Adaptive κ) : (cancel s).isStopping = true := by
  cases h : s.isStopping with
  | true => rw [cancel_of_stopping h]; exact h
  | false => rw [cancel_of_going h]; rfl

theorem isStopping_succeed (s : Adaptive κ) : (succeed s).isStopping = true := isStopping_cancel s

/-! ## Failures -/

/-- The first step of giving a segment up. -/
def dropped (n : ℕ) (s : Adaptive κ) : Adaptive κ :=
  { eraseInfo n s with nInFlight := s.nInFlight - 1, failed := s.failed ++ [n] }

theorem lookup_dropped : (dropped n s).segmentInfo.lookup m = if m = n then none else s.segmentInfo.lookup m :=
  lookup_eraseInfo

/-- The failed segment is given up together with all that follow. -/
def gaveUp (n : ℕ) (reason : String) (s : Adaptive κ) : Adaptive κ :=
  { cancelInFlightSegmentsGreaterThan n (dropped n s) with
    hasFailure := true
    failedSegNo := n
    failureReason := reason }

theorem lookup_gaveUp {reason : String} :
    (gaveUp n reason s).segmentInfo.lookup m = if m < n then s.segmentInfo.lookup m else none := by
  refine (lookup_cancelInFlight (s := dropped n s)).trans ?_
  rw [lookup_dropped]
  rcases lt_trichotomy m n with h | h | h
  · rw [if_pos h.le, if_neg h.ne, if_pos h]
  · rw [if_pos h.le, if_pos h, if_neg (by omega)]
  · rw [if_neg (by omega), if_neg (by omega)]

/-- No entry is left but that of `n`. -/
def OnlyEntry (n : ℕ) (s : Adaptive κ) : Prop := ∀ m ∈ s.segmentInfo.keys, m = n

instance : Decidable (OnlyEntry n s) := inferInstanceAs (Decidable (∀ m ∈ s.segmentInfo.keys, m = n))

theorem giveUp_cases (n : ℕ) (reason : String) (s : Adaptive κ) :
    (OnlyEntry n s ∧ giveUp n reason s = onFailure noFinalSegment (dropped n s)) ∨
    (¬ OnlyEntry n s ∧ giveUp n reason s = gaveUp n reason s) := by
  -- the map that the source tests is the one without the entry of `n`
  have hiff : (dropped n s).segmentInfo.entries = [] ↔ OnlyEntry n s := by
    rw [AList.entries_eq_nil_iff]
    constructor
    · intro h m hm
      by_contra hne
      have hl := h m
      rw [lookup_dropped, if_neg hne] at hl
      exact AList.lookup_eq_none.1 hl (AList.mem_keys.2 hm)
    · intro h m
      rw [lookup_dropped]
      split
      · rfl
      · rename_i hne
        exact SegmentMap.lookup_of_notMem fun hm => hne (h m (AList.mem_keys.1 hm))
  unfold giveUp
  by_cases h : OnlyEntry n s
  · exact .inl ⟨h, if_pos (hiff.2 h)⟩
  · exact .inr ⟨h, if_neg fun he => h (hiff.1 he)⟩

/-- What `handleFail` does while the pipeline goes on. -/
theorem handleFail_cases (n : ℕ) (reason : String) (hgo : s.isStopping = false) :
    (s.hasFinalBlockId = true ∧ n ≤ s.lastSegmentNo ∧ handleFail n reason s = onFailure reason s) ∨
    (s.beyond n ∧ handleFail n reason s = s) ∨
    (s.hasFinalBlockId = false ∧ handleFail n reason s = giveUp n reason s) := by
  unfold handleFail
  rw [if_neg (by simp [hgo])]
  cases hf : s.hasFinalBlockId with
  | true =>
    by_cases hle : n ≤ s.lastSegmentNo
    · exact .inl ⟨rfl, hle, by simp [hle]⟩
    · exact .inr (.inl ⟨⟨hf, by omega⟩, by simp [hle]⟩)
  | false => exact .inr (.inr ⟨rfl, by simp⟩)

/-- What `onFailure` leaves alone. -/
theorem onFailure_frame (reason : String) (s : Adaptive κ) : ∃ isStopping failures face segmentInfo,
    onFailure reason s =
      { s with isStopping := isStopping, failures := failures, face := face, segmentInfo := segmentInfo } ∧
    face.nextId = s.face.nextId ∧ face.pending ⊆ s.face.pending := by
  cases hgo : s.isStopping with
  | true =>
    unfold onFailure
    rw [if_pos hgo]
    exact ⟨_, _, _, _, rfl, rfl, fun _ hp => hp⟩
  | false =>
    rw [onFailure_of_going _ hgo]
    exact ⟨_, _, _, _, rfl, rfl, fun _ hp => (Face.mem_removeAll.1 hp).1⟩

/-- What `handleFail` leaves alone. -/
theorem handleFail_frame (n : ℕ) (reason : String) (s : Adaptive κ) :
    ∃ isStopping failures face segmentInfo nInFlight failed hasFailure failedSegNo failureReason,
      handleFail n reason s =
        { s with
          isStopping := isStopping
          failures := failures
          face := face
          segmentInfo := segmentInfo
          nInFlight := nInFlight
          failed := failed
          hasFailure := hasFailure
          failedSegNo := failedSegNo
          failureReason := failureReason } ∧
      face.nextId = s.face.nextId ∧ face.pending ⊆ s.face.pending ∧ nInFlight ≤ s.nInFlight := by
  cases hgo : s.isStopping with
  | true =>
    unfold handleFail
    rw [if_pos hgo]
    exact ⟨_, _, _, _, _, _, _, _, _, rfl, rfl, fun _ hp => hp, le_rfl⟩
  | false =>
    rcases handleFail_cases n reason hgo with ⟨-, -, heq⟩ | ⟨-, heq⟩ | ⟨-, heq⟩
    · obtain ⟨_, _, _, _, hon, hid, hsub⟩ := onFailure_frame reason s
      rw [heq, hon]
      exact ⟨_, _, _, _, _, _, _, _, _, rfl, hid, hsub, le_rfl⟩
    · rw [heq]
      exact ⟨_, _, _, _, _, _, _, _, _, rfl, rfl, fun _ hp => hp, le_rfl⟩
    · rcases giveUp_cases n reason s with ⟨-, hgive⟩ | ⟨-, hgive⟩
      · obtain ⟨_, _, _, _, hon, hid, hsub⟩ := onFailure_frame noFinalSegment (dropped n s)
        rw [heq, hgive, hon]
        exact ⟨_, _, _, _, _, _, _, _, _, rfl, hid, hsub, Nat.sub_le _ _⟩
      · rw [heq, hgive]
        refine ⟨_, _, _, _, _, _, _, _, _, rfl, rfl, fun _ hp => (Face.mem_removeAll.1 hp).1, ?_⟩
        exact (Nat.sub_le _ _).trans (Nat.sub_le _ _)

/-! ## Sending -/

/-- The pipeline after `getNextSegmentNo`. -/
def advance (s : Adaptive κ) : Adaptive κ := { s with nextSegmentNo := nextNo s + 1 }

theorem nextNo_spec (s : Adaptive κ) : nextNo s ≠ s.excludedSegmentNo ∧ s.nextSegmentNo ≤ nextNo s ∧
    ∀ n, n < nextNo s → n ≠ s.excludedSegmentNo → n < s.nextSegmentNo := by
  unfold nextNo
  split
  · exact ⟨by omega, by omega, fun n _ _ => by omega⟩
  · rename_i h
    exact ⟨h, le_rfl, fun n hn _ => hn⟩

/-- What `sendInterest(getNextSegmentNo(), false)` does: nothing but to use up the number, or to
send the segment's first Interest. -/
theorem sendNext_cases (sch : Scheme κ) (now : Time) (s : Adaptive κ) :
    ((s.isStopping = true ∨ s.beyond (nextNo s) ∨ s.hasFailure = true) ∧ sendNext sch now s = advance s) ∨
    (s.isStopping = false ∧ ¬ s.beyond (nextNo s) ∧ s.hasFailure = false ∧
      sendNext sch now s = sendFirst sch now (nextNo s) (advance s)) := by
  unfold sendNext sendInterest
  by_cases h1 : s.isStopping = true
  · exact .inl ⟨.inl h1, if_pos h1⟩
  by_cases h2 : s.beyond (nextNo s)
  · refine .inl ⟨.inr (.inl h2), ?_⟩
    rw [if_neg h1, if_pos ⟨h2.1, h2.2, rfl⟩]
    rfl
  by_cases h3 : s.hasFailure = true
  · refine .inl ⟨.inr (.inr h3), ?_⟩
    rw [if_neg h1, if_neg fun h => h2 ⟨h.1, h.2.1⟩, if_pos ⟨rfl, h3⟩]
    rfl
  · refine .inr ⟨by simpa using h1, h2, by simpa using h3, ?_⟩
    rw [if_neg h1, if_neg fun h => h2 ⟨h.1, h.2.1⟩, if_neg fun h => h3 h.2, if_neg (by simp)]
    rfl

/-- What `sendInterest` does with a retransmission while the pipeline goes on. -/
theorem sendInterest_retransmission (sch : Scheme κ) (now : Time) (n : ℕ) (hgo : s.isStopping = false) :
    (Exhausted sch n s ∧ sendInterest sch now n true s = handleFail n (tooManyRetries sch n) (countRetx n s)) ∨
    (¬ Exhausted sch n s ∧ sendInterest sch now n true s = resend sch now n (countRetx n s)) := by
  unfold sendInterest
  rw [if_neg (by simp [hgo]), if_neg (by simp), if_neg (by simp), if_pos rfl]
  by_cases h : Exhausted sch n s
  · exact .inl ⟨h, if_pos h⟩
  · exact .inr ⟨h, if_neg h⟩

/-! ## Data -/

theorem infoOf_updateInfo_id : (updateInfo n id s).segmentInfo.infoOf n = s.segmentInfo.infoOf n :=
  SegmentMap.infoOf_of_lookup (by rw [lookup_updateInfo, if_pos rfl]; rfl)

/-- The entry that `handleData` works with: `operator[]` makes it if there is none. -/
def touch (n : ℕ) (s : Adaptive κ) : Adaptive κ := updateInfo n id { s with highData := max s.highData n }

theorem lookup_touch :
    (touch n s).segmentInfo.lookup m = if m = n then some (s.segmentInfo.infoOf n) else s.segmentInfo.lookup m :=
  lookup_updateInfo _

theorem infoOf_touch : (touch n s).segmentInfo.infoOf n = s.segmentInfo.infoOf n := infoOf_updateInfo_id

/-- The segment has an entry in state `RetxReceived`. -/
def IsRetxReceived (n : ℕ) (s : Adaptive κ) : Prop := s.segmentInfo.HasState n .retxReceived

theorem isRetxReceived_iff : IsRetxReceived n s ↔ (s.segmentInfo.infoOf n).state = .retxReceived := by
  constructor
  · rintro ⟨info, hl, hst⟩
    rw [SegmentMap.infoOf_of_lookup hl]; exact hst
  · intro h
    by_cases hm : n ∈ s.segmentInfo
    · exact ⟨_, SegmentMap.lookup_of_mem hm, h⟩
    · unfold SegmentMap.infoOf at h
      rw [SegmentMap.lookup_of_notMem hm] at h; cases h

instance (n : ℕ) (s : Adaptive κ) : Decidable (IsRetxReceived n s) := decidable_of_iff _ isRetxReceived_iff.symm

/-- What `handleData` does with the segment once it has looked at the FinalBlockId: PipelineInterestsCubic
ignores a segment without an entry; a segment received before is ignored and its entry erased; any
other is accepted, and then the pipeline stops or goes on sending. -/
theorem receive_cases (sch : Scheme κ) (now : Time) (d : Data) (s : Adaptive κ) :
    (sch.isCubic = true ∧ d.segmentNo ∉ s.segmentInfo ∧
      receive sch now d s = .done { s with highData := max s.highData d.segmentNo }) ∨
    (IsRetxReceived d.segmentNo s ∧ receive sch now d s = .done (eraseInfo d.segmentNo (touch d.segmentNo s))) ∨
    (¬ IsRetxReceived d.segmentNo s ∧ (sch.isCubic = true → d.segmentNo ∈ s.segmentInfo) ∧
      ∃ s', s' = accept sch now d (touch d.segmentNo s) ∧
        ((s'.allReceived ∧ receive sch now d s = .done (succeed s')) ∨
         (¬ s'.allReceived ∧ receive sch now d s = .schedulePackets s'))) := by
  unfold receive
  by_cases h1 : sch.isCubic = true ∧ d.segmentNo ∉ s.segmentInfo
  · exact .inl ⟨h1.1, h1.2, if_pos h1⟩
  by_cases h2 : IsRetxReceived d.segmentNo s
  · refine .inr (.inl ⟨h2, ?_⟩)
    rw [if_neg h1]
    exact if_pos (by rw [infoOf_updateInfo_id]; exact isRetxReceived_iff.1 h2)
  · refine .inr (.inr ⟨h2, fun hc => ?_, _, rfl, ?_⟩)
    · by_contra hm
      exact h1 ⟨hc, hm⟩
    rw [if_neg h1]
    -- the entry that `operator[]` makes is not in that state
    have h3 : ¬ ((touch d.segmentNo s).segmentInfo.infoOf d.segmentNo).state = .retxReceived := by
      rw [infoOf_touch]; exact fun h => h2 (isRetxReceived_iff.2 h)
    by_cases h4 : (accept sch now d (touch d.segmentNo s)).allReceived
    · exact .inl ⟨h4, (if_neg h3).trans (if_pos h4)⟩
    · exact .inr ⟨h4, (if_neg h3).trans (if_neg h4)⟩

/-- The pipeline that has learnt its last segment and goes on. -/
def learnt (last : ℕ) (s : Adaptive κ) : Adaptive κ := { learnLast last s with hasFailure := false }

theorem lookup_learnt : (learnt n s).segmentInfo.lookup m = if m ≤ n then s.segmentInfo.lookup m else none :=
  lookup_cancelInFlight

/-- What `handleData` does with the FinalBlockId while the pipeline goes on: nothing is learnt, or
the last segment is and one up to it has failed, or it is and the pipeline goes on. -/
theorem handleData_cases (sch : Scheme κ) (now : Time) (d : Data) (hgo : s.isStopping = false) :
    ((s.hasFinalBlockId = true ∨ d.finalBlockId = none) ∧ handleData sch now d s = receive sch now d s) ∨
    ∃ last, s.hasFinalBlockId = false ∧ d.finalBlockId = some last ∧
      ((s.hasFailure = true ∧ s.failedSegNo ≤ last ∧
          handleData sch now d s = .done (onFailure s.failureReason (learnLast last s))) ∨
        (¬ (s.hasFailure = true ∧ s.failedSegNo ≤ last) ∧
          handleData sch now d s = receive sch now d (learnt last s))) := by
  unfold handleData
  rw [if_neg (by simp [hgo])]
  cases hf : s.hasFinalBlockId with
  | true => exact .inl ⟨.inl rfl, rfl⟩
  | false =>
    cases hl : d.finalBlockId with
    | none => exact .inl ⟨.inr rfl, rfl⟩
    | some last =>
      refine .inr ⟨last, rfl, rfl, ?_⟩
      by_cases h : s.hasFailure = true ∧ s.failedSegNo ≤ last
      · exact .inl ⟨h.1, h.2, if_pos h⟩
      · exact .inr ⟨h, if_neg h⟩

/-- The entries after a segment was accepted: its own is gone, or marked as received. -/
theorem lookup_accept (sch : Scheme κ) (now : Time) (s : Adaptive κ) (m : ℕ) (d : Data) :
    (accept sch now d s).segmentInfo.lookup m =
      if m = d.segmentNo then
        if (s.segmentInfo.infoOf m).state = .firstTimeSent ∨ (s.segmentInfo.infoOf m).state = .inRetxQueue then none
        else some { s.segmentInfo.infoOf m with state := .retxReceived }
      else s.segmentInfo.lookup m := by
  -- handing the packet on leaves the entries alone, so its place does not matter
  have hsettle : ∀ t : Adaptive κ, t.segmentInfo = s.segmentInfo →
      (settle sch now d.segmentNo t).segmentInfo.lookup m =
      if m = d.segmentNo then
        if (s.segmentInfo.infoOf m).state = .firstTimeSent ∨ (s.segmentInfo.infoOf m).state = .inRetxQueue then none
        else some { s.segmentInfo.infoOf m with state := .retxReceived }
      else s.segmentInfo.lookup m := by
    intro t ht
    unfold settle
    simp only [ht]
    by_cases hm : m = d.segmentNo
    · subst hm
      rw [if_pos rfl]
      split
      · rw [lookup_eraseInfo, if_pos rfl]
      · rw [lookup_setState, if_pos rfl, ht]
    · rw [if_neg hm]
      split
      · rw [lookup_eraseInfo, if_neg hm]
      · rw [lookup_setState, if_neg hm, ht]
  unfold accept
  split
  · exact hsettle _ rfl
  · exact hsettle _ rfl

/-- The counter in flight after a segment was accepted. -/
def landed (n : ℕ) (s : Adaptive κ) : ℕ :=
  if (s.segmentInfo.infoOf n).state ≠ .inRetxQueue then s.nInFlight - 1 else s.nInFlight

theorem settle_frame (sch : Scheme κ) (now : Time) (n : ℕ) (s : Adaptive κ) : ∃ control segmentInfo,
    settle sch now n s = { s with control := control, segmentInfo := segmentInfo } := by
  by_cases h : (s.segmentInfo.infoOf n).state = .firstTimeSent ∨ (s.segmentInfo.infoOf n).state = .inRetxQueue
  · exact ⟨_, _, if_pos h⟩
  · exact ⟨_, _, if_neg h⟩

/-- The members that `accept` changes. -/
theorem accept_frame (sch : Scheme κ) (now : Time) (d : Data) (s : Adaptive κ) : ∃ control segmentInfo,
    accept sch now d s =
      { s with
        control := control
        segmentInfo := segmentInfo
        nInFlight := landed d.segmentNo s
        nReceived := s.nReceived + 1
        delivered := s.delivered ++ [d.segmentNo] } := by
  unfold accept
  split
  · obtain ⟨c, i, h⟩ := settle_frame sch now d.segmentNo
      { s with nInFlight := landed d.segmentNo s, nReceived := s.nReceived + 1 }
    refine ⟨sch.increaseWindow now c, i, ?_⟩
    exact congrArg (deliver sch now d) h
  · obtain ⟨c, i, h⟩ := settle_frame sch now d.segmentNo
      (deliver sch now d { s with nInFlight := landed d.segmentNo s, nReceived := s.nReceived + 1 })
    exact ⟨c, i, h⟩

theorem isStopping_accept (d : Data) : (accept sch now d s).isStopping = s.isStopping := by
  obtain ⟨c, i, heq⟩ := accept_frame sch now d s
  rw [heq]

/-! ## Timeouts -/

/-- A loss of `k` Interests: `handleTimeout` up to the call of `schedulePackets`. -/
def lost (sch : Scheme κ) (now : Time) (k : ℕ) (s : Adaptive κ) : Adaptive κ :=
  { reactToLoss sch now s with nInFlight := s.nInFlight - k }

theorem lost_frame (sch : Scheme κ) (now : Time) (k : ℕ) (s : Adaptive κ) : ∃ recPoint control nLossEvents,
    lost sch now k s =
      { s with
        recPoint := recPoint, control := control, nLossEvents := nLossEvents, nInFlight := s.nInFlight - k } := by
  unfold lost reactToLoss
  split
  · exact ⟨_, _, _, rfl⟩
  · exact ⟨_, _, _, rfl⟩

theorem handleTimeout_succ (sch : Scheme κ) (now : Time) {k : ℕ} (hk : k ≠ 0) (s : Adaptive κ) :
    handleTimeout sch now k s = .schedulePackets (lost sch now k s) := by
  unfold handleTimeout
  rw [if_neg hk]
  unfold lost reactToLoss
  split <;> rfl

/-- Several segments are put on the retransmission queue. -/
def requeueAll : List ℕ → Adaptive κ → Adaptive κ
  | [], s => s
  | n :: ns, s => requeueAll ns (requeue n s)

theorem requeueAll_frame : ∀ (ns : List ℕ) (s : Adaptive κ), ∃ segmentInfo,
    requeueAll ns s = { s with retxQueue := s.retxQueue ++ ns, segmentInfo := segmentInfo }
  | [], s => ⟨s.segmentInfo, by simp [requeueAll]⟩
  | n :: ns, s => by
    obtain ⟨i, h⟩ := requeueAll_frame ns (requeue n s)
    refine ⟨i, ?_⟩
    rw [requeueAll, h]
    simp only [requeue, setState, updateInfo, List.append_assoc, List.cons_append, List.nil_append]

theorem lookup_requeueAll : ∀ (ns : List ℕ) (s : Adaptive κ) (m : ℕ),
    (requeueAll ns s).segmentInfo.lookup m =
      if m ∈ ns then some { s.segmentInfo.infoOf m with state := .inRetxQueue } else s.segmentInfo.lookup m
  | [], _, _ => rfl
  | n :: ns, s, m => by
    rw [requeueAll, lookup_requeueAll ns (requeue n s) m]
    by_cases hmn : m = n
    -- queued a second time or not, the state is the same
    · subst hmn
      have hl := lookup_requeue (s := s) (n := m) (m := m)
      rw [if_pos rfl] at hl
      rw [if_pos List.mem_cons_self, hl, SegmentMap.infoOf_of_lookup hl, ite_self]
    · have hinfo : (requeue n s).segmentInfo.infoOf m = s.segmentInfo.infoOf m := by
        unfold SegmentMap.infoOf; rw [lookup_requeue, if_neg hmn]
      rw [hinfo, lookup_requeue, if_neg hmn]
      simp only [List.mem_cons, hmn, false_or]

/-- The loop of `checkRto` queues the expired segments of its order, each once. -/
theorem queueExpired_eq (now : Time) : ∀ (order : List ℕ), order.Nodup → ∀ (s : Adaptive κ) (k : ℕ),
    queueExpired now order (s, k) =
      (requeueAll (order.filter fun n => rtoExpired now (s.segmentInfo.infoOf n)) s,
        k + (order.filter fun n => rtoExpired now (s.segmentInfo.infoOf n)).length)
  | [], _, _, _ => rfl
  | n :: order, hnd, s, k => by
    obtain ⟨hn, hnd⟩ := List.nodup_cons.1 hnd
    rw [queueExpired, List.filter_cons]
    by_cases h : rtoExpired now (s.segmentInfo.infoOf n)
    · -- queueing `n` does not change the other entries
      have hsame : (order.filter fun m => rtoExpired now ((requeue n s).segmentInfo.infoOf m)) =
          order.filter fun m => rtoExpired now (s.segmentInfo.infoOf m) := by
        refine List.filter_congr fun m hm => ?_
        have hmn : m ≠ n := fun he => hn (he ▸ hm)
        have hinfo : (requeue n s).segmentInfo.infoOf m = s.segmentInfo.infoOf m := by
          unfold SegmentMap.infoOf; rw [lookup_requeue, if_neg hmn]
        rw [hinfo]
      rw [if_pos h, if_pos (by simpa using h), queueExpired_eq now order hnd, hsame]
      simp only [requeueAll, List.length_cons, Prod.mk.injEq, true_and]
      omega
    · rw [if_neg h, if_neg (by simpa using h), queueExpired_eq now order hnd]

end Adaptive

end NdnTools.Chunks
