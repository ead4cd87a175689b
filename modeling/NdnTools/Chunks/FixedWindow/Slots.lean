/-
What the operations of the fixed-window pipeline do to its slots, slot by slot, and which fields
they leave alone.
-/
import NdnTools.Chunks.FixedWindow.Model
import Mathlib.Tactic

namespace NdnTools.Chunks

/-! ## One slot -/

namespace Slot

@[simp] theorem isRunning_cancel (slot : Slot) : (cancel slot).isRunning = false := by
  rcases slot with ⟨_ | ⟨_ | _, _ | _⟩, n⟩ <;> rfl

@[simp] theorem hasError_cancel (slot : Slot) : (cancel slot).hasError = slot.hasError := by
  rcases slot with ⟨_ | ⟨_ | _, _ | _⟩, n⟩ <;> rfl

@[simp] theorem cancelBeyond_snd (segNo : ℕ) (slot : Slot) : (cancelBeyond segNo slot).2 = slot.2 := by
  unfold cancelBeyond; split <;> rfl

theorem hasError_cancelBeyond (segNo : ℕ) (slot : Slot) : (cancelBeyond segNo slot).hasError = slot.hasError := by
  unfold cancelBeyond; split
  · rw [hasError_cancel]
  · rfl

/-- Only the slots up to the segment still run, those that ran before. -/
theorem isRunning_cancelBeyond {segNo : ℕ} {slot : Slot} :
    (cancelBeyond segNo slot).isRunning = true ↔ slot.isRunning = true ∧ slot.2 ≤ segNo := by
  unfold cancelBeyond; split
  · rw [isRunning_cancel]; constructor
    · intro h; cases h
    · rintro ⟨-, h⟩; omega
  · constructor
    · intro h; exact ⟨h, by omega⟩
    · rintro ⟨h, -⟩; exact h

end Slot

namespace FixedWindow

variable {s : FixedWindow}

@[simp] theorem slotAt_onData (d : Data) (i : ℕ) : (onData d s).slotAt i = s.slotAt i := rfl

/-! ## The slots of a state -/

theorem lt_length_of_running {i : ℕ} (h : (s.slotAt i).isRunning = true) : i < s.segmentFetchers.length := by
  by_contra hge
  unfold slotAt at h
  rw [List.getD_eq_getElem?_getD, List.getElem?_eq_none (by omega)] at h
  cases h

theorem slotAt_mem {i : ℕ} (h : i < s.segmentFetchers.length) : s.slotAt i ∈ s.segmentFetchers := by
  unfold slotAt
  rw [List.getD_eq_getElem?_getD, List.getElem?_eq_getElem h]
  exact List.getElem_mem h

theorem exists_slotAt {slot : Slot} (h : slot ∈ s.segmentFetchers) : ∃ i, s.slotAt i = slot := by
  obtain ⟨i, hi, rfl⟩ := List.getElem_of_mem h
  exact ⟨i, by unfold slotAt; rw [List.getD_eq_getElem?_getD, List.getElem?_eq_getElem hi]; rfl⟩

/-- A slot that is overwritten, read back. -/
theorem getD_set {fs : List Slot} {p i : ℕ} {slot : Slot} (h : p < fs.length) :
    (fs.set p slot).getD i (none, 0) = if i = p then slot else fs.getD i (none, 0) := by
  simp only [List.getD_eq_getElem?_getD, List.getElem?_set]
  by_cases hip : i = p
  · subst hip; simp [h]
  · rw [if_neg hip, if_neg fun h => hip h.symm]

/-- A slot after a change of every slot that leaves an unused one alone. -/
theorem getD_map {fs : List Slot} {i : ℕ} {f : Slot → Slot} (h : f (none, 0) = (none, 0)) :
    (fs.map f).getD i (none, 0) = f (fs.getD i (none, 0)) := by
  simp only [List.getD_eq_getElem?_getD, List.getElem?_map]
  cases fs[i]? <;> simp [h]

theorem cancelBeyond_unused (segNo : ℕ) : Slot.cancelBeyond segNo (none, 0) = (none, 0) := by
  unfold Slot.cancelBeyond; rw [if_neg (by omega)]

theorem slotAt_endFetcher {f : DataFetcher} {p : ℕ} (h : p < s.segmentFetchers.length) (i : ℕ) :
    (endFetcher f p s).slotAt i = if i = p then (some f, (s.slotAt p).2) else s.slotAt i := getD_set h

theorem slotAt_request {p : ℕ} (h : p < s.segmentFetchers.length) (i : ℕ) :
    (request p s).slotAt i = if i = p then (some .fetch, s.nextSegmentNo) else s.slotAt i := getD_set h

theorem slotAt_init (n : ℕ) (data : Data) (i : ℕ) : (init n data).slotAt i = (none, 0) := by
  unfold slotAt init
  rw [List.getD_eq_getElem?_getD, List.getElem?_replicate]
  split <;> rfl

/-! ## Stopping -/

theorem cancel_of_going (h : s.isStopping = false) : cancel s = doCancel { s with isStopping := true } := by
  unfold cancel; rw [if_neg (by simp [h])]

theorem onFailure_of_going {reason : String} (h : s.isStopping = false) :
    onFailure reason s = { cancel s with failures := s.failures ++ [reason] } := by
  unfold onFailure; rw [if_neg (by simp [h])]
  simp only [cancel_of_going h, doCancel]

/-! ## The next segment -/

/-- What `fetchNextSegment` does while the pipeline goes on without a failure: it finds nothing to
request up to the last segment, or it requests the next segment that is not excluded. -/
theorem fetchNextSegment_cases (p : ℕ) (hgo : s.isStopping = false) (hfail : s.hasFailure = false) :
    (s.beyond (skipExcluded s).nextSegmentNo ∧ fetchNextSegment p s = (false, skipExcluded s)) ∨
    (¬ s.beyond (skipExcluded s).nextSegmentNo ∧
      fetchNextSegment p s = (true, request p (skipExcluded s))) := by
  have hp : (skipExcluded s).toPipelineInterests = s.toPipelineInterests := by
    unfold skipExcluded; split <;> rfl
  unfold fetchNextSegment
  rw [if_neg (by simp [hgo]), if_neg (by simp [hfail])]
  simp only [hp]
  by_cases h : s.beyond (skipExcluded s).nextSegmentNo
  · exact .inl ⟨h, by rw [if_pos h]⟩
  · exact .inr ⟨h, by rw [if_neg h]⟩

theorem fetchNextSegment_failure (p : ℕ) (hgo : s.isStopping = false) (hfail : s.hasFailure = true) :
    fetchNextSegment p s = (false, onFailure noFinalSegment s) := by
  unfold fetchNextSegment
  rw [if_neg (by simp [hgo]), if_pos hfail]

/-- The number to request next, past the excluded segment. -/
theorem skipExcluded_next : (skipExcluded s).nextSegmentNo ≠ s.excludedSegmentNo ∧
    s.nextSegmentNo ≤ (skipExcluded s).nextSegmentNo ∧
    ∀ n, n < (skipExcluded s).nextSegmentNo → n ≠ s.excludedSegmentNo → n < s.nextSegmentNo := by
  unfold skipExcluded
  split
  · refine ⟨by simp only; omega, by simp only; omega, fun n hn hx => ?_⟩
    simp only at hn; omega
  · rename_i h
    exact ⟨h, le_rfl, fun n hn _ => hn⟩

theorem skipExcluded_eq (s : FixedWindow) :
    skipExcluded s = { s with nextSegmentNo := (skipExcluded s).nextSegmentNo } := by
  unfold skipExcluded; split <;> rfl

/-! ## The last segment becomes known -/

/-- The loop of `handleData` ended by a failed fetcher of the content, or it went through all slots
and there is none. -/
theorem stopBeyond_cases (last : ℕ) : ∀ fs : List Slot,
    ((stopBeyond last fs).2 = none ∧ (stopBeyond last fs).1 = fs.map (Slot.cancelBeyond last) ∧
      ∀ slot ∈ fs, slot.hasError = true → last < slot.2) ∨
    ∃ slot ∈ fs, (stopBeyond last fs).2 = some slot.2 ∧ slot.hasError = true ∧ slot.2 ≤ last
  | [] => .inl ⟨rfl, rfl, fun _ h => by cases h⟩
  | slot :: slots => by
    have ih := stopBeyond_cases last slots
    -- three of the four branches keep or cancel the slot and go on with the rest
    have hrest : ∀ head : Slot, head = Slot.cancelBeyond last slot → (slot.hasError = true → last < slot.2) →
        stopBeyond last (slot :: slots) = (head :: (stopBeyond last slots).1, (stopBeyond last slots).2) →
        ((stopBeyond last (slot :: slots)).2 = none ∧
          (stopBeyond last (slot :: slots)).1 = (slot :: slots).map (Slot.cancelBeyond last) ∧
          ∀ x ∈ slot :: slots, x.hasError = true → last < x.2) ∨
        ∃ x ∈ slot :: slots, (stopBeyond last (slot :: slots)).2 = some x.2 ∧ x.hasError = true ∧ x.2 ≤ last := by
      rintro head rfl hok heq
      rw [heq]
      rcases ih with ⟨h1, h2, h3⟩ | ⟨x, hx, h1, h2, h3⟩
      · refine .inl ⟨h1, by rw [List.map_cons, h2], fun x hx => ?_⟩
        rcases List.mem_cons.1 hx with rfl | hx
        · exact hok
        · exact h3 x hx
      · exact .inr ⟨x, List.mem_cons_of_mem _ hx, h1, h2, h3⟩
    by_cases h1 : slot.1 = none
    · refine hrest slot ?_ (fun h => ?_) (by rw [stopBeyond, if_pos h1])
      · obtain ⟨f, n⟩ := slot
        simp only at h1
        subst h1
        unfold Slot.cancelBeyond; split <;> rfl
      · unfold Slot.hasError at h; rw [h1] at h; cases h
    · by_cases h2 : slot.2 > last
      · refine hrest slot.cancel ?_ (fun _ => h2) (by rw [stopBeyond, if_neg h1, if_pos h2])
        unfold Slot.cancelBeyond; rw [if_pos h2]
      · by_cases h3 : slot.hasError = true
        · refine .inr ⟨slot, List.mem_cons_self, ?_, h3, by omega⟩
          rw [stopBeyond, if_neg h1, if_neg h2, if_pos h3]
        · refine hrest slot ?_ (fun h => absurd h h3) (by rw [stopBeyond, if_neg h1, if_neg h2, if_neg h3])
          unfold Slot.cancelBeyond; rw [if_neg (by omega)]

theorem stopBeyond_length (last : ℕ) : ∀ fs : List Slot, (stopBeyond last fs).1.length = fs.length
  | [] => rfl
  | slot :: slots => by
    have ih := stopBeyond_length last slots
    rw [stopBeyond]
    split
    · simp [ih]
    · split
      · simp [ih]
      · split
        · rfl
        · simp [ih]

/-- The last segment becomes known and no fetcher of the content has failed. -/
def learn (last : ℕ) (s : FixedWindow) : FixedWindow :=
  { s with
    lastSegmentNo := last
    hasFinalBlockId := true
    segmentFetchers := s.segmentFetchers.map (Slot.cancelBeyond last) }

theorem slotAt_learn (last i : ℕ) : (learn last s).slotAt i = (s.slotAt i).cancelBeyond last :=
  getD_map (cancelBeyond_unused last)

/-- What `handleData` does while the pipeline goes on: nothing is learnt, or the last segment is and
no fetcher of the content has failed, or it is and one has. -/
theorem handleData_cases (d : Data) (p : ℕ) (hgo : s.isStopping = false) :
    ((s.hasFinalBlockId = true ∨ d.finalBlockId = none) ∧
      handleData d p s = (fetchNextSegment p (onData d s)).2) ∨
    ∃ last, s.hasFinalBlockId = false ∧ d.finalBlockId = some last ∧
      (((∀ slot ∈ s.segmentFetchers, slot.hasError = true → last < slot.2) ∧
          handleData d p s = (fetchNextSegment p (learn last (onData d s))).2) ∨
        ∃ slot ∈ s.segmentFetchers, slot.hasError = true ∧ slot.2 ≤ last ∧
          handleData d p s = onFailure (retrievalFailure slot.2)
            { onData d s with
              lastSegmentNo := last
              hasFinalBlockId := true
              segmentFetchers := (stopBeyond last s.segmentFetchers).1 }) := by
  have hsame : (onData d s).hasFinalBlockId = s.hasFinalBlockId ∧ (onData d s).segmentFetchers = s.segmentFetchers :=
    ⟨rfl, rfl⟩
  unfold handleData
  rw [if_neg (by simp [hgo])]
  cases hf : s.hasFinalBlockId with
  | true => exact .inl ⟨.inl rfl, by simp only [hsame.1, hf]⟩
  | false =>
    cases hl : d.finalBlockId with
    | none => exact .inl ⟨.inr rfl, by simp only [hsame.1, hf]⟩
    | some last =>
      refine .inr ⟨last, rfl, rfl, ?_⟩
      rcases stopBeyond_cases last s.segmentFetchers with ⟨h1, h2, h3⟩ | ⟨slot, hm, h1, h2, h3⟩
      · refine .inl ⟨h3, ?_⟩
        simp only [hsame, hf, h1, h2, learn]
      · refine .inr ⟨slot, hm, h2, h3, ?_⟩
        simp only [hsame, hf, h1]

/-! ## A fetcher has failed -/

/-- What `handleFail` does while the pipeline goes on: the segment is part of the content, or known
to lie after it; or the end is unknown and no fetcher before the segment runs, or one does. -/
theorem handleFail_cases (reason : String) (p : ℕ) (hgo : s.isStopping = false) :
    (s.hasFinalBlockId = true ∧ (s.slotAt p).2 ≤ s.lastSegmentNo ∧ handleFail reason p s = onFailure reason s) ∨
    (s.beyond (s.slotAt p).2 ∧ handleFail reason p s = s) ∨
    (s.hasFinalBlockId = false ∧ ∃ s',
        s' = { s with segmentFetchers := s.segmentFetchers.map (Slot.cancelBeyond (s.slotAt p).2) } ∧
      (handleFail reason p s = onFailure noFinalSegment s' ∨
        handleFail reason p s = { s' with hasFailure := true } ∧
          ∃ i, (s'.slotAt i).isRunning = true)) := by
  unfold handleFail
  rw [if_neg (by simp [hgo])]
  cases hf : s.hasFinalBlockId with
  | true =>
    by_cases hle : (s.slotAt p).2 ≤ s.lastSegmentNo
    · exact .inl ⟨rfl, hle, by simp [hle]⟩
    · exact .inr (.inl ⟨⟨hf, by omega⟩, by simp [hle]⟩)
  | false =>
    refine .inr (.inr ⟨rfl, _, rfl, ?_⟩)
    simp only [Bool.false_eq_true, false_and, if_false]
    split
    · exact .inl rfl
    -- a slot before the failed segment is running, and is not cancelled
    · rename_i hall
      refine .inr ⟨rfl, ?_⟩
      rw [Bool.not_eq_true, List.all_eq_false] at hall
      obtain ⟨slot, hm, hslot⟩ := hall
      obtain ⟨i, rfl⟩ := exists_slotAt hm
      refine ⟨i, ?_⟩
      rw [show slotAt { s with segmentFetchers := s.segmentFetchers.map (Slot.cancelBeyond (s.slotAt p).2) } i =
        (s.slotAt i).cancelBeyond (s.slotAt p).2 from getD_map (cancelBeyond_unused _), Slot.isRunning_cancelBeyond]
      rw [Slot.doneBeyond, Bool.or_eq_true, not_or, decide_eq_true_eq, Bool.not_eq_true', Bool.not_eq_false] at hslot
      exact ⟨hslot.2, by omega⟩

end FixedWindow

end NdnTools.Chunks
