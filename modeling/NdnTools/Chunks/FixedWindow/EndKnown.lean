/-
The fixed-window pipeline over packets that all carry the FinalBlockId, as those of putchunks do. The
end is known from the start, so a failure stops the pipeline at once; unless it is cancelled from
outside, it stops for no other reason, and every fetcher that ends brings it nearer to its end.
-/
import NdnTools.Chunks.FixedWindow.Window

namespace NdnTools.Chunks.FixedWindow

/-- A pipeline started with `data` that knows the end of the content, and stops only with a failure. -/
structure EndKnown (last : ℕ) (data : Data) (s : FixedWindow) : Prop where
  known : s.hasFinalBlockId = true
  last : s.lastSegmentNo = last
  excluded : s.excludedSegmentNo = data.segmentNo
  calm : s.hasFailure = false
  stopped : s.isStopping = true → s.failures ≠ []

/-- The fetchers that run and the segments not requested yet: so many fetchers are still to end. -/
def pending (s : FixedWindow) : ℕ := s.segmentFetchers.countP Slot.isRunning + (s.lastSegmentNo + 1 - s.nextSegmentNo)

variable {s : FixedWindow} {N L p : ℕ} {data d : Data} {e : Event}

/-! ## The operations -/

theorem EndKnown.onFailure {reason : String} (h : EndKnown L data s) (hgo : s.isStopping = false) :
    EndKnown L data (onFailure reason s) := by
  rw [onFailure_of_going hgo, cancel_of_going hgo]
  exact ⟨h.known, h.last, h.excluded, h.calm, fun _ => List.append_ne_nil_of_right_ne_nil _ (List.cons_ne_nil _ _)⟩

theorem pending_onFailure {reason : String} (hgo : s.isStopping = false) :
    (onFailure reason s).pending = s.lastSegmentNo + 1 - s.nextSegmentNo := by
  rw [onFailure_of_going hgo, cancel_of_going hgo]
  simp [pending, doCancel]

theorem pending_skipExcluded : (skipExcluded s).pending ≤ s.pending := by
  have hle := (skipExcluded_next (s := s)).2.1
  rw [skipExcluded_eq]
  simp only [pending]
  omega

theorem getElem_segmentFetchers (hp : p < s.segmentFetchers.length) : s.segmentFetchers[p] = s.slotAt p := by
  simp [slotAt, hp]

/-- An idle slot that takes the next segment of the content. -/
theorem pending_request (hp : p < s.segmentFetchers.length) (hidle : (s.slotAt p).isRunning = false)
    (hin : s.nextSegmentNo ≤ s.lastSegmentNo) : (request p s).pending = s.pending := by
  have hslot : s.segmentFetchers[p].isRunning = false := by rw [getElem_segmentFetchers hp]; exact hidle
  have hcount : (request p s).segmentFetchers.countP Slot.isRunning = s.segmentFetchers.countP Slot.isRunning + 1 := by
    simp only [request, List.countP_set hp, hslot]
    rfl
  have hnext : (request p s).lastSegmentNo + 1 - (request p s).nextSegmentNo
      = s.lastSegmentNo + 1 - (s.nextSegmentNo + 1) := rfl
  unfold pending
  rw [hcount, hnext]
  omega

/-- A running fetcher that ends. -/
theorem pending_endFetcher {f : DataFetcher} (hf : f.isRunning = false) (hrun : (s.slotAt p).isRunning = true) :
    (endFetcher f p s).pending + 1 = s.pending := by
  have hp := lt_length_of_running hrun
  have hslot : s.segmentFetchers[p].isRunning = true := by rw [getElem_segmentFetchers hp]; exact hrun
  have hpos : 0 < s.segmentFetchers.countP Slot.isRunning := List.countP_pos_iff.2 ⟨_, List.getElem_mem hp, hslot⟩
  have hended : Slot.isRunning (some f, (s.slotAt p).2) = false := hf
  have hcount : (endFetcher f p s).segmentFetchers.countP Slot.isRunning =
      s.segmentFetchers.countP Slot.isRunning - 1 := by
    simp only [endFetcher, List.countP_set hp, hslot, hended]
    rfl
  have hnext : (endFetcher f p s).lastSegmentNo + 1 - (endFetcher f p s).nextSegmentNo =
      s.lastSegmentNo + 1 - s.nextSegmentNo := rfl
  unfold pending
  rw [hcount, hnext]
  omega

theorem EndKnown.fetchNextSegment (h : EndKnown L data s) (hgo : s.isStopping = false) :
    EndKnown L data (fetchNextSegment p s).2 := by
  rcases fetchNextSegment_cases p hgo h.calm with ⟨-, heq⟩ | ⟨-, heq⟩
  · rw [heq, skipExcluded_eq]
    exact ⟨h.known, h.last, h.excluded, h.calm, h.stopped⟩
  · rw [heq, skipExcluded_eq]
    exact ⟨h.known, h.last, h.excluded, h.calm, h.stopped⟩

theorem pending_fetchNextSegment (h : EndKnown L data s) (hgo : s.isStopping = false)
    (hp : p < s.segmentFetchers.length) (hidle : (s.slotAt p).isRunning = false) :
    (fetchNextSegment p s).2.pending ≤ s.pending := by
  have hskip := pending_skipExcluded (s := s)
  rcases fetchNextSegment_cases p hgo h.calm with ⟨-, heq⟩ | ⟨hin, heq⟩
  · rw [heq]
    exact hskip
  · rw [heq]
    have hle : (skipExcluded s).nextSegmentNo ≤ (skipExcluded s).lastSegmentNo := by
      have hlast : (skipExcluded s).lastSegmentNo = s.lastSegmentNo := by rw [skipExcluded_eq]
      by_contra hlt
      exact hin ⟨h.known, by omega⟩
    have hfetchers : (skipExcluded s).segmentFetchers = s.segmentFetchers := by rw [skipExcluded_eq]
    rw [pending_request (by rw [hfetchers]; exact hp) (by unfold slotAt at *; rw [hfetchers]; exact hidle) hle]
    exact hskip

/-! ## The start -/

theorem endKnown_requestLoop : ∀ (n p : ℕ) (s : FixedWindow), EndKnown L data s → s.isStopping = false →
    EndKnown L data (requestLoop n p s)
  | 0, _, _, h, _ => h
  | n + 1, p, s, h, hgo => by
    have hnext := h.fetchNextSegment (p := p) hgo
    have hgoing : (fetchNextSegment p s).2.isStopping = false := by
      rcases fetchNextSegment_cases p hgo h.calm with ⟨-, heq⟩ | ⟨-, heq⟩
      · rw [heq, skipExcluded_eq]; exact hgo
      · rw [heq, skipExcluded_eq]; exact hgo
    unfold requestLoop
    split
    · next heq => rw [heq] at hnext; exact hnext
    · next heq => rw [heq] at hnext hgoing; exact endKnown_requestLoop n (p + 1) _ hnext hgoing

theorem endKnown_run (N : ℕ) (hdata : data.finalBlockId = some L) : EndKnown L data (run N data) := by
  refine endKnown_requestLoop N 0 _ ⟨?_, ?_, rfl, rfl, fun h => by cases h⟩ rfl
  · simp [init, PipelineInterests.setup, hdata]
  · simp [init, PipelineInterests.setup, hdata]

theorem pending_requestLoop : ∀ (n p : ℕ) (s : FixedWindow), EndKnown L data s → s.isStopping = false →
    p + n = s.segmentFetchers.length → (∀ i, p ≤ i → (s.slotAt i).isRunning = false) →
    (requestLoop n p s).pending ≤ s.pending
  | 0, _, _, _, _, _, _ => le_rfl
  | n + 1, p, s, h, hgo, hlen, hidle => by
    have hnext := h.fetchNextSegment (p := p) hgo
    have hpending := pending_fetchNextSegment h hgo (by omega) (hidle p le_rfl)
    unfold requestLoop
    split
    · next heq => rw [heq] at hpending; exact hpending
    · next s' heq =>
      rcases fetchNextSegment_cases p hgo h.calm with ⟨-, heq'⟩ | ⟨-, heq'⟩
      · rw [heq] at heq'; cases heq'
      · rw [heq] at heq' hpending hnext
        obtain rfl := (Prod.ext_iff.1 heq').2
        have hfetchers : (skipExcluded s).segmentFetchers = s.segmentFetchers := by rw [skipExcluded_eq]
        refine (pending_requestLoop n (p + 1) _ hnext ?_ ?_ fun i hi => ?_).trans hpending
        · rw [skipExcluded_eq]; exact hgo
        · rw [skipExcluded_eq]
          simp only [request, List.length_set]
          omega
        · rw [slotAt_request (by rw [hfetchers]; omega), if_neg (by omega)]
          unfold slotAt
          rw [hfetchers]
          exact hidle i (by omega)

theorem pending_run (N : ℕ) (hdata : data.finalBlockId = some L) : (run N data).pending ≤ L + 1 := by
  have hinit : EndKnown L data (init N data) :=
    ⟨by simp [init, PipelineInterests.setup, hdata], by simp [init, PipelineInterests.setup, hdata], rfl, rfl,
      fun h => by cases h⟩
  refine (pending_requestLoop N 0 _ hinit rfl (by simp [init]) fun i _ => by rw [slotAt_init]; rfl).trans ?_
  have hcount : (init N data).segmentFetchers.countP Slot.isRunning = 0 := by
    refine List.countP_eq_zero.2 fun slot hs => ?_
    rw [List.eq_of_mem_replicate hs]
    decide
  have hnext : (init N data).lastSegmentNo + 1 - (init N data).nextSegmentNo = L + 1 := by
    rw [hinit.last]; rfl
  unfold pending
  rw [hcount, hnext, Nat.zero_add]

/-! ## The steps -/

theorem going_of_enabled (h : Inv N L s) (hrun : (s.slotAt p).isRunning = true) : Live N L (fun _ => False) s := by
  rcases h.2 with ⟨-, hfs⟩ | hlive
  · rw [no_fetcher_of_stopped hfs] at hrun; cases hrun
  · exact hlive

/-- A packet leaves the pipeline going. -/
theorem step_data (h : EndKnown L data s) (hgo : s.isStopping = false) :
    step s (.data p d) = (fetchNextSegment p (onData d (endFetcher ⟨true, false⟩ p s))).2 := by
  have hgo' : (endFetcher ⟨true, false⟩ p s).isStopping = false := hgo
  rcases handleData_cases d p hgo' with ⟨-, heq⟩ | ⟨last, hfin, -⟩
  · exact heq
  · rw [show (endFetcher ⟨true, false⟩ p s).hasFinalBlockId = s.hasFinalBlockId from rfl, h.known] at hfin
    cases hfin

/-- A failure stops it. -/
theorem step_fail {reason : String} (hi : Inv N L s) (h : EndKnown L data s) (hrun : (s.slotAt p).isRunning = true) :
    step s (.fail p reason) = onFailure reason (failSlot p s) := by
  have hlive := going_of_enabled hi hrun
  have hseg : ((failSlot p s).slotAt p).2 = (s.slotAt p).2 := by
    rw [show (failSlot p s).slotAt p = _ from slotAt_endFetcher (lt_length_of_running hrun) p, if_pos rfl]
  have hcase := handleFail_cases (s := failSlot p s) reason p hlive.going
  rw [hseg] at hcase
  rcases hcase with ⟨-, -, heq⟩ | ⟨hb, -⟩ | ⟨hfin, -⟩
  · exact heq
  · exact absurd hb (hlive.fetching.inside p hrun)
  · rw [show (failSlot p s).hasFinalBlockId = s.hasFinalBlockId from rfl, h.known] at hfin
    cases hfin

/-- Every fetcher that ends brings the pipeline nearer to its end. -/
theorem endKnown_step (hi : Inv N L s) (h : EndKnown L data s) (he : enabled s e) (hcancel : e ≠ .cancel) :
    EndKnown L data (step s e) ∧ (step s e).pending < s.pending := by
  cases e with
  | data p d =>
    have hrun := he.1
    have hlive := going_of_enabled hi hrun
    have hended := pending_endFetcher (f := ⟨true, false⟩) rfl hrun
    have h' : EndKnown L data (onData d (endFetcher ⟨true, false⟩ p s)) :=
      ⟨h.known, h.last, h.excluded, h.calm, h.stopped⟩
    have hlen : p < (onData d (endFetcher ⟨true, false⟩ p s)).segmentFetchers.length := by
      simpa [onData, endFetcher] using lt_length_of_running hrun
    have hidle : ((onData d (endFetcher ⟨true, false⟩ p s)).slotAt p).isRunning = false := by
      rw [slotAt_onData, slotAt_endFetcher (lt_length_of_running hrun), if_pos rfl]
      rfl
    have hnext := pending_fetchNextSegment h' hlive.going hlen hidle
    have hsame : (onData d (endFetcher ⟨true, false⟩ p s)).pending = (endFetcher ⟨true, false⟩ p s).pending := rfl
    rw [step_data h hlive.going]
    exact ⟨h'.fetchNextSegment hlive.going, by omega⟩
  | fail p reason =>
    have hlive := going_of_enabled hi he
    have hpos : 0 < s.segmentFetchers.countP Slot.isRunning :=
      List.countP_pos_iff.2 ⟨_, slotAt_mem (lt_length_of_running he), he⟩
    have h' : EndKnown L data (failSlot p s) := ⟨h.known, h.last, h.excluded, h.calm, h.stopped⟩
    have hgo : (failSlot p s).isStopping = false := hlive.going
    rw [step_fail hi h he]
    refine ⟨h'.onFailure hgo, ?_⟩
    rw [pending_onFailure hgo]
    show s.lastSegmentNo + 1 - s.nextSegmentNo < s.pending
    unfold pending
    omega
  | cancel => exact absurd rfl hcancel

/-- A packet makes nothing fail. -/
theorem failures_data (h : EndKnown L data s) (hi : Inv N L s) (he : enabled s (.data p d)) :
    (step s (.data p d)).failures = s.failures := by
  have hlive := going_of_enabled hi he.1
  rw [step_data h hlive.going]
  have hcalm : (onData d (endFetcher ⟨true, false⟩ p s)).hasFailure = false := h.calm
  rcases fetchNextSegment_cases p (s := onData d (endFetcher ⟨true, false⟩ p s)) hlive.going hcalm
    with ⟨-, heq⟩ | ⟨-, heq⟩
  · rw [heq, skipExcluded_eq]; rfl
  · rw [heq, skipExcluded_eq]; rfl

end NdnTools.Chunks.FixedWindow
