/-
When the fixed-window pipeline tolerates failures beyond the content. A failure before the end of
the content is known sets `m_hasFailure`, which `fetchNextSegment` treats as fatal even when the
packet that has just arrived shows that the failed segments lie after the last one. So a pipeline
that learns its last segment fails because of such segments exactly when some fetch had failed and
none of a segment of the content.
-/
import NdnTools.Chunks.FixedWindow.Slots

namespace NdnTools.Chunks.FixedWindow

/-- With the end known, `onFailure` was called only if the fetch of a segment of the content failed. -/
def Tolerant (s : FixedWindow) : Prop :=
  s.hasFinalBlockId = true → s.failures ≠ [] → ∃ n ∈ s.failed, n ≤ s.lastSegmentNo

/-- The packet that brings the first FinalBlockId comes before any fetch has failed, or after the
fetch of a segment of the content has. -/
def FailuresExplained (s : FixedWindow) : Event → Prop
  | .data _ d => s.hasFinalBlockId = false → ∀ last, d.finalBlockId = some last → s.failed ≠ [] →
      ∃ n ∈ s.failed, n ≤ last
  | _ => True

/-- The invariant: what the failure flag and the failed slots say about the failures so far. -/
structure Calm (s : FixedWindow) : Prop where
  stopped : s.isStopping = true → s.segmentFetchers = []
  quiet : s.isStopping = false → s.failures = []
  cleared : s.isStopping = false → s.hasFinalBlockId = true → s.hasFailure = false
  flagged : s.isStopping = false → s.hasFinalBlockId = false → (s.hasFailure = true ↔ s.failed ≠ [])
  errors : ∀ slot ∈ s.segmentFetchers, slot.hasError = true → slot.2 ∈ s.failed
  tolerant : Tolerant s

variable {s : FixedWindow}

/-- A pipeline that has called nothing is tolerant. -/
theorem tolerant_of_quiet (h : s.failures = []) : Tolerant s := fun _ hne => absurd h hne

theorem Calm.of_stopped (hst : s.isStopping = true) (hfs : s.segmentFetchers = []) (ht : Tolerant s) : Calm s where
  stopped _ := hfs
  quiet h := by rw [hst] at h; cases h
  cleared h := by rw [hst] at h; cases h
  flagged h := by rw [hst] at h; cases h
  errors slot hm := by rw [hfs] at hm; cases hm
  tolerant := ht

theorem Calm.of_going (hgo : s.isStopping = false) (hq : s.failures = [])
    (hc : s.hasFinalBlockId = true → s.hasFailure = false)
    (hf : s.hasFinalBlockId = false → (s.hasFailure = true ↔ s.failed ≠ []))
    (he : ∀ slot ∈ s.segmentFetchers, slot.hasError = true → slot.2 ∈ s.failed) : Calm s where
  stopped h := by rw [hgo] at h; cases h
  quiet _ := hq
  cleared _ := hc
  flagged _ := hf
  errors := he
  tolerant := tolerant_of_quiet hq

/-! ## Stopping -/

/-- A failure is reported with an explanation, or before the end is known. -/
theorem calm_onFailure {reason : String} (hgo : s.isStopping = false)
    (hex : s.hasFinalBlockId = true → ∃ n ∈ s.failed, n ≤ s.lastSegmentNo) : Calm (onFailure reason s) := by
  rw [onFailure_of_going hgo, cancel_of_going hgo]
  exact .of_stopped rfl rfl fun hf _ => hex hf

theorem tolerant_onFailure {reason : String} (hgo : s.isStopping = false) (h : Tolerant (onFailure reason s))
    (hf : s.hasFinalBlockId = true) : ∃ n ∈ s.failed, n ≤ s.lastSegmentNo := by
  rw [onFailure_of_going hgo, cancel_of_going hgo] at h
  exact h hf (by simp)

theorem calm_cancel (h : Calm s) : Calm (cancel s) := by
  cases hgo : s.isStopping with
  | true => rw [show cancel s = s by simp [cancel, hgo]]; exact h
  | false =>
    rw [cancel_of_going hgo]
    exact .of_stopped rfl rfl (tolerant_of_quiet (h.quiet hgo))

/-! ## The next segment -/

theorem calm_fetchNextSegment (p : ℕ) (h : Calm s) (hgo : s.isStopping = false) (hfail : s.hasFailure = false) :
    Calm (fetchNextSegment p s).2 ∧ (fetchNextSegment p s).2.isStopping = false ∧
      (fetchNextSegment p s).2.hasFailure = false := by
  have hskip : Calm (skipExcluded s) := by
    rw [skipExcluded_eq]
    exact ⟨h.stopped, h.quiet, h.cleared, h.flagged, h.errors, h.tolerant⟩
  rcases fetchNextSegment_cases p hgo hfail with ⟨-, heq⟩ | ⟨-, heq⟩
  · rw [heq]
    exact ⟨hskip, by rw [skipExcluded_eq]; exact hgo, by rw [skipExcluded_eq]; exact hfail⟩
  · rw [heq]
    rw [skipExcluded_eq] at hskip ⊢
    refine ⟨.of_going hgo (h.quiet hgo) (h.cleared hgo) (h.flagged hgo) fun slot hm herr => ?_, hgo, hfail⟩
    rcases List.mem_or_eq_of_mem_set hm with hm | rfl
    · exact h.errors slot hm herr
    · cases herr

theorem calm_requestLoop : ∀ (n p : ℕ) (s : FixedWindow), Calm s → s.isStopping = false → s.hasFailure = false →
    Calm (requestLoop n p s)
  | 0, _, _, h, _, _ => h
  | n + 1, p, s, h, hgo, hfail => by
    obtain ⟨h', hgo', hfail'⟩ := calm_fetchNextSegment p h hgo hfail
    rw [requestLoop]
    split
    · rename_i s' heq
      rw [heq] at h'; exact h'
    · rename_i s' heq
      rw [heq] at h' hgo' hfail'
      exact calm_requestLoop n (p + 1) s' h' hgo' hfail'

theorem calm_run (n : ℕ) (data : Data) : Calm (run n data) := by
  refine calm_requestLoop n 0 _ (.of_going rfl rfl (fun _ => rfl) (fun _ => ?_) fun slot hm herr => ?_) rfl rfl
  · constructor
    · intro h; cases h
    · intro h; exact absurd rfl h
  · rw [(List.mem_replicate.1 hm).2] at herr
    cases herr

/-! ## The steps -/

/-- A fetcher that has ended without failing changes no failed slot. -/
theorem errors_endFetcher {p : ℕ} (h : Calm s) :
    ∀ slot ∈ (endFetcher ⟨true, false⟩ p s).segmentFetchers, slot.hasError = true → slot.2 ∈ s.failed := by
  intro slot hm herr
  rcases List.mem_or_eq_of_mem_set hm with hm | rfl
  · exact h.errors slot hm herr
  · cases herr

/-- Cancelling fetchers makes no failed slot. -/
theorem errors_cancelBeyond {slots : List Slot} {failed : List ℕ} (last : ℕ)
    (h : ∀ slot ∈ slots, slot.hasError = true → slot.2 ∈ failed) :
    ∀ slot ∈ slots.map (Slot.cancelBeyond last), slot.hasError = true → slot.2 ∈ failed := by
  intro _ hm herr
  obtain ⟨slot, hslot, rfl⟩ := List.mem_map.1 hm
  rw [Slot.hasError_cancelBeyond] at herr
  rw [Slot.cancelBeyond_snd]
  exact h slot hslot herr

theorem going_of_running {p : ℕ} (h : Calm s) (hrun : (s.slotAt p).isRunning = true) : s.isStopping = false := by
  by_contra hst
  have := lt_length_of_running hrun
  rw [h.stopped (by simpa using hst)] at this
  exact absurd this (Nat.not_lt_zero _)

/-- One packet: the pipeline stays calm exactly when the failures so far are explained. -/
theorem calm_data {p : ℕ} {d : Data} (h : Calm s) (hrun : (s.slotAt p).isRunning = true) :
    (FailuresExplained s (.data p d) → Calm (step s (.data p d))) ∧
      (Tolerant (step s (.data p d)) → FailuresExplained s (.data p d)) := by
  have hgo := going_of_running h hrun
  have herr := errors_endFetcher (p := p) h
  have hcalm : Calm (onData d (endFetcher ⟨true, false⟩ p s)) :=
    .of_going hgo (h.quiet hgo) (h.cleared hgo) (h.flagged hgo) herr
  rw [show step s (.data p d) = handleData d p (endFetcher ⟨true, false⟩ p s) from rfl]
  rcases handleData_cases (s := endFetcher ⟨true, false⟩ p s) d p hgo with
      ⟨hno, heq⟩ | ⟨last, hfin, hlast, ⟨-, heq⟩ | ⟨slot, hm, hslot, hle, heq⟩⟩
  · -- the end is not learnt from this packet
    rw [heq]
    refine ⟨fun _ => ?_, fun _ hfin last hl => ?_⟩
    · cases hfail : s.hasFailure with
      | false => exact (calm_fetchNextSegment p hcalm hgo hfail).1
      | true =>
        rw [fetchNextSegment_failure (s := onData d (endFetcher ⟨true, false⟩ p s)) p hgo hfail]
        refine calm_onFailure hgo fun hf => ?_
        rw [h.cleared hgo hf] at hfail; cases hfail
    · rcases hno with hf | hd
      · rw [show s.hasFinalBlockId = true from hf] at hfin; cases hfin
      · rw [hd] at hl; cases hl
  · -- the end is learnt: a failure so far is reported at once
    rw [heq]
    cases hfail : s.hasFailure with
    | false =>
      have hnil : s.failed = [] := by
        by_contra hne
        rw [(h.flagged hgo hfin).2 hne] at hfail; cases hfail
      have hlearn : Calm (learn last (onData d (endFetcher ⟨true, false⟩ p s))) := by
        exact .of_going hgo (h.quiet hgo) (fun _ => hfail) (fun hf => by cases hf) (errors_cancelBeyond last herr)
      exact ⟨fun _ => (calm_fetchNextSegment p hlearn hgo hfail).1, fun _ _ _ _ hne => absurd hnil hne⟩
    | true =>
      rw [fetchNextSegment_failure (s := learn last (onData d (endFetcher ⟨true, false⟩ p s))) p hgo hfail]
      have hne : s.failed ≠ [] := (h.flagged hgo hfin).1 hfail
      refine ⟨fun hc => calm_onFailure hgo fun _ => hc hfin last hlast hne, fun ht _ l hl _ => ?_⟩
      rw [hlast] at hl; cases hl
      exact tolerant_onFailure (s := learn last (onData d (endFetcher ⟨true, false⟩ p s))) hgo ht rfl
  · -- the end is learnt and a failed slot belongs to the content
    rw [heq]
    have hmem := herr slot hm hslot
    refine ⟨fun _ => calm_onFailure hgo fun _ => ⟨_, hmem, hle⟩, fun _ _ l hl _ => ?_⟩
    rw [hlast] at hl; cases hl
    exact ⟨_, hmem, hle⟩

theorem calm_fail {p : ℕ} {reason : String} (h : Calm s) (hrun : (s.slotAt p).isRunning = true) :
    Calm (step s (.fail p reason)) := by
  have hgo := going_of_running h hrun
  have hslot : (failSlot p s).slotAt p = (some ⟨false, true⟩, (s.slotAt p).2) := by
    rw [show (failSlot p s).slotAt p = _ from slotAt_endFetcher (lt_length_of_running hrun) p, if_pos rfl]
  have herr : ∀ slot ∈ (failSlot p s).segmentFetchers, slot.hasError = true →
      slot.2 ∈ s.failed ++ [(s.slotAt p).2] := fun slot hm hs => by
    rcases List.mem_or_eq_of_mem_set hm with hm | rfl
    · exact List.mem_append_left _ (h.errors slot hm hs)
    · exact List.mem_append_right _ (List.mem_singleton_self _)
  have hmem : (s.slotAt p).2 ∈ s.failed ++ [(s.slotAt p).2] := List.mem_append_right _ (List.mem_singleton_self _)
  show Calm (handleFail reason p (failSlot p s))
  have hcase := handleFail_cases (s := failSlot p s) reason p hgo
  rw [hslot] at hcase
  rcases hcase with ⟨-, hle, heq⟩ | ⟨hb, heq⟩ | ⟨hfin, s', rfl, heq | ⟨heq, -⟩⟩
  -- the failed segment is itself the explanation
  · rw [heq]
    exact calm_onFailure hgo fun _ => ⟨_, hmem, hle⟩
  · rw [heq]
    refine .of_going hgo (h.quiet hgo) (h.cleared hgo) (fun hf => ?_) herr
    have hfin : s.hasFinalBlockId = true := hb.1
    rw [show s.hasFinalBlockId = false from hf] at hfin; cases hfin
  · rw [heq]
    refine calm_onFailure hgo fun hf => ?_
    replace hfin : s.hasFinalBlockId = false := hfin
    rw [show s.hasFinalBlockId = true from hf] at hfin; cases hfin
  · rw [heq]
    refine .of_going hgo (h.quiet hgo) (fun hf => ?_) (fun _ => ⟨fun _ => List.ne_nil_of_mem hmem, fun _ => rfl⟩)
      (errors_cancelBeyond _ herr)
    replace hfin : s.hasFinalBlockId = false := hfin
    rw [show s.hasFinalBlockId = true from hf] at hfin; cases hfin

theorem calm_step (e : Event) (h : Calm s) (he : enabled s e) :
    (FailuresExplained s e → Calm (step s e)) ∧ (Tolerant (step s e) → FailuresExplained s e) := by
  cases e with
  | data p d => exact calm_data h he.1
  | fail p reason => exact ⟨fun _ => calm_fail h he, fun _ => trivial⟩
  | cancel => exact ⟨fun _ => calm_cancel h, fun _ => trivial⟩

/-! ## Runs -/

/-- For every size, discovered packet and run: the pipeline tolerates failures beyond the content
throughout the run exactly when no packet brings the first FinalBlockId after some fetches have
failed of which none is of a segment of the content. -/
theorem tolerant_iff (maxPipelineSize : ℕ) (data : Data) (es : List Event)
    (hruns : machine.Runs (run maxPipelineSize data) es) :
    machine.Always Tolerant (run maxPipelineSize data) es ↔
      machine.Each FailuresExplained (run maxPipelineSize data) es :=
  Machine.always_iff_each (I := Calm) (fun _ h => h.tolerant) (fun _ e h he hc => (calm_step e h he).1 hc)
    (fun _ e h he ht => (calm_step e h he).2 ht) (calm_run maxPipelineSize data) hruns

/-- Three slots fetch segments 1, 2 and 3 of a content that ends with segment 2; segment 3 fails,
then segment 1 arrives and tells the end. -/
def spuriousFailure : List Event := [.fail 2 "timeout", .data 0 (packet 1 (some 2))]

theorem tolerant_iff_spurious :
    machine.Always Tolerant (run 3 (packet 0 none)) spuriousFailure ↔
      machine.Each FailuresExplained (run 3 (packet 0 none)) spuriousFailure :=
  tolerant_iff 3 (packet 0 none) spuriousFailure
    (by simp only [spuriousFailure, Machine.runs_cons, Machine.runs_nil, machine]; decide)

/-- The failure of segment 3 ends the pipeline although the content ends with segment 2. -/
theorem spurious_failure_is_fatal :
    machine.Runs (run 3 (packet 0 none)) spuriousFailure ∧
      ¬ machine.Always Tolerant (run 3 (packet 0 none)) spuriousFailure := by
  refine ⟨by simp only [spuriousFailure, Machine.runs_cons, Machine.runs_nil, machine]; decide, fun h => ?_⟩
  obtain ⟨n, hn, hle⟩ := Machine.always_last _ _ h (by decide) (by decide)
  rw [show (machine.exec (run 3 (packet 0 none)) spuriousFailure).failed = [3] by decide] at hn
  rw [show (machine.exec (run 3 (packet 0 none)) spuriousFailure).lastSegmentNo = 2 by decide] at hle
  rw [List.mem_singleton] at hn
  omega

end NdnTools.Chunks.FixedWindow
