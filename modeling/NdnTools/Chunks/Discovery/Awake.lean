/-
A discovery does not stall: as long as it has not signalled, its fetcher runs and waits for something.
-/
import NdnTools.Chunks.DataFetcher.Waits
import NdnTools.Chunks.Discovery.Fixed
import NdnTools.Chunks.Discovery.Signals

namespace NdnTools.Chunks

variable [Conventions]

/-! ## The iterative discovery -/

namespace DiscoverVersionIterative

variable {s s' : DiscoverVersionIterative} {interest : Interest} {e : Event}

structure Awake (s : DiscoverVersionIterative) : Prop where
  running : s.signals = [] → s.fetcher.isRunning = true
  waits : s.fetcher.Waits

omit [Conventions] in
theorem awake_expressInterest {maxNack maxTimeout : ℤ} : Awake (expressInterest interest maxNack maxTimeout s) :=
  ⟨fun _ => rfl, Fetcher.waits_expressInterest _⟩

omit [Conventions] in
theorem awake_emit {signal : Signal} {g : Fetcher Interest NamedData} (hg : g.isRunning = false) :
    Awake (emit signal { s with fetcher := g }) :=
  ⟨fun hnil => by simp [emit] at hnil, Fetcher.waits_of_ended hg⟩

/-- What calls back goes on to the next fetcher or ends in a signal. -/
theorem Reaction.awake (hc : Coherent interest s) (hr : Reaction interest s e s') (hcalls : s.fetcher.CallsBack e) :
    Awake s' := by
  cases hr with
  | silent quiet follows retries => exact absurd hcalls quiet
  | version d v running isVersion => exact awake_expressInterest
  | strayFound d running isStray found => exact awake_expressInterest
  | strayEarly d running isStray found => exact awake_expressInterest
  | nack reason text running ends follows ended => exact awake_emit ended
  | @timeout g text running ends follows ended =>
    obtain ⟨signal, heq⟩ := hc.recorded.handleTimeout_emits g text
    rw [heq]
    exact awake_emit ended

theorem awake_step (hc : Coherent interest s) (h : Awake s) (he : enabled s e) : Awake (step s e) := by
  have hfe := fetcher_enabled he
  have hcancel : e ≠ .cancel := by
    rintro rfl
    exact he.elim
  by_cases hcalls : s.fetcher.CallsBack e
  · exact (step_reaction hc.contract hc.fetches he).awake hc hcalls
  · obtain ⟨hrunning, hwaits⟩ := Fetcher.step_quiet hc.contract hfe hcalls hcancel
    -- nothing is called, so only the fetcher changes
    have hnone := Fetcher.invoked_quiet hc.contract hc.fetches hfe hcalls
    have hstep : step s e = updateFetcher (s.fetcher.step e) s := by simp only [step, hnone, callback]
    rw [hstep]
    exact ⟨fun hnil => hrunning.trans (h.running hnil), hwaits⟩

omit [Conventions] in
theorem awake_run (namePrefix : Name) (options : DiscoveryOptions) : Awake (run namePrefix options) :=
  awake_expressInterest

end DiscoverVersionIterative

/-! ## The discovery of a fixed version -/

namespace DiscoverVersionFixed

variable {s s' : DiscoverVersionFixed} {e : Event}

structure Awake (s : DiscoverVersionFixed) : Prop where
  running : s.signals = [] → s.fetcher.isRunning = true
  waits : s.fetcher.Waits

theorem Reaction.awake (hr : Reaction s e s') (hcalls : s.fetcher.CallsBack e) : Awake s' := by
  cases hr with
  | silent quiet follows retries expressed => exact absurd hcalls quiet
  | segment d running isSegment follows ended expressed =>
    exact ⟨fun hnil => by simp [withSegment, emit] at hnil, Fetcher.waits_of_ended ended⟩
  | stray d running isStray => exact ⟨fun _ => rfl, Fetcher.waits_expressInterest _⟩
  | failure text running follows ended expressed =>
    exact ⟨fun hnil => by simp [emit] at hnil, Fetcher.waits_of_ended ended⟩

theorem awake_step (hc : Coherent s) (h : Awake s) (he : enabled s e) : Awake (step s e) := by
  have hfe := fetcher_enabled he
  have hcancel : e ≠ .cancel := by
    rintro rfl
    exact he.elim
  by_cases hcalls : s.fetcher.CallsBack e
  · exact (step_reaction hc.contract hc.fetches he).awake hcalls
  · obtain ⟨hrunning, hwaits⟩ := Fetcher.step_quiet hc.contract hfe hcalls hcancel
    have hnone := Fetcher.invoked_quiet hc.contract hc.fetches hfe hcalls
    have hstep : step s e = updateFetcher (s.fetcher.step e) s := by simp only [step, hnone, callback]
    rw [hstep]
    exact ⟨fun hnil => hrunning.trans (h.running hnil), hwaits⟩

omit [Conventions] in
theorem awake_run (namePrefix : Name) (options : DiscoveryOptions) : Awake (run namePrefix options) :=
  ⟨fun _ => rfl, Fetcher.waits_expressInterest _⟩

end DiscoverVersionFixed

end NdnTools.Chunks
