/-
The outcome of an iterative discovery: one signal at most, a failure only if no version was received,
and on success a packet whose name goes on with a segment number. Two ends of a fetcher break this:
a Nack, which reports a failure whatever was found, and a timeout when the packet of the latest
version is not a segment.
-/
import NdnTools.Chunks.Discovery.Steps

namespace NdnTools.Chunks.DiscoverVersionIterative

open Fetcher

section Runs

variable [Conventions] {s : DiscoverVersionIterative} {interest : Interest}

structure GoodSignals (s : DiscoverVersionIterative) : Prop where
  atMostOne : s.signals.length ≤ 1
  failure : ∀ reason, .failure reason ∈ s.signals → ∀ d ∈ s.received, s.versionOf d = none
  success : ∀ d, .success d ∈ s.signals → (s.versionOf d).isSome = true ∧ (s.segmentOf d).isSome = true

/-- The event does not end the discovery with a Nack once a version was found, nor with a timeout
while the packet of the latest version is not a segment. -/
def EndsWell (s : DiscoverVersionIterative) : Event → Prop
  | .nack i reason => s.fetcher.CallsBack (.nack i reason) → s.foundVersion = false
  | .timeout i => s.fetcher.CallsBack (.timeout i) → s.foundVersion = true →
      ∀ d ∈ s.latestVersionData, (s.segmentOf d).isSome = true
  | _ => True

instance (s : DiscoverVersionIterative) : (e : Event) → Decidable (EndsWell s e)
  | .nack _ _ => inferInstanceAs (Decidable (_ → _))
  | .timeout _ => inferInstanceAs (Decidable (_ → _ → ∀ d ∈ s.latestVersionData, _))
  | .data _ _ | .backoff _ _ | .cancel => .isTrue trivial

theorem goodSignals_nil (h : s.signals = []) : GoodSignals s := by
  constructor <;> simp [h]

theorem goodSignals_failure {reason : String} (h : s.signals = []) :
    GoodSignals (emit (.failure reason) s) ↔ ∀ d ∈ s.received, s.versionOf d = none := by
  have hsignals : (emit (.failure reason) s).signals = [.failure reason] := by simp [emit, h]
  constructor
  · intro hgood
    exact hgood.failure reason (by simp [hsignals])
  · intro hnone
    refine ⟨by simp [hsignals], fun _ _ => hnone, fun d hd => ?_⟩
    simp [hsignals] at hd

theorem goodSignals_success {d : NamedData} (h : s.signals = []) :
    GoodSignals (emit (.success d) s) ↔ (s.versionOf d).isSome = true ∧ (s.segmentOf d).isSome = true := by
  have hsignals : (emit (.success d) s).signals = [.success d] := by simp [emit, h]
  constructor
  · intro hgood
    exact hgood.success d (by simp [hsignals])
  · intro hboth
    refine ⟨by simp [hsignals], fun _ hr => ?_, fun d' hd' => ?_⟩
    · simp [hsignals] at hr
    · rw [hsignals, List.mem_singleton, Signal.success.injEq] at hd'
      exact hd' ▸ hboth

theorem Recorded.noVersion_iff (h : Recorded s) :
    (∀ d ∈ s.received, s.versionOf d = none) ↔ s.foundVersion = false := by
  rw [← Bool.not_eq_true, h.found]
  simp

theorem Reaction.coherent {e : Event} {s' : DiscoverVersionIterative} (h : Coherent interest s)
    (hr : Reaction interest s e s') : ∃ next, Coherent next s' := by
  cases hr with
  | silent quiet follows retries => exact ⟨interest, h.follow follows _⟩
  | version d v running isVersion =>
    exact ⟨_, (h.recorded.withVersion isVersion).expressInterest (h.signals_nil running)⟩
  | strayFound d running isStray found =>
    exact ⟨_, (h.recorded.withStray isStray).expressInterest (h.signals_nil running)⟩
  | strayEarly d running isStray found =>
    exact ⟨_, (h.recorded.withStray isStray).expressInterest (h.signals_nil running)⟩
  | nack reason text running ends follows ended => exact ⟨interest, h.emit follows running ended _⟩
  | @timeout g text running ends follows ended =>
    obtain ⟨signal, heq⟩ := h.recorded.handleTimeout_emits g text
    exact ⟨interest, heq ▸ h.emit follows running ended _⟩

/-- One event keeps the signals good exactly when it ends well. -/
theorem Reaction.goodSignals_iff {e : Event} {s' : DiscoverVersionIterative} (h : Coherent interest s)
    (hgood : GoodSignals s) (hr : Reaction interest s e s') : GoodSignals s' ↔ EndsWell s e := by
  cases hr with
  | silent quiet follows retries =>
    refine iff_of_true ⟨hgood.atMostOne, hgood.failure, hgood.success⟩ ?_
    cases e with
    | nack => exact fun hc => absurd hc quiet
    | timeout => exact fun hc => absurd hc quiet
    | data => trivial
    | backoff => trivial
    | cancel => trivial
  | version d v running isVersion => exact iff_of_true (goodSignals_nil (h.signals_nil running)) trivial
  | strayFound d running isStray found => exact iff_of_true (goodSignals_nil (h.signals_nil running)) trivial
  | strayEarly d running isStray found => exact iff_of_true (goodSignals_nil (h.signals_nil running)) trivial
  | @nack g reason text running ends follows ended =>
    rw [handleNack, goodSignals_failure (s := { s with fetcher := g }) (h.signals_nil running)]
    refine h.recorded.noVersion_iff.trans ?_
    constructor
    · rintro hf -
      exact hf
    · intro hwell
      exact hwell ⟨running, ends⟩
  | @timeout g text running ends follows ended =>
    have hrec : Recorded { s with fetcher := g } := (h.follow follows s.sent).recorded
    rcases handleTimeout_eq hrec text with ⟨hf, d, -, hlatest, hv, heq⟩ | ⟨hf, heq⟩
    · rw [heq, goodSignals_success (s := { s with fetcher := g }) (h.signals_nil running)]
      constructor
      · rintro ⟨-, hseg⟩ - - d' hd'
        obtain rfl : d = d' := Option.some.inj (hlatest.symm.trans hd')
        exact hseg
      · intro hwell
        exact ⟨Option.isSome_of_mem hv, hwell ⟨running, ends⟩ hf d hlatest⟩
    · rw [heq, goodSignals_failure (s := { s with fetcher := g }) (h.signals_nil running)]
      refine iff_of_true (h.recorded.noVersion_iff.2 hf) fun _ hfound => ?_
      exact absurd (hf.symm.trans hfound) (by simp)

/-- The signals of a discovery are good throughout a run exactly when every event ends well. -/
theorem goodSignals_iff_endsWell (namePrefix : Name) (options : DiscoveryOptions) {es : List Event}
    (hr : machine.Runs (run namePrefix options) es) :
    machine.Always GoodSignals (run namePrefix options) es ↔ machine.Each EndsWell (run namePrefix options) es := by
  refine Machine.always_iff_each (I := fun s => (∃ interest, Coherent interest s) ∧ GoodSignals s)
    (fun s hs => hs.2) ?_ ?_ ⟨⟨_, coherent_run namePrefix options⟩, goodSignals_nil rfl⟩ hr
  · rintro s e ⟨⟨interest, hs⟩, hgood⟩ he hwell
    have hreact : Reaction interest s e (step s e) := step_reaction hs.contract hs.fetches he
    exact ⟨hreact.coherent hs, (hreact.goodSignals_iff hs hgood).2 hwell⟩
  · rintro s e ⟨⟨interest, hs⟩, hgood⟩ he hnext
    have hreact : Reaction interest s e (step s e) := step_reaction hs.contract hs.fetches he
    exact (hreact.goodSignals_iff hs hgood).1 hnext

end Runs

/-- A version is found, its Interest times out twice, and the version is reported. -/
theorem goodSignals_of_timeouts :
    letI := documented
    let options : DiscoveryOptions := ⟨4000, false, 3, 1⟩
    let i := firstInterest ["video"] options
    let i' := { i with exclude := ⟨[[0xFD, 5]], []⟩ }
    machine.Always GoodSignals (run ["video"] options)
      [.data i ⟨["video", [0xFD, 5], [0x00, 0]], []⟩, .timeout i', .timeout i'] := by
  let := documented
  exact (goodSignals_iff_endsWell _ _ (by decide)).2 (by decide)

/-- A version is found, but the next Interest is answered by a Nack: the discovery fails. -/
theorem nack_after_version :
    letI := documented
    let options : DiscoveryOptions := ⟨4000, false, 3, 1⟩
    let i := firstInterest ["video"] options
    let i' := { i with exclude := ⟨[[0xFD, 5]], []⟩ }
    let es : List Event := [.data i ⟨["video", [0xFD, 5], [0x00, 0]], []⟩, .nack i' .noRoute]
    machine.Runs (run ["video"] options) es ∧ ¬ machine.Always GoodSignals (run ["video"] options) es := by
  let := documented
  refine ⟨by decide, fun h => ?_⟩
  have hnone := (Machine.always_last _ _ h).failure _ (List.mem_singleton_self _)
    ⟨["video", [0xFD, 5], [0x00, 0]], []⟩ (by decide)
  exact absurd hnone (by decide)

end NdnTools.Chunks.DiscoverVersionIterative
