/-
The version that is reported is the greatest one received: every Interest sent after a version was
found excludes all components up to it, so a version that matches the Interest is greater. After a
stray the Exclude is built without the version, so all this holds exactly when no stray arrives once
a version was found.
-/
import NdnTools.Chunks.Discovery.Strays

namespace NdnTools.Chunks.DiscoverVersionIterative

open Fetcher

section Runs

variable [Conventions] {s s' : DiscoverVersionIterative} {interest : Interest} {e : Event}

/-- The Interest excludes every component up to a version among `received`. -/
def CoversVersions (s : DiscoverVersionIterative) (interest : Interest) (received : List NamedData) : Prop :=
  ∀ d ∈ received, (s.versionOf d).isSome = true →
    ∀ c, Conventions.le c (s.versionComponent d) = true → interest.exclude.isExcluded c = true

/-- No version among those received is greater. -/
def Greatest (s : DiscoverVersionIterative) (version : ℕ) : Prop :=
  ∀ d ∈ s.received, ∀ v ∈ s.versionOf d, v ≤ version

structure LatestVersion (s : DiscoverVersionIterative) : Prop where
  excluded : ∀ x ∈ s.sent, s.CoversVersions x.interest x.received
  latest : s.foundVersion = true → s.Greatest s.latestVersion
  reported : ∀ d, .success d ∈ s.signals → ∃ v, s.versionOf d = some v ∧ s.Greatest v

/-- `m_latestVersion` does not decrease in this step. -/
def NeverDecreases (s : DiscoverVersionIterative) (e : Event) : Prop :=
  s.foundVersion = true → s.latestVersion ≤ (step s e).latestVersion

/-- A packet that arrives once a version was found is a version. -/
def NoLateStray (s : DiscoverVersionIterative) : Event → Prop
  | .data _ d => s.fetcher.isRunning = true → s.foundVersion = true → (s.versionOf d).isSome = true
  | _ => True

instance (s : DiscoverVersionIterative) (e : Event) : Decidable (NeverDecreases s e) :=
  inferInstanceAs (Decidable (_ → _))

instance (s : DiscoverVersionIterative) : (e : Event) → Decidable (NoLateStray s e)
  | .data _ _ => inferInstanceAs (Decidable (_ → _ → _))
  | .nack _ _ | .timeout _ | .backoff _ _ | .cancel => .isTrue trivial

/-- What a run keeps up as long as no stray arrives late. -/
structure Ascending (interest : Interest) (s : DiscoverVersionIterative) : Prop where
  coherent : Coherent interest s
  latest : LatestVersion s
  current : s.CoversVersions interest s.received

theorem isExcluded_afterVersion {d : NamedData} {c : Component}
    (hc : Conventions.le c (s.versionComponent d) = true) :
    (afterVersion interest s d).exclude.isExcluded c = true :=
  Exclude.isExcluded_excludeAll.2 (Or.inl (Exclude.isExcluded_excludeBefore.2 (Or.inl hc)))

/-- A version that matches the Interest comes after the versions it covers. -/
theorem le_of_matches {d d' : NamedData} (h : s.CoversVersions interest s.received) (hd' : d' ∈ s.received)
    (hv' : (s.versionOf d').isSome = true)
    (hm : interest.exclude.isExcluded (s.versionComponent d) = false) :
    Conventions.le (s.versionComponent d') (s.versionComponent d) = true := by
  refine (Conventions.le_total _ _).resolve_right fun hle => ?_
  rw [h d' hd' hv' _ hle] at hm
  simp at hm

theorem coversVersions_afterVersion {d : NamedData} (h : s.CoversVersions interest s.received)
    (hm : interest.exclude.isExcluded (s.versionComponent d) = false) :
    s.CoversVersions (afterVersion interest s d) (s.received ++ [d]) := by
  intro d' hd' hv' c hc
  rcases List.mem_append.1 hd' with hd' | hd'
  · exact isExcluded_afterVersion (Conventions.le_trans _ _ _ hc (le_of_matches h hd' hv' hm))
  · rw [List.mem_singleton.1 hd'] at hc
    exact isExcluded_afterVersion hc

theorem greatest_withVersion {d : NamedData} {v : ℕ} (h : s.CoversVersions interest s.received)
    (hv : s.versionOf d = some v) (hm : interest.exclude.isExcluded (s.versionComponent d) = false) :
    (s.withVersion d v).Greatest v := by
  intro d' hd' v' hv'
  have hv'' : s.versionOf d' = some v' := hv'
  rcases List.mem_append.1 hd' with hd' | hd'
  · exact Conventions.version_mono _ _ _ _ (le_of_matches h hd' (Option.isSome_of_mem hv'') hm) hv'' hv
  · rw [List.mem_singleton.1 hd', hv, Option.some.injEq] at hv''
    exact hv''.ge

/-- An Interest that covers the versions received is sent, and nothing is reported yet. -/
theorem LatestVersion.express {next : Interest} {received : List NamedData} (h : LatestVersion s)
    (hnext : s.CoversVersions next received) :
    ∀ x ∈ s.sent ++ [⟨next, received, false⟩], s.CoversVersions x.interest x.received := by
  intro x hx
  rcases List.mem_append.1 hx with hx | hx
  · exact h.excluded x hx
  · rw [List.mem_singleton.1 hx]
    exact hnext

theorem LatestVersion.retry {retries : ℕ} (h : LatestVersion s) (hcurrent : s.CoversVersions interest s.received) :
    ∀ x ∈ s.sent ++ List.replicate retries ⟨interest, s.received, true⟩, s.CoversVersions x.interest x.received := by
  intro x hx
  rcases List.mem_append.1 hx with hx | hx
  · exact h.excluded x hx
  · rw [List.eq_of_mem_replicate hx]
    exact hcurrent

theorem LatestVersion.failure {reason : String} (h : LatestVersion s) (hs : s.signals = []) :
    LatestVersion (emit (.failure reason) s) := by
  refine ⟨h.excluded, h.latest, fun d hd => ?_⟩
  simp [emit, hs] at hd

theorem LatestVersion.success {d : NamedData} (h : LatestVersion s) (hs : s.signals = [])
    (hf : s.foundVersion = true) (hv : s.versionOf d = some s.latestVersion) :
    LatestVersion (emit (.success d) s) := by
  refine ⟨h.excluded, h.latest, fun d' hd' => ?_⟩
  simp only [emit, hs, List.nil_append, List.mem_singleton, Signal.success.injEq] at hd'
  rw [hd']
  exact ⟨s.latestVersion, hv, h.latest hf⟩

theorem Reaction.ascending (h : Ascending interest s) (hr : Reaction interest s e s') (hc : NoLateStray s e)
    (hm : Matches s e) : ∃ next, Ascending next s' := by
  have hrec := h.coherent.recorded
  cases hr with
  | silent quiet follows retries =>
    exact ⟨interest, h.coherent.follow follows _, ⟨h.latest.retry h.current, h.latest.latest, h.latest.reported⟩,
      h.current⟩
  | version d v running isVersion =>
    have hnil := h.coherent.signals_nil running
    have hcovers := coversVersions_afterVersion h.current (hm running)
    refine ⟨_, (hrec.withVersion isVersion).expressInterest hnil, ⟨h.latest.express hcovers, ?_, ?_⟩, hcovers⟩
    · exact fun _ => greatest_withVersion h.current isVersion (hm running)
    · intro d' hd'
      simp [expressInterest, DiscoverVersionIterative.withVersion, hnil] at hd'
  | strayFound d running isStray found =>
    have hsome := hc running found
    simp [isStray] at hsome
  | strayEarly d running isStray found =>
    have hnil := h.coherent.signals_nil running
    -- no version was received yet, so there is nothing to cover
    have hcovers : s.CoversVersions interest (s.received ++ [d]) := by
      intro d' hd' hv'
      have hnone : s.versionOf d' = none := ((hrec.withStray isStray).noVersion_iff.2 found) d' hd'
      simp [hnone] at hv'
    refine ⟨_, (hrec.withStray isStray).expressInterest hnil, ⟨h.latest.express hcovers, ?_, ?_⟩, hcovers⟩
    · intro hf
      exact absurd (found.symm.trans hf) (by simp)
    · intro d' hd'
      simp [expressInterest, DiscoverVersionIterative.withStray, hnil] at hd'
  | @nack g reason text running ends follows ended =>
    have hlatest : LatestVersion { s with fetcher := g } := ⟨h.latest.excluded, h.latest.latest, h.latest.reported⟩
    exact ⟨interest, h.coherent.emit follows running ended _, hlatest.failure (h.coherent.signals_nil running),
      h.current⟩
  | @timeout g text running ends follows ended =>
    have hnil := h.coherent.signals_nil running
    have hlatest : LatestVersion { s with fetcher := g } := ⟨h.latest.excluded, h.latest.latest, h.latest.reported⟩
    have hrec' : Recorded { s with fetcher := g } := (h.coherent.follow follows s.sent).recorded
    rcases handleTimeout_eq hrec' text with ⟨hf, d, -, -, hv, heq⟩ | ⟨-, heq⟩
    · rw [heq]
      exact ⟨interest, h.coherent.emit follows running ended _, hlatest.success hnil hf hv, h.current⟩
    · rw [heq]
      exact ⟨interest, h.coherent.emit follows running ended _, hlatest.failure hnil, h.current⟩

/-- After a late stray the version found before is not excluded any more. -/
theorem Reaction.noLateStray (h : Coherent interest s) (hr : Reaction interest s e s') (hl : LatestVersion s') :
    NoLateStray s e := by
  cases hr with
  | silent quiet follows retries =>
    cases e with
    | data i d => exact fun hrun => absurd hrun quiet
    | nack => trivial
    | timeout => trivial
    | backoff => trivial
    | cancel => trivial
  | version d v running isVersion => exact fun _ _ => Option.isSome_of_mem isVersion
  | strayEarly d running isStray found => exact fun _ hf => absurd (hf.symm.trans found) (by simp)
  | strayFound d running isStray found =>
    obtain ⟨d', hd', hv⟩ := h.recorded.found.1 found
    have hle : Conventions.le (s.versionComponent d') (s.versionComponent d') = true := by
      simpa using Conventions.le_total (s.versionComponent d') (s.versionComponent d')
    have hex := hl.excluded ⟨afterStray interest s d, s.received ++ [d], false⟩
      (List.mem_append_right _ (List.mem_singleton_self _)) d' (List.mem_append_left _ hd') hv _ hle
    rcases Exclude.isExcluded_excludeAll.1 hex with hex | hex
    · simp at hex
    · obtain ⟨d'', -, hn, hc⟩ := ((h.recorded.withStray isStray).mem_ones _).1 hex
      have hn' : Conventions.version (s.versionComponent d'') = none := hn
      have hc' : s.versionComponent d'' = s.versionComponent d' := hc
      rw [hc'] at hn'
      simp [versionOf, hn'] at hv
  | nack reason text running ends follows ended => trivial
  | timeout text running ends follows ended => trivial

theorem ascending_run (namePrefix : Name) (options : DiscoveryOptions) :
    Ascending (firstInterest namePrefix options) (run namePrefix options) := by
  refine ⟨coherent_run namePrefix options, ⟨?_, ?_, ?_⟩, ?_⟩
  · intro x hx d hd
    simp only [run, expressInterest, init, List.nil_append, List.mem_singleton] at hx
    simp [hx] at hd
  · intro hf
    simp [run, expressInterest, init] at hf
  · intro d hd
    simp [run, expressInterest, init] at hd
  · intro d hd
    simp [run, expressInterest, init] at hd

theorem Reaction.received_subset (hr : Reaction interest s e s') (h : Recorded s) :
    s'.namePrefix = s.namePrefix ∧ ∀ d ∈ s.received, d ∈ s'.received := by
  cases hr with
  | silent quiet follows retries => exact ⟨rfl, fun d hd => hd⟩
  | version d v running isVersion => exact ⟨rfl, fun d hd => List.mem_append_left _ hd⟩
  | strayFound d running isStray found => exact ⟨rfl, fun d hd => List.mem_append_left _ hd⟩
  | strayEarly d running isStray found => exact ⟨rfl, fun d hd => List.mem_append_left _ hd⟩
  | nack reason text running ends follows ended => exact ⟨rfl, fun d hd => hd⟩
  | @timeout g text running ends follows ended =>
    obtain ⟨signal, heq⟩ := h.handleTimeout_emits g text
    rw [heq]
    exact ⟨rfl, fun d hd => hd⟩

theorem Reaction.found_mono (hr : Reaction interest s e s') (h : Recorded s) (h' : Recorded s')
    (hf : s.foundVersion = true) : s'.foundVersion = true := by
  obtain ⟨d, hd, hv⟩ := h.found.1 hf
  obtain ⟨hp, hsub⟩ := hr.received_subset h
  refine h'.found.2 ⟨d, hsub d hd, ?_⟩
  simpa [versionOf, versionComponent, hp] using hv

/-- The latest version is among the versions received, so it does not decrease. -/
theorem Reaction.neverDecreases {next : Interest} (h : Ascending interest s) (hr : Reaction interest s e s')
    (h' : Ascending next s') (hf : s.foundVersion = true) : s.latestVersion ≤ s'.latestVersion := by
  obtain ⟨d, hd, -, hv⟩ := h.coherent.recorded.latest hf
  obtain ⟨hp, hsub⟩ := hr.received_subset h.coherent.recorded
  have hf' := hr.found_mono h.coherent.recorded h'.coherent.recorded hf
  refine h'.latest.latest hf' d (hsub d hd) _ ?_
  simpa [versionOf, versionComponent, hp] using hv

/-- If packets match their Interests, then throughout a run the latest version is the greatest one
received, never decreases and is covered by every later Interest, and what is reported is the
greatest, exactly when no stray arrives once a version was found. -/
theorem latestVersion_iff (namePrefix : Name) (options : DiscoveryOptions) {es : List Event}
    (hr : machine.Runs (run namePrefix options) es) (hm : machine.Each Matches (run namePrefix options) es) :
    machine.Always LatestVersion (run namePrefix options) es ∧
        machine.Each NeverDecreases (run namePrefix options) es ↔
      machine.Each NoLateStray (run namePrefix options) es := by
  have hstart := ascending_run namePrefix options
  have hreact : ∀ {interest s e}, Ascending interest s → enabled s e → Reaction interest s e (step s e) :=
    fun hs he => step_reaction hs.coherent.contract hs.coherent.fetches he
  have hstep : ∀ s e, (∃ interest, Ascending interest s) → enabled s e → Matches s e → NoLateStray s e →
      ∃ interest, Ascending interest (step s e) :=
    fun s e ⟨_, hs⟩ he hme hc => (hreact hs he).ascending hs hc hme
  constructor
  · rintro ⟨halways, -⟩
    refine (Machine.always_iff_each_of (I := fun s => ∃ interest, Ascending interest s)
      (fun s ⟨_, hs⟩ => hs.latest) hstep ?_ ⟨_, hstart⟩ hr hm).1 halways
    rintro s e ⟨interest, hs⟩ he - hnext
    exact (hreact hs he).noLateStray hs.coherent hnext
  · intro hc
    have hinv : machine.Always (fun s => ∃ interest, Ascending interest s) (run namePrefix options) es :=
      Machine.always_of_inv (fun s e hs he hq => hstep s e hs he hq.1 hq.2) ⟨_, hstart⟩ hr
        (Machine.each_and.2 ⟨hm, hc⟩)
    refine ⟨hinv.imp fun s ⟨_, hs⟩ => hs.latest, Machine.each_of_always ?_ hr hinv⟩
    rintro s e ⟨interest, hs⟩ he ⟨next, hnext⟩ hf
    exact (hreact hs he).neverDecreases hs hnext hf

end Runs

/-- A stray, then two versions: the second and greater one is reported. -/
theorem latestVersion_of_versions :
    letI := documented
    let options : DiscoveryOptions := ⟨4000, false, 3, 0⟩
    let i := firstInterest ["video"] options
    let i' := { i with exclude := ⟨[[0xFD, 5]], ["notes"]⟩ }
    let i'' := { i with exclude := ⟨[[0xFD, 9]], ["notes"]⟩ }
    let es : List Event := [.data i ⟨["video", "notes", [0x00, 0]], []⟩,
      .data i ⟨["video", [0xFD, 5], [0x00, 0]], []⟩, .data i' ⟨["video", [0xFD, 9], [0x00, 0]], []⟩, .timeout i'']
    machine.Always LatestVersion (run ["video"] options) es ∧
      machine.Each NeverDecreases (run ["video"] options) es := by
  let := documented
  exact (latestVersion_iff _ _ (by decide) (by decide)).2 (by decide)

/-- Version 5, a stray and then version 3, which no Interest excludes any more and which is reported. -/
theorem lower_version_reported :
    letI := documented
    let options : DiscoveryOptions := ⟨4000, false, 3, 0⟩
    let i := firstInterest ["video"] options
    let i' := { i with exclude := ⟨[[0xFD, 5]], []⟩ }
    let i'' := { i with exclude := ⟨[], ["notes"]⟩ }
    let last := { i with exclude := ⟨[[0xFD, 3]], ["notes"]⟩ }
    let version3 : NamedData := ⟨["video", [0xFD, 3], [0x00, 0]], []⟩
    let es : List Event := [.data i ⟨["video", [0xFD, 5], [0x00, 0]], []⟩,
      .data i' ⟨["video", "notes", [0x00, 0]], []⟩, .data i'' version3, .timeout last]
    machine.Runs (run ["video"] options) es ∧ machine.Each Matches (run ["video"] options) es ∧
      ¬ machine.Always LatestVersion (run ["video"] options) es ∧
      ¬ machine.Each NeverDecreases (run ["video"] options) es ∧
      (machine.exec (run ["video"] options) es).signals = [.success version3] := by
  let := documented
  refine ⟨by decide, by decide, fun h => ?_, by decide, by decide⟩
  have hgreatest := (Machine.always_last _ _ h).latest (by decide) ⟨["video", [0xFD, 5], [0x00, 0]], []⟩ (by decide) 5
    (by decide)
  exact absurd hgreatest (by decide)

end NdnTools.Chunks.DiscoverVersionIterative
