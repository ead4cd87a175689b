/-
Progress past stray packets: every Interest excludes the strays received before it was sent, so no
stray is received twice and the Interests sent before the first version are counted by strays and
retries. Before a version is found the discovery repeats its first Interest instead, so all this
holds exactly when no stray arrives that early.
-/
import NdnTools.Chunks.Discovery.Signals

namespace NdnTools.Chunks.DiscoverVersionIterative

open Fetcher

section Runs

variable [Conventions] {s s' : DiscoverVersionIterative} {interest : Interest} {e : Event}

/-- Every Interest excludes the strays that had been received when it was sent. -/
def StraysExcluded (s : DiscoverVersionIterative) : Prop :=
  ∀ x ∈ s.sent, ∀ d ∈ x.received, s.versionOf d = none →
    x.interest.exclude.isExcluded (s.versionComponent d) = true

/-- The components of the strays received, in order. -/
def strayComponents (s : DiscoverVersionIterative) : List Component :=
  (s.received.filter fun d => (s.versionOf d).isNone).map s.versionComponent

/-- The Interest was sent before a version was received. -/
def isEarly (s : DiscoverVersionIterative) (x : SentInterest) : Bool :=
  x.received.all fun d => (s.versionOf d).isNone

def earlyInterests (s : DiscoverVersionIterative) : List SentInterest := s.sent.filter s.isEarly

/-- No stray was received twice, and the Interests sent before the first version are, the first one
apart, no more than the distinct strays and the retries. -/
structure Progress (s : DiscoverVersionIterative) : Prop where
  excluded : StraysExcluded s
  distinct : s.strayComponents.Nodup
  bounded : s.earlyInterests.length ≤
    1 + s.strayComponents.toFinset.card + s.earlyInterests.countP (·.isRetry)

/-- A packet that arrives before a version was found is a version. -/
def NoEarlyStray (s : DiscoverVersionIterative) : Event → Prop
  | .data _ d => s.fetcher.isRunning = true → s.foundVersion = false → (s.versionOf d).isSome = true
  | _ => True

/-- A packet that the discovery takes is not excluded by the Interest it answers. -/
def Matches (s : DiscoverVersionIterative) : Event → Prop
  | .data i d => s.fetcher.isRunning = true → i.exclude.isExcluded (s.versionComponent d) = false
  | _ => True

instance (s : DiscoverVersionIterative) : Decidable (StraysExcluded s) :=
  inferInstanceAs (Decidable (∀ x ∈ s.sent, _))

instance (s : DiscoverVersionIterative) : (e : Event) → Decidable (NoEarlyStray s e)
  | .data _ _ => inferInstanceAs (Decidable (_ → _ → _))
  | .nack _ _ | .timeout _ | .backoff _ _ | .cancel => .isTrue trivial

instance (s : DiscoverVersionIterative) : (e : Event) → Decidable (Matches s e)
  | .data _ _ => inferInstanceAs (Decidable (_ → _))
  | .nack _ _ | .timeout _ | .backoff _ _ | .cancel => .isTrue trivial

/-- The Interest excludes every stray received so far. -/
def ExcludesStrays (interest : Interest) (s : DiscoverVersionIterative) : Prop :=
  ∀ d ∈ s.received, s.versionOf d = none → interest.exclude.isExcluded (s.versionComponent d) = true

/-- What a run keeps up as long as no stray arrives early. -/
structure Excluding (interest : Interest) (s : DiscoverVersionIterative) : Prop where
  coherent : Coherent interest s
  sent : StraysExcluded s
  current : ExcludesStrays interest s
  unchanged : s.foundVersion = false → interest.exclude = Exclude.empty

theorem excludesStrays_afterVersion (interest : Interest) {d : NamedData} {v : ℕ} (h : Recorded s)
    (hv : s.versionOf d = some v) :
    ExcludesStrays (afterVersion interest s d) (s.withVersion d v) := by
  intro d' hd' hn
  rcases List.mem_append.1 hd' with hd' | hd'
  · exact Exclude.isExcluded_excludeAll.2 (Or.inr ((h.mem_ones _).2 ⟨d', hd', hn, rfl⟩))
  · obtain rfl := List.mem_singleton.1 hd'
    exact absurd (hn.symm.trans hv) (by simp)

theorem excludesStrays_afterStray (interest : Interest) {d : NamedData} (h : Recorded s) (hv : s.versionOf d = none) :
    ExcludesStrays (afterStray interest s d) (s.withStray d) := by
  intro d' hd' hn
  exact Exclude.isExcluded_excludeAll.2 (Or.inr (((h.withStray hv).mem_ones _).2 ⟨d', hd', hn, rfl⟩))

/-- An Interest that excludes the strays received so far is sent. -/
theorem StraysExcluded.append {next : Interest} {d : NamedData} {isRetry : Bool} (h : StraysExcluded s)
    (hnext : ExcludesStrays next { s with received := s.received ++ [d] }) :
    ∀ x ∈ s.sent ++ [⟨next, s.received ++ [d], isRetry⟩], ∀ d ∈ x.received, s.versionOf d = none →
      x.interest.exclude.isExcluded (s.versionComponent d) = true := by
  intro x hx
  rcases List.mem_append.1 hx with hx | hx
  · exact h x hx
  · rw [List.mem_singleton.1 hx]
    exact hnext

theorem Reaction.excluding (h : Excluding interest s) (hr : Reaction interest s e s') (hc : NoEarlyStray s e) :
    ∃ next, Excluding next s' := by
  cases hr with
  | silent quiet follows retries =>
    refine ⟨interest, h.coherent.follow follows _, ?_, h.current, h.unchanged⟩
    intro x hx
    rcases List.mem_append.1 hx with hx | hx
    · exact h.sent x hx
    · rw [List.eq_of_mem_replicate hx]
      exact h.current
  | version d v running isVersion =>
    have hrec := h.coherent.recorded
    have hnext := excludesStrays_afterVersion interest hrec isVersion
    exact ⟨_, (hrec.withVersion isVersion).expressInterest (h.coherent.signals_nil running),
      h.sent.append hnext, hnext, fun hf => by simp [expressInterest, withVersion] at hf⟩
  | strayFound d running isStray found =>
    have hrec := h.coherent.recorded
    have hnext := excludesStrays_afterStray interest hrec isStray
    exact ⟨_, (hrec.withStray isStray).expressInterest (h.coherent.signals_nil running),
      h.sent.append hnext, hnext, fun hf => by simp [expressInterest, withStray, found] at hf⟩
  | strayEarly d running isStray found =>
    have hsome := hc running found
    simp [isStray] at hsome
  | nack reason text running ends follows ended =>
    exact ⟨interest, h.coherent.emit follows running ended _, h.sent, h.current, h.unchanged⟩
  | @timeout g text running ends follows ended =>
    obtain ⟨signal, heq⟩ := h.coherent.recorded.handleTimeout_emits g text
    rw [heq]
    exact ⟨interest, h.coherent.emit follows running ended _, h.sent, h.current, h.unchanged⟩

/-- An early stray is not excluded by the Interest that is sent next. -/
theorem Reaction.noEarlyStray (h : Excluding interest s) (hr : Reaction interest s e s')
    (hs : StraysExcluded s') : NoEarlyStray s e := by
  cases hr with
  | silent quiet follows retries =>
    cases e with
    | data i d => exact fun hrun => absurd hrun quiet
    | nack => trivial
    | timeout => trivial
    | backoff => trivial
    | cancel => trivial
  | version d v running isVersion => exact fun _ _ => Option.isSome_of_mem isVersion
  | strayFound d running isStray found => exact fun _ hf => absurd (found.symm.trans hf) (by simp)
  | strayEarly d running isStray found =>
    have hd := hs ⟨interest, s.received ++ [d], false⟩ (List.mem_append_right _ (List.mem_singleton_self _)) d
      (List.mem_append_right _ (List.mem_singleton_self d)) isStray
    rw [h.unchanged found] at hd
    simp at hd
  | nack reason text running ends follows ended => trivial
  | timeout text running ends follows ended => trivial

theorem excluding_run (namePrefix : Name) (options : DiscoveryOptions) :
    Excluding (firstInterest namePrefix options) (run namePrefix options) := by
  refine ⟨coherent_run namePrefix options, ?_, ?_, fun _ => rfl⟩
  · intro x hx d hd
    simp only [run, expressInterest, init, List.nil_append, List.mem_singleton] at hx
    simp [hx] at hd
  · intro d hd
    simp [run, expressInterest, init] at hd

/-! ## Distinct strays and the number of Interests -/

/-- The early Interests that are not retries. -/
def firsts (s : DiscoverVersionIterative) : ℕ := s.earlyInterests.countP fun x => !x.isRetry

theorem bounded_of_firsts (h : s.firsts ≤ 1) : s.earlyInterests.length ≤
    1 + s.strayComponents.toFinset.card + s.earlyInterests.countP (·.isRetry) := by
  have hsplit := List.length_eq_countP_add_countP (l := s.earlyInterests) (·.isRetry)
  have hfirsts : s.earlyInterests.countP (fun x => decide ¬ x.isRetry = true) = s.firsts := by
    simp [firsts]
  omega

/-- An Interest that is sent once a version was received is not early. -/
theorem firsts_append_late {x : SentInterest} (hx : ∃ d ∈ x.received, (s.versionOf d).isSome = true) :
    ((s.sent ++ [x]).filter s.isEarly).countP (fun x => !x.isRetry) = s.firsts := by
  obtain ⟨d, hd, hv⟩ := hx
  have hlate : s.isEarly x = false := by
    rw [isEarly, List.all_eq_false]
    exact ⟨d, hd, by simpa [Option.isSome_iff_ne_none] using hv⟩
  simp [List.filter_append, hlate, firsts, earlyInterests]

theorem firsts_append_retries (s : DiscoverVersionIterative) (interest : Interest) (retries : ℕ) :
    ((s.sent ++ List.replicate retries (⟨interest, s.received, true⟩ : SentInterest)).filter s.isEarly).countP
      (fun x => !x.isRetry) = s.firsts := by
  rw [List.filter_append, List.countP_append]
  have hzero : ((List.replicate retries (⟨interest, s.received, true⟩ : SentInterest)).filter
      s.isEarly).countP (fun x => !x.isRetry) = 0 := by
    rw [List.countP_eq_zero]
    intro x hx
    rw [List.eq_of_mem_replicate (List.mem_of_mem_filter hx)]
    simp
  rw [hzero]
  rfl

/-- A packet that matches its Interest is not a stray again. -/
theorem strayComponents_append {d : NamedData} (h : ExcludesStrays interest s) (hn : s.strayComponents.Nodup)
    (hv : s.versionOf d = none) (hm : interest.exclude.isExcluded (s.versionComponent d) = false) :
    (s.withStray d).strayComponents.Nodup := by
  have heq : (s.withStray d).strayComponents = s.strayComponents ++ [s.versionComponent d] := by
    show ((s.received ++ [d]).filter fun d => (s.versionOf d).isNone).map s.versionComponent = _
    simp [strayComponents, List.filter_append, hv]
  rw [heq, List.nodup_append]
  refine ⟨hn, List.nodup_singleton _, ?_⟩
  rintro c hc _ hd rfl
  obtain ⟨d', hd', rfl⟩ := List.mem_map.1 hc
  rw [List.mem_filter] at hd'
  have hexcluded := h d' hd'.1 (by simpa using hd'.2)
  rw [List.mem_singleton.1 hd, hm] at hexcluded
  simp at hexcluded

theorem strayComponents_version {d : NamedData} {v : ℕ} (hv : s.versionOf d = some v) :
    (s.withVersion d v).strayComponents = s.strayComponents := by
  show ((s.received ++ [d]).filter fun d => (s.versionOf d).isNone).map s.versionComponent = _
  simp [strayComponents, List.filter_append, hv]

theorem Reaction.progress (h : Excluding interest s) (hn : s.strayComponents.Nodup) (hf : s.firsts ≤ 1)
    (hr : Reaction interest s e s') (hc : NoEarlyStray s e) (hm : Matches s e) :
    s'.strayComponents.Nodup ∧ s'.firsts ≤ 1 := by
  cases hr with
  | silent quiet follows retries =>
    have hfirsts := firsts_append_retries s interest retries
    exact ⟨hn, le_of_eq_of_le hfirsts hf⟩
  | version d v running isVersion =>
    have hlate : ∃ d' ∈ s.received ++ [d], (s.versionOf d').isSome = true :=
      ⟨d, List.mem_append_right _ (List.mem_singleton_self d), Option.isSome_of_mem isVersion⟩
    have hfirsts := firsts_append_late (s := s) (x := ⟨afterVersion interest s d, s.received ++ [d], false⟩) hlate
    rw [← strayComponents_version isVersion] at hn
    exact ⟨hn, le_of_eq_of_le hfirsts hf⟩
  | strayFound d running isStray found =>
    obtain ⟨d', hd', hv⟩ := h.coherent.recorded.found.1 found
    have hlate : ∃ d' ∈ s.received ++ [d], (s.versionOf d').isSome = true :=
      ⟨d', List.mem_append_left _ hd', hv⟩
    have hfirsts := firsts_append_late (s := s) (x := ⟨afterStray interest s d, s.received ++ [d], false⟩) hlate
    exact ⟨strayComponents_append h.current hn isStray (hm running), le_of_eq_of_le hfirsts hf⟩
  | strayEarly d running isStray found =>
    have hsome := hc running found
    simp [isStray] at hsome
  | nack reason text running ends follows ended => exact ⟨hn, hf⟩
  | @timeout g text running ends follows ended =>
    obtain ⟨signal, heq⟩ := h.coherent.recorded.handleTimeout_emits g text
    rw [heq]
    exact ⟨hn, hf⟩

/-- Every Interest excludes the strays received before it, throughout a run, exactly when no stray
arrives before a version; and if packets match their Interests, the same runs are those in which no
stray comes twice and the Interests before the first version are bounded. -/
theorem straysExcluded_iff (namePrefix : Name) (options : DiscoveryOptions) {es : List Event}
    (hr : machine.Runs (run namePrefix options) es) :
    (machine.Always StraysExcluded (run namePrefix options) es ↔
      machine.Each NoEarlyStray (run namePrefix options) es) ∧
    (machine.Each Matches (run namePrefix options) es →
      (machine.Always Progress (run namePrefix options) es ↔
        machine.Each NoEarlyStray (run namePrefix options) es)) := by
  have hstart := excluding_run namePrefix options
  have hreact : ∀ {interest s e}, Excluding interest s → enabled s e → Reaction interest s e (step s e) :=
    fun hs he => step_reaction hs.coherent.contract hs.coherent.fetches he
  have hexcluded : machine.Always StraysExcluded (run namePrefix options) es ↔
      machine.Each NoEarlyStray (run namePrefix options) es := by
    refine Machine.always_iff_each (I := fun s => ∃ interest, Excluding interest s)
      (fun s ⟨_, hs⟩ => hs.sent) ?_ ?_ ⟨_, hstart⟩ hr
    · rintro s e ⟨interest, hs⟩ he hc
      exact (hreact hs he).excluding hs hc
    · rintro s e ⟨interest, hs⟩ he hnext
      exact (hreact hs he).noEarlyStray hs hnext
  refine ⟨hexcluded, fun hm => ⟨fun h => hexcluded.1 (h.imp fun s hs => hs.excluded), fun hc => ?_⟩⟩
  have hinv : machine.Always (fun s => (∃ interest, Excluding interest s) ∧ s.strayComponents.Nodup ∧ s.firsts ≤ 1)
      (run namePrefix options) es := by
    refine Machine.always_of_inv (c := fun s e => NoEarlyStray s e ∧ Matches s e) ?_
      ⟨⟨_, hstart⟩, List.nodup_nil, ?_⟩ hr (Machine.each_and.2 ⟨hc, hm⟩)
    · rintro s e ⟨⟨interest, hs⟩, hn, hf⟩ he ⟨hce, hme⟩
      exact ⟨(hreact hs he).excluding hs hce, (hreact hs he).progress hs hn hf hce hme⟩
    · exact le_trans List.countP_le_length (List.length_filter_le ..)
  refine hinv.imp ?_
  rintro s ⟨⟨interest, hs⟩, hn, hf⟩
  exact ⟨hs.sent, hn, bounded_of_firsts hf⟩

end Runs

/-- A version, then a stray, which the third Interest excludes. -/
theorem progress_after_version :
    letI := documented
    let options : DiscoveryOptions := ⟨4000, false, 3, 1⟩
    let i := firstInterest ["video"] options
    let i' := { i with exclude := ⟨[[0xFD, 5]], []⟩ }
    machine.Always Progress (run ["video"] options)
      [.data i ⟨["video", [0xFD, 5], [0x00, 0]], []⟩, .data i' ⟨["video", "notes", [0x00, 0]], []⟩] := by
  let := documented
  exact ((straysExcluded_iff _ _ (by decide)).2 (by decide)).2 (by decide)

/-- The same stray answers the first Interest and its repetition, which does not exclude it. -/
theorem stray_received_twice :
    letI := documented
    let options : DiscoveryOptions := ⟨4000, false, 3, 1⟩
    let i := firstInterest ["video"] options
    let stray : NamedData := ⟨["video", "notes", [0x00, 0]], []⟩
    let es : List Event := [.data i stray, .data i stray]
    machine.Runs (run ["video"] options) es ∧ machine.Each Matches (run ["video"] options) es ∧
      ¬ machine.Always StraysExcluded (run ["video"] options) es ∧
      ¬ (machine.exec (run ["video"] options) es).strayComponents.Nodup := by
  let := documented
  refine ⟨by decide, by decide, fun h => ?_, by decide⟩
  exact absurd (Machine.always_last _ _ h) (by decide)

end NdnTools.Chunks.DiscoverVersionIterative
