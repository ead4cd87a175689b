/-
Version discovery for a name that ends with a version (`discover-version.cpp`,
`discover-version-fixed.cpp`): one `DataFetcher` after the other asks for Data with one more name
component, until that component is a segment number. Every component that is not is excluded from
then on.

`received` and `sent` record what a run did; no operation reads them.
-/
import NdnTools.Chunks.Discovery.Steps

namespace NdnTools.Chunks

structure DiscoverVersionFixed where
  namePrefix : Name
  options : DiscoveryOptions
  strayExcludes : Exclude
  fetcher : Fetcher Interest NamedData
  signals : List Signal
  received : List NamedData
  sent : List SentInterest
  deriving Repr, DecidableEq

namespace DiscoverVersionFixed

variable [Conventions]

/-- `DiscoverVersion::expressInterest`. -/
def expressInterest (interest : Interest) (maxRetriesNack maxRetriesTimeout : ℤ) (s : DiscoverVersionFixed) :
    DiscoverVersionFixed :=
  { s with
    fetcher := .fetch interest maxRetriesNack maxRetriesTimeout true true
    sent := s.sent ++ [⟨interest, s.received, false⟩] }

/-- The Interest of `run`, which sets no ChildSelector. -/
def firstInterest (namePrefix : Name) (options : DiscoveryOptions) : Interest where
  name := namePrefix
  interestLifetime := options.interestLifetime
  mustBeFresh := options.mustBeFresh
  minSuffixComponents := 2
  maxSuffixComponents := 2
  childSelector := 0
  exclude := .empty

/-- The constructor. -/
def init (namePrefix : Name) (options : DiscoveryOptions) : DiscoverVersionFixed where
  namePrefix := namePrefix
  options := options
  strayExcludes := .empty
  fetcher := .init options.maxRetriesOnTimeoutOrNack options.maxRetriesOnTimeoutOrNack true true
  signals := []
  received := []
  sent := []

def run (namePrefix : Name) (options : DiscoveryOptions) : DiscoverVersionFixed :=
  expressInterest (firstInterest namePrefix options) options.maxRetriesOnTimeoutOrNack
    options.maxRetriesOnTimeoutOrNack (init namePrefix options)

def emit (signal : Signal) (s : DiscoverVersionFixed) : DiscoverVersionFixed :=
  { s with signals := s.signals ++ [signal] }

def handleData (interest : Interest) (data : NamedData) (s : DiscoverVersionFixed) : DiscoverVersionFixed :=
  let s := { s with received := s.received ++ [data] }
  let component := data.name.getD interest.name.length []
  if (Conventions.segment component).isSome then emit (.success data) s
  else
    -- the packet is not a segment, and is excluded together with the earlier ones
    let s := { s with strayExcludes := s.strayExcludes.excludeOne component }
    expressInterest { interest with exclude := s.strayExcludes } s.options.maxRetriesOnTimeoutOrNack
      s.options.maxRetriesOnTimeoutOrNack s

/-- `DiscoverVersion::handleNack` and `DiscoverVersion::handleTimeout`. -/
def handleFailure (reason : String) (s : DiscoverVersionFixed) : DiscoverVersionFixed := emit (.failure reason) s

/-! ## Runs -/

/-- What happens to the fetcher happens to the discovery. -/
abbrev Event := Fetcher.Event Interest NamedData

/-- The fetcher has become `fetcher`, and has repeated its Interest or not. -/
def updateFetcher (fetcher : Fetcher Interest NamedData) (s : DiscoverVersionFixed) : DiscoverVersionFixed :=
  { s with
    fetcher := fetcher
    sent := s.sent ++
      (fetcher.expressed.drop s.fetcher.expressed.length).map fun interest => ⟨interest, s.received, true⟩ }

/-- The callback that the fetcher invoked. -/
def callback (call : Option (Callback Interest NamedData)) (s : DiscoverVersionFixed) : DiscoverVersionFixed :=
  match call with
  | none => s
  | some (.onData interest data) => handleData interest data s
  | some (.onNack _ reason) => handleFailure reason s
  | some (.onTimeout _ reason) => handleFailure reason s

def step (s : DiscoverVersionFixed) (e : Event) : DiscoverVersionFixed :=
  let fetcher := s.fetcher.step e
  callback (s.fetcher.invoked fetcher) (updateFetcher fetcher s)

/-- The Face delivers Data below the prefix only, and nobody cancels the fetcher. -/
def enabled (s : DiscoverVersionFixed) : Event → Prop
  | .data interest d =>
    s.fetcher.enabled (.data interest d) ∧ s.namePrefix <+: d.name ∧ s.namePrefix.length < d.name.length
  | .cancel => False
  | e => s.fetcher.enabled e

instance (s : DiscoverVersionFixed) (e : Event) : Decidable (enabled s e) := by
  cases e <;> unfold enabled <;> infer_instance

def machine : Machine DiscoverVersionFixed Event := ⟨enabled, step⟩

instance (s : DiscoverVersionFixed) (e : Event) : Decidable (machine.enabled s e) :=
  inferInstanceAs (Decidable (enabled s e))

/-! ## One step -/

variable {s s' : DiscoverVersionFixed} {d : NamedData} {e : Event}

/-- The component after the prefix, which is a segment number or not. -/
def component (s : DiscoverVersionFixed) (d : NamedData) : Component := d.name.getD s.namePrefix.length []

def segmentOf (s : DiscoverVersionFixed) (d : NamedData) : Option ℕ := Conventions.segment (s.component d)

/-- The Interest that the fetcher at work fetches. -/
def current (s : DiscoverVersionFixed) : Interest :=
  { firstInterest s.namePrefix s.options with exclude := s.strayExcludes }

/-- The state in which the stray `d` has been received. -/
def withStray (s : DiscoverVersionFixed) (d : NamedData) : DiscoverVersionFixed :=
  { s with received := s.received ++ [d], strayExcludes := s.strayExcludes.excludeOne (s.component d) }

def withSegment (s : DiscoverVersionFixed) (d : NamedData) : DiscoverVersionFixed :=
  emit (.success d) { s with received := s.received ++ [d] }

/-- Asks again, excluding the strays. -/
def ask (s : DiscoverVersionFixed) : DiscoverVersionFixed :=
  expressInterest s.current s.options.maxRetriesOnTimeoutOrNack s.options.maxRetriesOnTimeoutOrNack s

omit [Conventions] in
theorem fetcher_enabled (he : enabled s e) : s.fetcher.enabled e := by
  cases e with
  | data => exact he.1
  | cancel => exact he.elim
  | nack => exact he
  | timeout => exact he
  | backoff => exact he

theorem handleData_segment (h : (s.segmentOf d).isSome = true) : handleData s.current d s = s.withSegment d :=
  if_pos h

theorem handleData_stray (h : s.segmentOf d = none) : handleData s.current d s = (s.withStray d).ask := by
  have hno : ¬ (s.segmentOf d).isSome = true := by simp [h]
  exact if_neg hno

/-- The fetcher after an event that did not make it deliver. -/
structure Follows (s : DiscoverVersionFixed) (g : Fetcher Interest NamedData) : Prop where
  contract : g.Contract
  fetches : g.Fetches s.current
  limits : g.maxNackRetries = s.fetcher.maxNackRetries ∧ g.maxTimeoutRetries = s.fetcher.maxTimeoutRetries
  stopped : s.fetcher.isRunning = false → g.isRunning = false

/-- What an event does to a discovery. -/
inductive Reaction (s : DiscoverVersionFixed) : Event → DiscoverVersionFixed → Prop
  | silent {e : Event} {g : Fetcher Interest NamedData} (quiet : ¬ s.fetcher.CallsBack e) (follows : Follows s g)
      (retries : ℕ)
      (expressed : g.expressed = s.fetcher.expressed ++ List.replicate retries s.current) :
      Reaction s e
        { s with fetcher := g, sent := s.sent ++ List.replicate retries ⟨s.current, s.received, true⟩ }
  | segment {g : Fetcher Interest NamedData} (d : NamedData) (running : s.fetcher.isRunning = true)
      (isSegment : (s.segmentOf d).isSome = true) (follows : Follows s g) (ended : g.isRunning = false)
      (expressed : g.expressed = s.fetcher.expressed) :
      Reaction s (.data s.current d) ({ s with fetcher := g }.withSegment d)
  | stray (d : NamedData) (running : s.fetcher.isRunning = true) (isStray : s.segmentOf d = none) :
      Reaction s (.data s.current d) (s.withStray d).ask
  | failure {e : Event} {g : Fetcher Interest NamedData} (text : String) (running : s.fetcher.isRunning = true)
      (follows : Follows s g) (ended : g.isRunning = false) (expressed : g.expressed = s.fetcher.expressed) :
      Reaction s e (emit (.failure text) { s with fetcher := g })

omit [Conventions] in
theorem updateFetcher_eq {g : Fetcher Interest NamedData} {retries : ℕ}
    (h : g.expressed = s.fetcher.expressed ++ List.replicate retries s.current) :
    updateFetcher g s =
      { s with fetcher := g, sent := s.sent ++ List.replicate retries ⟨s.current, s.received, true⟩ } := by
  simp [updateFetcher, h]

theorem step_reaction (hc : s.fetcher.Contract) (hf : s.fetcher.Fetches s.current) (he : enabled s e) :
    Reaction s e (step s e) := by
  have hfe := fetcher_enabled he
  have hfollows : Follows s (s.fetcher.step e) :=
    ⟨Fetcher.step_contract hc e hfe, Fetcher.step_fetches hf e hfe, Fetcher.step_limits e,
      fun hr => by rw [(Fetcher.step_ended hc hr e hfe).2.flags, hr]⟩
  have hended : ∀ {call}, s.fetcher.invoked (s.fetcher.step e) = some call → (s.fetcher.step e).isRunning = false :=
    fun hcall => DiscoverVersionIterative.ended_of_invoked hfollows.contract hcall
  have hkept : ∀ {g : Fetcher Interest NamedData}, g.expressed = s.fetcher.expressed →
      updateFetcher g s = { s with fetcher := g } := fun {g} h => by
    have heq : g.expressed = s.fetcher.expressed ++ List.replicate 0 s.current := by simpa using h
    simpa using updateFetcher_eq heq
  unfold step
  dsimp only
  cases Fetcher.step_outcome hc hf e hfe with
  | silent quiet none retries expressed =>
    rw [none, updateFetcher_eq expressed]
    exact .silent quiet hfollows retries expressed
  | data d running call expressed =>
    rw [call, hkept expressed]
    let s' := { s with fetcher := s.fetcher.step (.data s.current d) }
    show Reaction s _ (handleData s'.current d s')
    cases hseg : s.segmentOf d with
    | some n =>
      have hsome : (s'.segmentOf d).isSome = true := Option.isSome_of_mem hseg
      rw [handleData_segment hsome]
      exact .segment d running hsome hfollows (hended call) expressed
    | none =>
      -- the fetcher that has delivered is replaced by the next one
      rw [handleData_stray (s := s') hseg]
      exact .stray d running hseg
  | nack reason text running ends call expressed =>
    rw [call, hkept expressed]
    exact .failure text running hfollows (hended call) expressed
  | timeout text running ends call expressed =>
    rw [call, hkept expressed]
    exact .failure text running hfollows (hended call) expressed

/-! ## Runs -/

/-- The packets received that are no segments. -/
def strays (s : DiscoverVersionFixed) : List NamedData := s.received.filter fun d => (s.segmentOf d).isNone

/-- The Exclude filter lists the components of the strays among `received` and nothing else. -/
def ExcludesExactly (s : DiscoverVersionFixed) (received : List NamedData) (exclude : Exclude) : Prop :=
  ∀ c, exclude.isExcluded c = true ↔ ∃ d ∈ received, s.segmentOf d = none ∧ s.component d = c

/-- The discovery has ended with `signal`: with the first segment received, or with a failure before
any was. -/
def Ended (s : DiscoverVersionFixed) : Signal → Prop
  | .success d => (s.segmentOf d).isSome = true ∧ ∃ before, s.received = before ++ [d] ∧
      ∀ d' ∈ before, s.segmentOf d' = none
  | .failure _ => ∀ d ∈ s.received, s.segmentOf d = none

/-- The signals say that the discovery goes on or how it has ended. -/
def Signalled (s : DiscoverVersionFixed) : Prop :=
  (s.signals = [] ∧ ∀ d ∈ s.received, s.segmentOf d = none) ∨
    ∃ signal, s.signals = [signal] ∧ s.fetcher.isRunning = false ∧ Ended s signal

/-- Every Interest was one for a further component, with just the strays received before excluded. -/
def Asked (s : DiscoverVersionFixed) : Prop :=
  ∀ x ∈ s.sent, ∃ exclude, ExcludesExactly s x.received exclude ∧
    x.interest = { firstInterest s.namePrefix s.options with exclude := exclude }

/-- What a discovery of a fixed version promises; with a limit on the retries there are no more
Interests than the strays, and the first, allow. -/
structure Discovers (s : DiscoverVersionFixed) : Prop where
  asked : Asked s
  signalled : Signalled s
  bounded : 0 ≤ s.options.maxRetriesOnTimeoutOrNack →
    (s.sent.length : ℤ) ≤ (s.strays.length + 1) * (1 + 2 * s.options.maxRetriesOnTimeoutOrNack)

/-- What holds of the fetcher at work and the Interests sent. -/
structure Asking (s : DiscoverVersionFixed) : Prop where
  contract : s.fetcher.Contract
  fetches : s.fetcher.Fetches s.current
  limits : s.fetcher.maxNackRetries = s.options.maxRetriesOnTimeoutOrNack ∧
    s.fetcher.maxTimeoutRetries = s.options.maxRetriesOnTimeoutOrNack
  excluded : ExcludesExactly s s.received s.strayExcludes
  asked : Asked s
  sent : 0 ≤ s.options.maxRetriesOnTimeoutOrNack →
    (s.sent.length : ℤ) ≤ s.strays.length * (1 + 2 * s.options.maxRetriesOnTimeoutOrNack) + s.fetcher.expressed.length

/-- The invariant of the runs. -/
structure Coherent (s : DiscoverVersionFixed) : Prop extends Asking s where
  signalled : Signalled s

theorem Asking.bounded (h : Asking s) (hlimit : 0 ≤ s.options.maxRetriesOnTimeoutOrNack) :
    (s.sent.length : ℤ) ≤ (s.strays.length + 1) * (1 + 2 * s.options.maxRetriesOnTimeoutOrNack) := by
  have hsent := h.sent hlimit
  have hbudget := h.contract.budget (by rw [h.limits.1]; exact hlimit) (by rw [h.limits.2]; exact hlimit)
  rw [h.limits.1, h.limits.2] at hbudget
  have hexpressed : (s.fetcher.expressed.length : ℤ) ≤ 1 + 2 * s.options.maxRetriesOnTimeoutOrNack := by omega
  linarith

theorem Coherent.discovers (h : Coherent s) : Discovers s := ⟨h.asked, h.signalled, h.bounded⟩

theorem Coherent.going (h : Coherent s) (hr : s.fetcher.isRunning = true) :
    s.signals = [] ∧ ∀ d ∈ s.received, s.segmentOf d = none := by
  rcases h.signalled with hs | ⟨_, -, hstopped, -⟩
  · exact hs
  · exact absurd (hr.symm.trans hstopped) (by simp)

theorem excludesExactly_nil : ExcludesExactly s [] .empty := by
  intro c
  simp

/-- One more stray is excluded. -/
theorem ExcludesExactly.stray {received : List NamedData} {exclude : Exclude} (h : ExcludesExactly s received exclude)
    (hd : s.segmentOf d = none) : ExcludesExactly s (received ++ [d]) (exclude.excludeOne (s.component d)) := by
  intro c
  rw [Exclude.isExcluded_excludeOne, h c]
  constructor
  · rintro (⟨d', hd', hstray⟩ | rfl)
    · exact ⟨d', List.mem_append_left _ hd', hstray⟩
    · exact ⟨d, List.mem_append_right _ (List.mem_singleton_self d), hd, rfl⟩
  · rintro ⟨d', hd', hstray, hc⟩
    rcases List.mem_append.1 hd' with hd' | hd'
    · exact .inl ⟨d', hd', hstray, hc⟩
    · rw [List.mem_singleton.1 hd'] at hc
      exact .inr hc.symm

/-- A segment adds nothing to what is excluded. -/
theorem ExcludesExactly.segment {received : List NamedData} {exclude : Exclude}
    (h : ExcludesExactly s received exclude) (hd : (s.segmentOf d).isSome = true) :
    ExcludesExactly s (received ++ [d]) exclude := by
  intro c
  rw [h c]
  constructor
  · rintro ⟨d', hd', hstray⟩
    exact ⟨d', List.mem_append_left _ hd', hstray⟩
  · rintro ⟨d', hd', hstray, hc⟩
    rcases List.mem_append.1 hd' with hd' | hd'
    · exact ⟨d', hd', hstray, hc⟩
    · rw [List.mem_singleton.1 hd'] at hstray
      simp [hstray] at hd

theorem coherent_run (namePrefix : Name) (options : DiscoveryOptions) : Coherent (run namePrefix options) where
  contract := Fetcher.contract_fetch
  fetches := DiscoverVersionIterative.fetches_fetch
  limits := ⟨rfl, rfl⟩
  excluded := excludesExactly_nil
  asked := by
    intro x hx
    obtain rfl : x = ⟨firstInterest namePrefix options, [], false⟩ := by simpa [run, expressInterest, init] using hx
    exact ⟨.empty, excludesExactly_nil, rfl⟩
  signalled := .inl ⟨rfl, fun d hd => by simp [run, expressInterest, init] at hd⟩
  sent := by
    intro _
    simp [run, expressInterest, init, strays, Fetcher.fetch, Fetcher.expressInterest, Fetcher.init]

theorem strays_stray (hd : s.segmentOf d = none) : (s.withStray d).strays = s.strays ++ [d] := by
  show (s.received ++ [d]).filter (fun d => (s.segmentOf d).isNone) = _
  simp [strays, List.filter_append, hd]

theorem strays_segment (hd : (s.segmentOf d).isSome = true) : (s.withSegment d).strays = s.strays := by
  show (s.received ++ [d]).filter (fun d => (s.segmentOf d).isNone) = _
  simp [strays, List.filter_append, Option.isSome_iff_ne_none.1 hd]

/-- The fetcher has gone on to `g`, and repeated its Interest or not. -/
theorem Asking.follow {g : Fetcher Interest NamedData} {retries : ℕ} (h : Asking s) (hg : Follows s g)
    (hexpressed : g.expressed = s.fetcher.expressed ++ List.replicate retries s.current) :
    Asking { s with fetcher := g, sent := s.sent ++ List.replicate retries ⟨s.current, s.received, true⟩ } where
  contract := hg.contract
  fetches := hg.fetches
  limits := ⟨hg.limits.1.trans h.limits.1, hg.limits.2.trans h.limits.2⟩
  excluded := h.excluded
  asked := by
    intro x hx
    rcases List.mem_append.1 hx with hx | hx
    · exact h.asked x hx
    · rw [List.eq_of_mem_replicate hx]
      exact ⟨s.strayExcludes, h.excluded, rfl⟩
  sent := by
    intro hlimit
    have hsent := h.sent hlimit
    have hlen : g.expressed.length = s.fetcher.expressed.length + retries := by simp [hexpressed]
    show ((s.sent ++ List.replicate retries _).length : ℤ) ≤ s.strays.length * _ + g.expressed.length
    rw [List.length_append, List.length_replicate, hlen]
    push_cast
    linarith

theorem Asking.follow_quiet {g : Fetcher Interest NamedData} (h : Asking s) (hg : Follows s g)
    (hexpressed : g.expressed = s.fetcher.expressed) : Asking { s with fetcher := g } := by
  have heq : g.expressed = s.fetcher.expressed ++ List.replicate 0 s.current := by simpa using hexpressed
  simpa using h.follow hg heq

theorem Asking.withSegment (h : Asking s) (hd : (s.segmentOf d).isSome = true) : Asking (s.withSegment d) where
  contract := h.contract
  fetches := h.fetches
  limits := h.limits
  excluded := h.excluded.segment hd
  asked := h.asked
  sent := by
    rw [strays_segment hd]
    exact h.sent

theorem Coherent.stray (h : Coherent s) (hr : s.fetcher.isRunning = true) (hd : s.segmentOf d = none) :
    Coherent (s.withStray d).ask where
  contract := Fetcher.contract_fetch
  fetches := DiscoverVersionIterative.fetches_fetch
  limits := ⟨rfl, rfl⟩
  excluded := h.excluded.stray hd
  asked := by
    intro x hx
    rcases List.mem_append.1 hx with hx | hx
    · exact h.asked x hx
    · rw [List.mem_singleton.1 hx]
      exact ⟨_, h.excluded.stray hd, rfl⟩
  signalled := by
    obtain ⟨hnil, hstrays⟩ := h.going hr
    refine .inl ⟨hnil, fun d' hd' => ?_⟩
    rcases List.mem_append.1 hd' with hd' | hd'
    · exact hstrays d' hd'
    · rw [List.mem_singleton.1 hd']
      exact hd
  sent := by
    intro hlimit
    have hbounded := h.bounded hlimit
    have hlen : (s.withStray d).strays.length = s.strays.length + 1 := by simp [strays_stray hd]
    show ((s.sent ++ [_]).length : ℤ) ≤ (s.withStray d).strays.length * (1 + 2 * s.options.maxRetriesOnTimeoutOrNack) +
      ((1 : ℕ) : ℤ)
    rw [hlen, List.length_append, List.length_singleton]
    push_cast
    linarith

theorem Reaction.coherent (h : Coherent s) (hr : Reaction s e s') : Coherent s' := by
  cases hr with
  | silent quiet follows retries expressed =>
    refine ⟨h.follow follows expressed, ?_⟩
    rcases h.signalled with hs | ⟨signal, hs, hstopped, hended⟩
    · exact .inl hs
    · exact .inr ⟨signal, hs, follows.stopped hstopped, by cases signal <;> exact hended⟩
  | segment d running isSegment follows ended expressed =>
    obtain ⟨hnil, hstrays⟩ := h.going running
    refine ⟨(h.follow_quiet follows expressed).withSegment isSegment, .inr ⟨.success d, ?_, ended, ?_⟩⟩
    · simp [DiscoverVersionFixed.withSegment, emit, hnil]
    · exact ⟨isSegment, s.received, rfl, hstrays⟩
  | stray d running isStray => exact h.stray running isStray
  | failure text running follows ended expressed =>
    obtain ⟨hnil, hstrays⟩ := h.going running
    have hg := h.follow_quiet follows expressed
    exact ⟨⟨hg.contract, hg.fetches, hg.limits, hg.excluded, hg.asked, hg.sent⟩,
      .inr ⟨.failure text, by simp [emit, hnil], ended, hstrays⟩⟩

/-- A packet that the discovery takes is not excluded by the Interest it answers. -/
def Matches (s : DiscoverVersionFixed) : Event → Prop
  | .data i d => s.fetcher.isRunning = true → i.exclude.isExcluded (s.component d) = false
  | _ => True

instance (s : DiscoverVersionFixed) : (e : Event) → Decidable (Matches s e)
  | .data _ _ => inferInstanceAs (Decidable (_ → _))
  | .nack _ _ | .timeout _ | .backoff _ _ | .cancel => .isTrue trivial

/-- A stray that matches the Interest is none of the earlier ones. -/
theorem Reaction.distinct (h : Coherent s) (hn : (s.strays.map s.component).Nodup) (hr : Reaction s e s')
    (hm : Matches s e) : (s'.strays.map s'.component).Nodup := by
  cases hr with
  | silent quiet follows retries expressed => exact hn
  | @segment g d running isSegment follows ended expressed =>
    rw [strays_segment (s := { s with fetcher := g }) isSegment]
    exact hn
  | stray d running isStray =>
    show ((s.withStray d).strays.map s.component).Nodup
    rw [strays_stray isStray, List.map_append, List.map_singleton, List.nodup_append]
    refine ⟨hn, List.nodup_singleton _, ?_⟩
    rintro c hc _ hd rfl
    obtain ⟨d', hd', rfl⟩ := List.mem_map.1 hc
    obtain ⟨hreceived, hstray⟩ := List.mem_filter.1 hd'
    have hexcluded := (h.excluded (s.component d')).2 ⟨d', hreceived, by simpa using hstray, rfl⟩
    rw [List.mem_singleton.1 hd] at hexcluded
    exact absurd (hexcluded.symm.trans (hm running)) (by simp)
  | failure text running follows ended expressed => exact hn

/-- In every run each Interest excludes exactly the strays received before it, the discovery ends once
at most, with the first segment or with a failure before any, and the Interests are bounded by the
strays and the retries; and if packets match their Interests, no stray is received twice. -/
theorem discovers_fixed (namePrefix : Name) (options : DiscoveryOptions) {es : List Event}
    (hr : machine.Runs (run namePrefix options) es) :
    machine.Always Discovers (run namePrefix options) es ∧
    (machine.Each Matches (run namePrefix options) es →
      machine.Always (fun s => (s.strays.map s.component).Nodup) (run namePrefix options) es) := by
  have hreact : ∀ {s e}, Coherent s → enabled s e → Reaction s e (step s e) :=
    fun hs he => step_reaction hs.contract hs.fetches he
  have hstart := coherent_run namePrefix options
  constructor
  · have hinv : machine.Always Coherent (run namePrefix options) es :=
      Machine.always_of_step (fun _ _ hs he => (hreact hs he).coherent hs) hstart hr
    exact hinv.imp fun _ hs => hs.discovers
  · intro hm
    have hinv : machine.Always (fun s => Coherent s ∧ (s.strays.map s.component).Nodup) (run namePrefix options) es :=
      Machine.always_of_inv (fun _ _ hs he hme =>
        ⟨(hreact hs.1 he).coherent hs.1, (hreact hs.1 he).distinct hs.1 hs.2 hme⟩) ⟨hstart, List.nodup_nil⟩ hr hm
    exact hinv.imp fun _ hs => hs.2

omit [Conventions] in
/-- A stray, which the second Interest excludes, and then a segment. -/
theorem discovers_fixed_stray :
    letI := documented
    let options : DiscoveryOptions := ⟨4000, false, 3, 1⟩
    let i := firstInterest ["video", [0xFD, 5]] options
    let i' := { i with exclude := ⟨[], ["notes"]⟩ }
    let es : List Event :=
      [.data i ⟨["video", [0xFD, 5], "notes"], []⟩, .timeout i', .data i' ⟨["video", [0xFD, 5], [0x00, 0]], []⟩]
    machine.Always Discovers (run ["video", [0xFD, 5]] options) es ∧
      machine.Always (fun s => (s.strays.map s.component).Nodup) (run ["video", [0xFD, 5]] options) es := by
  let := documented
  exact (discovers_fixed _ _ (by decide)).imp id fun h => h (by decide)

end DiscoverVersionFixed

end NdnTools.Chunks
