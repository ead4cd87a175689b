/-
What one event does to an iterative discovery (`Reaction`), and what holds in every state of a run
whatever is received (`Coherent`): the recorded version is one that was received, the strays are the
other components received, and nothing happens after a signal.
-/
import NdnTools.Chunks.Discovery.Model

namespace NdnTools.Chunks.DiscoverVersionIterative

open Fetcher

variable {s : DiscoverVersionIterative} {interest : Interest} {d : NamedData}

theorem fetcher_enabled {e : Event} (he : enabled s e) : s.fetcher.enabled e := by
  cases e with
  | data => exact he.1
  | cancel => exact he.elim
  | nack => exact he
  | timeout => exact he
  | backoff => exact he

theorem updateFetcher_eq {g : Fetcher Interest NamedData} (h : g.expressed = s.fetcher.expressed) :
    updateFetcher g s = { s with fetcher := g } := by
  simp [updateFetcher, h]

/-- A fetcher that has called back does not run any more. -/
theorem ended_of_invoked {f g : Fetcher Interest NamedData} {call : Callback Interest NamedData}
    (hg : g.Contract) (h : f.invoked g = some call) : g.isRunning = false := by
  by_contra hrun
  have hcalls := hg.running (by simpa using hrun)
  simp [invoked, hcalls] at h

theorem fetches_fetch {maxNack maxTimeout : ℤ} :
    (Fetcher.fetch interest maxNack maxTimeout true true : Fetcher Interest NamedData).Fetches interest where
  outstanding := by
    intro i hi
    simpa [Fetcher.fetch, Fetcher.expressInterest, Fetcher.init] using hi
  timers := by
    intro t ht
    simp [Fetcher.fetch, Fetcher.expressInterest, Fetcher.init] at ht
  onNack := rfl
  onTimeout := rfl

variable [Conventions]

/-! ## The three ways of `handleData` -/

/-- The strays once `d` is one of them. -/
def straysWith (s : DiscoverVersionIterative) (d : NamedData) : Exclude :=
  s.strayExcludes.excludeOne (s.versionComponent d)

/-- The state in which `d` is the latest version. -/
def withVersion (s : DiscoverVersionIterative) (d : NamedData) (version : ℕ) : DiscoverVersionIterative :=
  { s with
    received := s.received ++ [d], latestVersion := version, latestVersionData := some d, foundVersion := true }

def withStray (s : DiscoverVersionIterative) (d : NamedData) : DiscoverVersionIterative :=
  { s with received := s.received ++ [d], strayExcludes := s.straysWith d }

/-- The Interest that follows the version `d`. -/
def afterVersion (interest : Interest) (s : DiscoverVersionIterative) (d : NamedData) : Interest :=
  { interest with exclude := (Exclude.empty.excludeBefore (s.versionComponent d)).excludeAll s.strayExcludes }

/-- The Interest that follows a stray once a version is known. -/
def afterStray (interest : Interest) (s : DiscoverVersionIterative) (d : NamedData) : Interest :=
  { interest with exclude := Exclude.empty.excludeAll (s.straysWith d) }

theorem noteData_version {v : ℕ} (h : s.versionOf d = some v) :
    noteData d { s with received := s.received ++ [d] } = s.withVersion d v := by
  have hv : versionOf { s with received := s.received ++ [d] } d = some v := h
  simp [noteData, hv, withVersion]

theorem noteData_stray (h : s.versionOf d = none) :
    noteData d { s with received := s.received ++ [d] } = s.withStray d := by
  have hv : versionOf { s with received := s.received ++ [d] } d = none := h
  simp only [noteData, hv]
  rfl

theorem nextExclude_version {v : ℕ} (h : s.versionOf d = some v) :
    s.nextExclude d = (Exclude.empty.excludeBefore (s.versionComponent d)).excludeAll s.strayExcludes := by
  simp [nextExclude, h]

theorem nextExclude_stray (h : s.versionOf d = none) :
    s.nextExclude d = Exclude.empty.excludeAll s.strayExcludes := by
  simp [nextExclude, h]

theorem handleData_version {v : ℕ} (h : s.versionOf d = some v) :
    handleData interest d s = expressInterest (afterVersion interest s d) s.options.maxRetriesOnTimeoutOrNack
      s.options.maxRetriesAfterVersionFound (s.withVersion d v) := by
  have hv : (s.withVersion d v).versionOf d = some v := h
  simp only [handleData, noteData_version h, nextExclude_version hv]
  rfl

theorem handleData_stray_found (h : s.versionOf d = none) (hf : s.foundVersion = true) :
    handleData interest d s = expressInterest (afterStray interest s d) s.options.maxRetriesOnTimeoutOrNack
      s.options.maxRetriesAfterVersionFound (s.withStray d) := by
  have hv : (s.withStray d).versionOf d = none := h
  simp only [handleData, noteData_stray h, nextExclude_stray hv]
  exact if_pos hf

theorem handleData_stray_early (h : s.versionOf d = none) (hf : s.foundVersion = false) :
    handleData interest d s = expressInterest interest s.options.maxRetriesOnTimeoutOrNack
      s.options.maxRetriesOnTimeoutOrNack (s.withStray d) := by
  simp only [handleData, noteData_stray h]
  exact if_neg (by simp [withStray, hf])

/-! ## One step -/

/-- The fetcher after an event that did not make it deliver. -/
structure Follows (interest : Interest) (s : DiscoverVersionIterative) (g : Fetcher Interest NamedData) : Prop where
  contract : g.Contract
  fetches : g.Fetches interest
  stopped : s.fetcher.isRunning = false → g.isRunning = false

/-- What an event does to a discovery whose fetcher fetches `interest`. -/
inductive Reaction (interest : Interest) (s : DiscoverVersionIterative) :
    Event → DiscoverVersionIterative → Prop
  | silent {e : Event} {g : Fetcher Interest NamedData} (quiet : ¬ s.fetcher.CallsBack e)
      (follows : Follows interest s g) (retries : ℕ) :
      Reaction interest s e
        { s with fetcher := g, sent := s.sent ++ List.replicate retries ⟨interest, s.received, true⟩ }
  | version (d : NamedData) (v : ℕ) (running : s.fetcher.isRunning = true) (isVersion : s.versionOf d = some v) :
      Reaction interest s (.data interest d)
        (expressInterest (afterVersion interest s d) s.options.maxRetriesOnTimeoutOrNack
          s.options.maxRetriesAfterVersionFound (s.withVersion d v))
  | strayFound (d : NamedData) (running : s.fetcher.isRunning = true) (isStray : s.versionOf d = none)
      (found : s.foundVersion = true) :
      Reaction interest s (.data interest d)
        (expressInterest (afterStray interest s d) s.options.maxRetriesOnTimeoutOrNack
          s.options.maxRetriesAfterVersionFound (s.withStray d))
  | strayEarly (d : NamedData) (running : s.fetcher.isRunning = true) (isStray : s.versionOf d = none)
      (found : s.foundVersion = false) :
      Reaction interest s (.data interest d)
        (expressInterest interest s.options.maxRetriesOnTimeoutOrNack
          s.options.maxRetriesOnTimeoutOrNack (s.withStray d))
  | nack {g : Fetcher Interest NamedData} (reason : NackReason) (text : String)
      (running : s.fetcher.isRunning = true) (ends : s.fetcher.NackEnds reason)
      (follows : Follows interest s g) (ended : g.isRunning = false) :
      Reaction interest s (.nack interest reason) (handleNack text { s with fetcher := g })
  | timeout {g : Fetcher Interest NamedData} (text : String)
      (running : s.fetcher.isRunning = true) (ends : s.fetcher.TimeoutEnds)
      (follows : Follows interest s g) (ended : g.isRunning = false) :
      Reaction interest s (.timeout interest) (handleTimeout text { s with fetcher := g })

theorem step_reaction (hc : s.fetcher.Contract) (hf : s.fetcher.Fetches interest) {e : Event} (he : enabled s e) :
    Reaction interest s e (step s e) := by
  have hfe := fetcher_enabled he
  have hfollows : Follows interest s (s.fetcher.step e) :=
    ⟨step_contract hc e hfe, step_fetches hf e hfe, fun hr => by rw [(step_ended hc hr e hfe).2.flags, hr]⟩
  unfold step
  dsimp only
  cases step_outcome hc hf e hfe with
  | silent quiet none retries expressed =>
    rw [none]
    simpa [callback, updateFetcher, expressed] using Reaction.silent quiet hfollows retries
  | data d running call expressed =>
    rw [call, updateFetcher_eq expressed]
    let s' := { s with fetcher := s.fetcher.step (.data interest d) }
    show Reaction interest s _ (handleData interest d s')
    -- the fetcher that has delivered is replaced by the next one
    cases hv : s.versionOf d with
    | some v =>
      rw [handleData_version (s := s') hv]
      exact .version d v running hv
    | none =>
      cases hfound : s.foundVersion with
      | true =>
        rw [handleData_stray_found (s := s') hv hfound]
        exact .strayFound d running hv hfound
      | false =>
        rw [handleData_stray_early (s := s') hv hfound]
        exact .strayEarly d running hv hfound
  | nack reason text running ends call expressed =>
    rw [call, updateFetcher_eq expressed]
    exact .nack reason text running ends hfollows (ended_of_invoked hfollows.contract call)
  | timeout text running ends call expressed =>
    rw [call, updateFetcher_eq expressed]
    exact .timeout text running ends hfollows (ended_of_invoked hfollows.contract call)

/-! ## What is recorded -/

/-- The fields agree with what was received. -/
structure Recorded (s : DiscoverVersionIterative) : Prop where
  found : s.foundVersion = true ↔ ∃ d ∈ s.received, (s.versionOf d).isSome = true
  latest : s.foundVersion = true →
    ∃ d ∈ s.received, s.latestVersionData = some d ∧ s.versionOf d = some s.latestVersion
  strays : ∀ c, s.strayExcludes.isExcluded c = true ↔
    ∃ d ∈ s.received, s.versionOf d = none ∧ s.versionComponent d = c
  strayOnes : s.strayExcludes.before = []

theorem Recorded.withVersion {v : ℕ} (h : Recorded s) (hv : s.versionOf d = some v) :
    Recorded (s.withVersion d v) where
  found := by
    refine ⟨fun _ => ⟨d, List.mem_append_right _ (List.mem_singleton_self d), ?_⟩, fun _ => rfl⟩
    exact Option.isSome_of_mem hv
  latest := fun _ => ⟨d, List.mem_append_right _ (List.mem_singleton_self d), rfl, hv⟩
  strays := by
    intro c
    rw [show (s.withVersion d v).strayExcludes.isExcluded c = s.strayExcludes.isExcluded c from rfl, h.strays c]
    constructor
    · rintro ⟨d', hd', hs⟩
      exact ⟨d', List.mem_append_left _ hd', hs⟩
    · rintro ⟨d', hd', hn, hc⟩
      rcases List.mem_append.1 hd' with hd' | hd'
      · exact ⟨d', hd', hn, hc⟩
      · obtain rfl := List.mem_singleton.1 hd'
        exact absurd (hn.symm.trans hv) (by simp)
  strayOnes := h.strayOnes

theorem Recorded.withStray (h : Recorded s) (hv : s.versionOf d = none) : Recorded (s.withStray d) where
  found := by
    rw [show (s.withStray d).foundVersion = s.foundVersion from rfl, h.found]
    constructor
    · rintro ⟨d', hd', hs⟩
      exact ⟨d', List.mem_append_left _ hd', hs⟩
    · rintro ⟨d', hd', hs⟩
      rcases List.mem_append.1 hd' with hd' | hd'
      · exact ⟨d', hd', hs⟩
      · obtain rfl := List.mem_singleton.1 hd'
        have hnone : (s.withStray d').versionOf d' = none := hv
        simp [hnone] at hs
  latest := by
    intro hf
    obtain ⟨d', hd', hs⟩ := h.latest hf
    exact ⟨d', List.mem_append_left _ hd', hs⟩
  strays := by
    intro c
    have hex : (s.withStray d).strayExcludes.isExcluded c = true ↔
        s.strayExcludes.isExcluded c = true ∨ c = s.versionComponent d := Exclude.isExcluded_excludeOne
    rw [hex, h.strays c]
    constructor
    · rintro (⟨d', hd', hs⟩ | rfl)
      · exact ⟨d', List.mem_append_left _ hd', hs⟩
      · exact ⟨d, List.mem_append_right _ (List.mem_singleton_self d), hv, rfl⟩
    · rintro ⟨d', hd', hn, hc⟩
      rcases List.mem_append.1 hd' with hd' | hd'
      · exact Or.inl ⟨d', hd', hn, hc⟩
      · obtain rfl := List.mem_singleton.1 hd'
        exact Or.inr hc.symm
  strayOnes := by
    show (s.strayExcludes.excludeOne _).before = []
    unfold Exclude.excludeOne
    split
    · exact h.strayOnes
    · exact h.strayOnes

/-- The excluded strays are single components. -/
theorem Recorded.mem_ones (h : Recorded s) (c : Component) :
    c ∈ s.strayExcludes.ones ↔ ∃ d ∈ s.received, s.versionOf d = none ∧ s.versionComponent d = c := by
  rw [← h.strays c, Exclude.isExcluded_iff, h.strayOnes]
  simp

/-- What holds in every state of a run; the fetcher at work fetches `interest`. -/
structure Coherent (interest : Interest) (s : DiscoverVersionIterative) : Prop where
  contract : s.fetcher.Contract
  fetches : s.fetcher.Fetches interest
  recorded : Recorded s
  signalled : s.signals = [] ∨ s.fetcher.isRunning = false ∧ s.signals.length = 1

theorem Recorded.expressInterest {maxNack maxTimeout : ℤ} (h : Recorded s) (hs : s.signals = []) :
    Coherent interest (s.expressInterest interest maxNack maxTimeout) where
  contract := contract_fetch
  fetches := fetches_fetch
  recorded := ⟨h.found, h.latest, h.strays, h.strayOnes⟩
  signalled := Or.inl hs

theorem coherent_run (namePrefix : Name) (options : DiscoveryOptions) :
    Coherent (firstInterest namePrefix options) (run namePrefix options) := by
  refine Recorded.expressInterest ?_ rfl
  constructor
  · simp [init]
  · simp [init]
  · simp [init]
  · rfl

theorem Coherent.signals_nil (h : Coherent interest s) (hr : s.fetcher.isRunning = true) : s.signals = [] := by
  rcases h.signalled with hs | ⟨hs, -⟩
  · exact hs
  · exact absurd (hr.symm.trans hs) (by simp)

/-- The discovery's fetcher has gone on to `g`. -/
theorem Coherent.follow {g : Fetcher Interest NamedData} (h : Coherent interest s) (hg : Follows interest s g)
    (sent : List SentInterest) : Coherent interest { s with fetcher := g, sent := sent } where
  contract := hg.contract
  fetches := hg.fetches
  recorded := ⟨h.recorded.found, h.recorded.latest, h.recorded.strays, h.recorded.strayOnes⟩
  signalled := h.signalled.imp_right fun hs => ⟨hg.stopped hs.1, hs.2⟩

theorem Coherent.emit {g : Fetcher Interest NamedData} (h : Coherent interest s) (hg : Follows interest s g)
    (hr : s.fetcher.isRunning = true) (hended : g.isRunning = false) (signal : Signal) :
    Coherent interest (emit signal { s with fetcher := g }) where
  contract := hg.contract
  fetches := hg.fetches
  recorded := ⟨h.recorded.found, h.recorded.latest, h.recorded.strays, h.recorded.strayOnes⟩
  signalled := Or.inr ⟨hended, by simp [DiscoverVersionIterative.emit, h.signals_nil hr]⟩

/-- A timeout that ends the fetcher reports the latest version, if there is one. -/
theorem handleTimeout_eq (h : Recorded s) (text : String) :
    (s.foundVersion = true ∧ ∃ d ∈ s.received, s.latestVersionData = some d ∧
        s.versionOf d = some s.latestVersion ∧ handleTimeout text s = emit (.success d) s) ∨
    s.foundVersion = false ∧ handleTimeout text s = emit (.failure text) s := by
  by_cases hf : s.foundVersion = true
  · obtain ⟨d, hd, hlatest, hv⟩ := h.latest hf
    exact Or.inl ⟨hf, d, hd, hlatest, hv, by simp [handleTimeout, hf, hlatest]⟩
  · exact Or.inr ⟨by simpa using hf, by simp [handleTimeout, hf]⟩

/-- One signal in either case. -/
theorem Recorded.handleTimeout_emits (h : Recorded s) (g : Fetcher Interest NamedData) (text : String) :
    ∃ signal, handleTimeout text { s with fetcher := g } = emit signal { s with fetcher := g } := by
  have hg : Recorded { s with fetcher := g } := ⟨h.found, h.latest, h.strays, h.strayOnes⟩
  rcases handleTimeout_eq hg text with ⟨-, d, -, -, -, heq⟩ | ⟨-, heq⟩
  · exact ⟨_, heq⟩
  · exact ⟨_, heq⟩

end NdnTools.Chunks.DiscoverVersionIterative
