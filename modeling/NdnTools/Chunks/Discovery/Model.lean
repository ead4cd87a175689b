/-
Iterative version discovery (`discover-version.cpp`, `discover-version-iterative.cpp`): one
`DataFetcher` after the other asks for the Data with the greatest name component below the prefix,
excluding what was seen before, until a timeout ends the search.

`received` and `sent` record what a run did; no operation reads them.
-/
import NdnTools.Chunks.DataFetcher.Outcome
import NdnTools.Chunks.Discovery.Exclude

namespace NdnTools.Chunks

structure Interest where
  name : Name
  interestLifetime : ℕ
  mustBeFresh : Bool
  minSuffixComponents : ℕ
  maxSuffixComponents : ℕ
  childSelector : ℕ
  exclude : Exclude
  deriving Repr, DecidableEq

/-- A Data packet, of which discovery reads the name only. -/
structure NamedData where
  name : Name
  content : Bytes
  deriving Repr, DecidableEq

/-- The options that discovery reads. -/
structure DiscoveryOptions where
  interestLifetime : ℕ
  mustBeFresh : Bool
  maxRetriesOnTimeoutOrNack : ℤ
  maxRetriesAfterVersionFound : ℤ
  deriving Repr, DecidableEq

/-- `onDiscoverySuccess` and `onDiscoveryFailure`. -/
inductive Signal
  | success (data : NamedData)
  | failure (reason : String)
  deriving Repr, DecidableEq

/-- An Interest that was sent: what had been received by then, and whether it repeats the one before. -/
structure SentInterest where
  interest : Interest
  received : List NamedData
  isRetry : Bool
  deriving Repr, DecidableEq

structure DiscoverVersionIterative where
  namePrefix : Name
  options : DiscoveryOptions
  latestVersion : ℕ
  latestVersionData : Option NamedData
  strayExcludes : Exclude
  foundVersion : Bool
  fetcher : Fetcher Interest NamedData
  signals : List Signal
  received : List NamedData
  sent : List SentInterest
  deriving Repr, DecidableEq

namespace DiscoverVersionIterative

/-- `name[m_prefix.size()]`. -/
def versionComponent (s : DiscoverVersionIterative) (data : NamedData) : Component :=
  data.name.getD s.namePrefix.length []

variable [Conventions]

/-- The version of a Data packet, if it has one where discovery looks for it. -/
def versionOf (s : DiscoverVersionIterative) (data : NamedData) : Option ℕ :=
  Conventions.version (s.versionComponent data)

/-- The segment number after the version, which `PipelineInterests::run` reads from the name. -/
def segmentOf (s : DiscoverVersionIterative) (data : NamedData) : Option ℕ :=
  data.name[s.namePrefix.length + 1]?.bind Conventions.segment

/-- `DiscoverVersion::expressInterest`. -/
def expressInterest (interest : Interest) (maxRetriesNack maxRetriesTimeout : ℤ) (s : DiscoverVersionIterative) :
    DiscoverVersionIterative :=
  { s with
    fetcher := .fetch interest maxRetriesNack maxRetriesTimeout true true
    sent := s.sent ++ [⟨interest, s.received, false⟩] }

/-- The Interest of `run`. -/
def firstInterest (namePrefix : Name) (options : DiscoveryOptions) : Interest where
  name := namePrefix
  interestLifetime := options.interestLifetime
  mustBeFresh := options.mustBeFresh
  minSuffixComponents := 3
  maxSuffixComponents := 3
  childSelector := 1
  exclude := .empty

/-- The constructor. -/
def init (namePrefix : Name) (options : DiscoveryOptions) : DiscoverVersionIterative where
  namePrefix := namePrefix
  options := options
  latestVersion := 0
  latestVersionData := none
  strayExcludes := .empty
  foundVersion := false
  fetcher := .init options.maxRetriesOnTimeoutOrNack options.maxRetriesOnTimeoutOrNack true true
  signals := []
  received := []
  sent := []

def run (namePrefix : Name) (options : DiscoveryOptions) : DiscoverVersionIterative :=
  expressInterest (firstInterest namePrefix options) options.maxRetriesOnTimeoutOrNack
    options.maxRetriesOnTimeoutOrNack (init namePrefix options)

/-- The packet is a version, or its component is excluded from now on. -/
def noteData (data : NamedData) (s : DiscoverVersionIterative) : DiscoverVersionIterative :=
  match s.versionOf data with
  | some version =>
    { s with latestVersion := version, latestVersionData := some data, foundVersion := true }
  | none => { s with strayExcludes := s.strayExcludes.excludeOne (s.versionComponent data) }

/-- The Exclude that `handleData` builds, once the packet is noted. -/
def nextExclude (data : NamedData) (s : DiscoverVersionIterative) : Exclude :=
  let exclude := match s.versionOf data with
    | some _ => Exclude.empty.excludeBefore (s.versionComponent data)
    | none => .empty
  exclude.excludeAll s.strayExcludes

def handleData (interest : Interest) (data : NamedData) (s : DiscoverVersionIterative) :
    DiscoverVersionIterative :=
  let s := noteData data { s with received := s.received ++ [data] }
  let newInterest := { interest with exclude := s.nextExclude data }
  if s.foundVersion then
    expressInterest newInterest s.options.maxRetriesOnTimeoutOrNack s.options.maxRetriesAfterVersionFound s
  else
    -- `interest`, not `newInterest`
    expressInterest interest s.options.maxRetriesOnTimeoutOrNack s.options.maxRetriesOnTimeoutOrNack s

def emit (signal : Signal) (s : DiscoverVersionIterative) : DiscoverVersionIterative :=
  { s with signals := s.signals ++ [signal] }

/-- `DiscoverVersion::handleNack`, which the iterative discovery does not override. -/
def handleNack (reason : String) (s : DiscoverVersionIterative) : DiscoverVersionIterative :=
  emit (.failure reason) s

def handleTimeout (reason : String) (s : DiscoverVersionIterative) : DiscoverVersionIterative :=
  if s.foundVersion then
    match s.latestVersionData with
    | some data => emit (.success data) s
    | none => s
  else emit (.failure reason) s

/-! ## Runs -/

/-- What happens to the fetcher happens to the discovery. -/
abbrev Event := Fetcher.Event Interest NamedData

instance : ToUri Interest := ⟨fun interest => Conventions.toUri interest.name⟩

/-- The fetcher has become `fetcher`, and has repeated its Interest or not. -/
def updateFetcher (fetcher : Fetcher Interest NamedData) (s : DiscoverVersionIterative) : DiscoverVersionIterative :=
  { s with
    fetcher := fetcher
    sent := s.sent ++
      (fetcher.expressed.drop s.fetcher.expressed.length).map fun interest => ⟨interest, s.received, true⟩ }

/-- The callback that the fetcher invoked. -/
def callback (call : Option (Callback Interest NamedData)) (s : DiscoverVersionIterative) :
    DiscoverVersionIterative :=
  match call with
  | none => s
  | some (.onData interest data) => handleData interest data s
  | some (.onNack _ reason) => handleNack reason s
  | some (.onTimeout _ reason) => handleTimeout reason s

def step (s : DiscoverVersionIterative) (e : Event) : DiscoverVersionIterative :=
  let fetcher := s.fetcher.step e
  callback (s.fetcher.invoked fetcher) (updateFetcher fetcher s)

/-- The Face delivers Data below the prefix only, and nobody cancels the fetcher. -/
def enabled (s : DiscoverVersionIterative) : Event → Prop
  | .data interest d =>
    s.fetcher.enabled (.data interest d) ∧ s.namePrefix <+: d.name ∧ s.namePrefix.length < d.name.length
  | .cancel => False
  | e => s.fetcher.enabled e

instance (s : DiscoverVersionIterative) (e : Event) : Decidable (enabled s e) := by
  cases e <;> unfold enabled <;> infer_instance

def machine : Machine DiscoverVersionIterative Event := ⟨enabled, step⟩

instance (s : DiscoverVersionIterative) (e : Event) : Decidable (machine.enabled s e) :=
  inferInstanceAs (Decidable (enabled s e))

end DiscoverVersionIterative

end NdnTools.Chunks
