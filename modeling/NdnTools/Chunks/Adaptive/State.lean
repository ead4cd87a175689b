/-
The state of the adaptive pipelines of catchunks (`pipeline-interests-aimd.cpp`, `-cubic.cpp`,
`-tcpbic.cpp`), which share their members up to the congestion control, and the Face as far as they
use it: the Interests that are pending, each under the id `expressInterest` returned.

Time is in milliseconds. The counters are natural numbers, with no upper bound.
-/
import NdnTools.Chunks.PipelineInterests
import NdnTools.Lib.AListWhere
import Mathlib.Data.Rat.Defs

namespace NdnTools.Chunks

abbrev Time := ℚ

inductive SegmentState
  | firstTimeSent
  | inRetxQueue
  | retransmitted
  | retxReceived
  deriving Repr, DecidableEq

/-- An Interest for the segment is on its way: it was sent and has not been given up. -/
def SegmentState.isInFlight : SegmentState → Bool
  | firstTimeSent | retransmitted => true
  | inRetxQueue | retxReceived => false

/-- The segment is still wanted. -/
def SegmentState.isActive : SegmentState → Bool
  | firstTimeSent | retransmitted | inRetxQueue => true
  | retxReceived => false

structure SegmentInfo where
  /-- 0 is the null id. -/
  interestId : ℕ
  state : SegmentState
  rto : Time
  timeSent : Time
  deriving Repr, DecidableEq

/-- A value-initialised entry, as `operator[]` of the map makes it. -/
instance : Inhabited SegmentInfo := ⟨⟨0, .firstTimeSent, 0, 0⟩⟩

abbrev SegmentMap := AList fun _ : ℕ => SegmentInfo

namespace SegmentMap

/-- `m_segmentInfo[segNo]`, read. -/
def infoOf (m : SegmentMap) (segNo : ℕ) : SegmentInfo := (m.lookup segNo).getD default

/-- The entry of the segment is in state `st`. -/
def HasState (m : SegmentMap) (segNo : ℕ) (st : SegmentState) : Prop :=
  ∃ info, m.lookup segNo = some info ∧ info.state = st

/-- The segments in flight. -/
def inFlight (m : SegmentMap) : Finset ℕ := m.keysWhere fun info => info.state.isInFlight

/-- The segments still wanted. -/
def active (m : SegmentMap) : Finset ℕ := m.keysWhere fun info => info.state.isActive

end SegmentMap

/-! ## The Face -/

/-- The pending Interests: the id and the segment of each. -/
structure Face where
  nextId : ℕ
  pending : List (ℕ × ℕ)
  issued : ∀ p ∈ pending, p.1 < nextId
  distinct : (pending.map Prod.fst).Nodup

namespace Face

/-- A Face without Interests; the first id it gives is not null. -/
def start : Face where
  nextId := 1
  pending := []
  issued _ hp := by cases hp
  distinct := List.nodup_nil

def expressInterest (segNo : ℕ) (f : Face) : Face where
  nextId := f.nextId + 1
  pending := f.pending ++ [(f.nextId, segNo)]
  issued p hp := by
    rcases List.mem_append.1 hp with hp | hp
    · exact Nat.lt_succ_of_lt (f.issued p hp)
    · rw [List.mem_singleton.1 hp]; exact Nat.lt_succ_self _
  distinct := by
    rw [List.map_append]
    refine List.nodup_append.2 ⟨f.distinct, List.nodup_singleton _, fun a ha b hb => ?_⟩
    obtain ⟨p, hp, rfl⟩ := List.mem_map.1 ha
    rw [List.mem_singleton.1 hb]
    exact Nat.ne_of_lt (f.issued p hp)

/-- The pending Interests that pass the test `q` stay. -/
def restrict (q : ℕ × ℕ → Bool) (f : Face) : Face where
  nextId := f.nextId
  pending := f.pending.filter q
  issued p hp := f.issued p (List.mem_of_mem_filter hp)
  distinct := (List.filter_sublist.map _).nodup f.distinct

def removePendingInterest (id : ℕ) (f : Face) : Face := f.restrict fun p => p.1 ≠ id

/-- `removePendingInterest` for each of the ids. -/
def removeAll (ids : List ℕ) (f : Face) : Face := f.restrict fun p => p.1 ∉ ids

/-- The segment of a pending Interest. -/
def segmentOf (id : ℕ) (f : Face) : Option ℕ := (f.pending.find? fun p => p.1 = id).map Prod.snd

/-- The ids of the pending Interests for a segment. -/
def idsOf (segNo : ℕ) (f : Face) : List ℕ := (f.pending.filter fun p => p.2 = segNo).map Prod.fst

end Face

/-! ## The pipelines -/

/-- What the congestion control of a pipeline does, on its own part `κ` of the state: the window,
the threshold and the estimators. -/
structure Control (κ : Type) where
  /-- `static_cast<int>(m_cwnd)` -/
  cwnd : κ → ℤ
  increaseWindow : Time → κ → κ
  decreaseWindow : Time → κ → κ
  backoffRto : κ → κ
  getEstimatedRto : κ → Time
  /-- `addMeasurement(segNo, now, rtt, nExpectedSamples)` -/
  addMeasurement : ℕ → Time → Time → ℕ → κ → κ

/-- A pipeline class with its options. `isCubic` marks the two places where the code of
`PipelineInterestsCubic` differs from that of the other two. -/
structure Scheme (κ : Type) extends Control κ where
  isCubic : Bool
  maxRetriesOnTimeoutOrNack : ℤ
  disableCwa : Bool
  /-- The URI of the Interest for a segment. -/
  toUri : ℕ → String

structure Adaptive (κ : Type) extends PipelineInterests where
  control : κ
  nextSegmentNo : ℕ
  highData : ℕ
  highInterest : ℕ
  recPoint : ℕ
  nInFlight : ℕ
  nReceived : ℕ
  nLossEvents : ℕ
  nRetransmitted : ℕ
  retxQueue : List ℕ
  segmentInfo : SegmentMap
  retxCount : AList fun _ : ℕ => ℕ
  hasFailure : Bool
  failedSegNo : ℕ
  failureReason : String
  face : Face
  /-- The segments given up before the end was known; no operation reads them. -/
  failed : List ℕ
  /-- `handleData` cancelled the pipeline because all segments have been received; not read. -/
  completed : Bool

end NdnTools.Chunks
