/-
The fixed-window pipeline of catchunks (`pipeline-interests-fixed-window.cpp`). Every slot of the
window holds the `DataFetcher` of one segment and the segment's number; a slot is given to the next
segment when its fetcher has delivered. A fetcher ends by delivering, by failing or by being
cancelled, and calls nothing after that.

`requested`, `replaced`, `failed` and `assertHeld` record what a run did; no operation reads them.
-/
import NdnTools.Chunks.PipelineInterests
import NdnTools.Chunks.DataFetcher.Model
import NdnTools.Lib.Run

namespace NdnTools.Chunks

/-- An entry of `m_segmentFetchers`: the fetcher, if the slot was ever used, and its segment. -/
abbrev Slot := Option DataFetcher × ℕ

namespace Slot

def isRunning (slot : Slot) : Bool := slot.1.any DataFetcher.isRunning

def hasError (slot : Slot) : Bool := slot.1.any DataFetcher.hasError

def cancel (slot : Slot) : Slot := (slot.1.map DataFetcher.cancel, slot.2)

/-- What the loops over the slots do to one of them: a fetcher beyond the segment is cancelled. -/
def cancelBeyond (segNo : ℕ) (slot : Slot) : Slot := if segNo < slot.2 then slot.cancel else slot

/-- The slot is beyond the segment, or its fetcher has ended. -/
def doneBeyond (segNo : ℕ) (slot : Slot) : Bool := segNo < slot.2 || !slot.isRunning

end Slot

structure FixedWindow extends PipelineInterests where
  maxPipelineSize : ℕ
  segmentFetchers : List Slot
  nextSegmentNo : ℕ
  hasFailure : Bool
  /-- The segments requested, each with the last segment number if it was known then. -/
  requested : List (ℕ × Option ℕ)
  /-- The slots' contents that were given up for another segment. -/
  replaced : List Slot
  /-- The segments whose fetcher failed. -/
  failed : List ℕ
  /-- The assertion of `fetchNextSegment` held each time it was reached. -/
  assertHeld : Bool
  deriving Repr, DecidableEq

namespace FixedWindow

/-- The slot `pipeNo`. -/
def slotAt (s : FixedWindow) (pipeNo : ℕ) : Slot := s.segmentFetchers.getD pipeNo (none, 0)

/-! ## The base class's operations -/

def onData (data : Data) (s : FixedWindow) : FixedWindow :=
  { s with toPipelineInterests := s.toPipelineInterests.onData data }

/-- `doCancel`: every fetcher is cancelled and the slots are dropped. -/
def doCancel (s : FixedWindow) : FixedWindow :=
  { s with
    replaced := s.replaced ++ s.segmentFetchers.map Slot.cancel
    segmentFetchers := [] }

def cancel (s : FixedWindow) : FixedWindow :=
  if s.isStopping then s else doCancel { s with isStopping := true }

def onFailure (reason : String) (s : FixedWindow) : FixedWindow :=
  if s.isStopping then s else
    let s := cancel s
    { s with failures := s.failures ++ [reason] }

/-! ## The pipeline -/

def noFinalSegment : String := "Fetching terminated but no final segment number has been found"

/-- Gives the slot `pipeNo` to a new fetcher for `m_nextSegmentNo`. -/
def request (pipeNo : ℕ) (s : FixedWindow) : FixedWindow :=
  { s with
    requested := s.requested ++
      [(s.nextSegmentNo, if s.hasFinalBlockId then some s.lastSegmentNo else none)]
    assertHeld := s.assertHeld && !(s.slotAt pipeNo).isRunning
    replaced := s.replaced ++ [s.slotAt pipeNo]
    segmentFetchers := s.segmentFetchers.set pipeNo (some .fetch, s.nextSegmentNo)
    nextSegmentNo := s.nextSegmentNo + 1 }

/-- `if (m_nextSegmentNo == m_excludedSegmentNo) m_nextSegmentNo++`. -/
def skipExcluded (s : FixedWindow) : FixedWindow :=
  if s.nextSegmentNo = s.excludedSegmentNo then { s with nextSegmentNo := s.nextSegmentNo + 1 } else s

def fetchNextSegment (pipeNo : ℕ) (s : FixedWindow) : Bool × FixedWindow :=
  if s.isStopping then (false, s)
  else if s.hasFailure then (false, onFailure noFinalSegment s)
  else
    let s := skipExcluded s
    if s.beyond s.nextSegmentNo then (false, s)
    else (true, request pipeNo s)

/-- The loop of `doRun` over the slots from `pipeNo` on. -/
def requestLoop : (remaining pipeNo : ℕ) → FixedWindow → FixedWindow
  | 0, _, s => s
  | n + 1, pipeNo, s =>
    match fetchNextSegment pipeNo s with
    | (false, s) => s
    | (true, s) => requestLoop n (pipeNo + 1) s

def doRun (s : FixedWindow) : FixedWindow := requestLoop s.maxPipelineSize 0 s

/-- The constructor and the part of `PipelineInterests::run` before `doRun`. -/
def init (maxPipelineSize : ℕ) (data : Data) : FixedWindow where
  toPipelineInterests := .setup data
  maxPipelineSize := maxPipelineSize
  segmentFetchers := List.replicate maxPipelineSize (none, 0)
  nextSegmentNo := 0
  hasFailure := false
  requested := []
  replaced := []
  failed := []
  assertHeld := true

/-- `PipelineInterests::run` with the discovered packet. -/
def run (maxPipelineSize : ℕ) (data : Data) : FixedWindow := doRun (init maxPipelineSize data)

/-- The loop of `handleData` over the fetchers once the last segment is known: fetchers beyond it
are cancelled; the first failed fetcher of the content ends the loop. -/
def stopBeyond (lastSegmentNo : ℕ) : List Slot → List Slot × Option ℕ
  | [] => ([], none)
  | slot :: slots =>
    if slot.1 = none then
      (slot :: (stopBeyond lastSegmentNo slots).1, (stopBeyond lastSegmentNo slots).2)
    else if slot.2 > lastSegmentNo then
      (slot.cancel :: (stopBeyond lastSegmentNo slots).1, (stopBeyond lastSegmentNo slots).2)
    else if slot.hasError then (slot :: slots, some slot.2)
    else (slot :: (stopBeyond lastSegmentNo slots).1, (stopBeyond lastSegmentNo slots).2)

def retrievalFailure (segNo : ℕ) : String := "Failure retrieving segment #" ++ toString segNo

def handleData (data : Data) (pipeNo : ℕ) (s : FixedWindow) : FixedWindow :=
  if s.isStopping then s else
    let s := onData data s
    match s.hasFinalBlockId, data.finalBlockId with
    | false, some last =>
      let (fetchers, error) := stopBeyond last s.segmentFetchers
      let s := { s with lastSegmentNo := last, hasFinalBlockId := true, segmentFetchers := fetchers }
      match error with
      | some segNo => onFailure (retrievalFailure segNo) s
      | none => (fetchNextSegment pipeNo s).2
    | _, _ => (fetchNextSegment pipeNo s).2

def handleFail (reason : String) (pipeNo : ℕ) (s : FixedWindow) : FixedWindow :=
  if s.isStopping then s
  else
    let segNo := (s.slotAt pipeNo).2
    if s.hasFinalBlockId ∧ segNo ≤ s.lastSegmentNo then onFailure reason s
    else if s.hasFinalBlockId then s
    else
      let areAllFetchersStopped := s.segmentFetchers.all (Slot.doneBeyond segNo)
      let s := { s with segmentFetchers := s.segmentFetchers.map (Slot.cancelBeyond segNo) }
      if areAllFetchersStopped then onFailure noFinalSegment s else { s with hasFailure := true }

/-! ## Runs -/

/-- What can happen to a pipeline: the fetcher of a slot ends with a packet or with a failure, or
the pipeline is cancelled from outside. -/
inductive Event
  | data (pipeNo : ℕ) (d : Data)
  | fail (pipeNo : ℕ) (reason : String)
  | cancel
  deriving Repr, DecidableEq

/-- The fetcher of slot `pipeNo` ends with the flags of `f`. -/
def endFetcher (f : DataFetcher) (pipeNo : ℕ) (s : FixedWindow) : FixedWindow :=
  { s with segmentFetchers := s.segmentFetchers.set pipeNo (some f, (s.slotAt pipeNo).2) }

/-- The fetcher of slot `pipeNo` has failed. -/
def failSlot (pipeNo : ℕ) (s : FixedWindow) : FixedWindow :=
  { endFetcher ⟨false, true⟩ pipeNo s with failed := s.failed ++ [(s.slotAt pipeNo).2] }

def step (s : FixedWindow) : Event → FixedWindow
  | .data pipeNo d => handleData d pipeNo (endFetcher ⟨true, false⟩ pipeNo s)
  | .fail pipeNo reason => handleFail reason pipeNo (failSlot pipeNo s)
  | .cancel => cancel s

/-- Only a running fetcher ends, and a packet answers its fetcher's Interest. -/
def enabled (s : FixedWindow) : Event → Prop
  | .data pipeNo d => (s.slotAt pipeNo).isRunning = true ∧ d.segmentNo = (s.slotAt pipeNo).2
  | .fail pipeNo _ => (s.slotAt pipeNo).isRunning = true
  | .cancel => True

instance (s : FixedWindow) (e : Event) : Decidable (enabled s e) := by
  cases e <;> unfold enabled <;> infer_instance

def machine : Machine FixedWindow Event := ⟨enabled, step⟩

end FixedWindow

end NdnTools.Chunks
