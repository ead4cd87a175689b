/-
The operations of the adaptive pipelines. The three classes run the same code but for two places of
`handleData`, so each operation is defined once over a `Scheme`, which names the congestion control
and the options.

Several handlers end with a call of `schedulePackets`; such a handler returns the state in which it
makes that call (`Next.schedulePackets`), and `Next.finish` makes it. The iteration orders of the
unordered maps are free: `checkRto` takes its order as an argument, and nothing else depends on one.
-/
import NdnTools.Chunks.Adaptive.State
import NdnTools.Lib.Loop
import NdnTools.Lib.Run

namespace NdnTools.Chunks.Adaptive

variable {κ : Type}

/-! ## The segment map -/

/-- `m_segmentInfo[segNo]`, changed by `f`. -/
def updateInfo (segNo : ℕ) (f : SegmentInfo → SegmentInfo) (s : Adaptive κ) : Adaptive κ :=
  { s with segmentInfo := s.segmentInfo.insert segNo (f (s.segmentInfo.infoOf segNo)) }

def setState (segNo : ℕ) (st : SegmentState) (s : Adaptive κ) : Adaptive κ :=
  updateInfo segNo (fun info => { info with state := st }) s

def eraseInfo (segNo : ℕ) (s : Adaptive κ) : Adaptive κ := { s with segmentInfo := s.segmentInfo.erase segNo }

/-- `cancelInFlightSegmentsGreaterThan`: every entry that follows is cancelled and erased, and the
counter decremented for each unless it is 0. -/
def cancelInFlightSegmentsGreaterThan (segNo : ℕ) (s : Adaptive κ) : Adaptive κ :=
  { s with
    face := s.face.removeAll (((s.segmentInfo.filterKeys fun n => segNo < n).entries.map fun e => e.2.interestId))
    segmentInfo := s.segmentInfo.filterKeys fun n => n ≤ segNo
    nInFlight := s.nInFlight - s.segmentInfo.keys.countP fun n => segNo < n }

/-! ## The base class's operations -/

def onData (data : Data) (s : Adaptive κ) : Adaptive κ :=
  { s with toPipelineInterests := s.toPipelineInterests.onData data }

def doCancel (s : Adaptive κ) : Adaptive κ :=
  { s with
    face := s.face.removeAll (s.segmentInfo.entries.map fun e => e.2.interestId)
    segmentInfo := ∅ }

def cancel (s : Adaptive κ) : Adaptive κ := if s.isStopping then s else doCancel { s with isStopping := true }

def onFailure (reason : String) (s : Adaptive κ) : Adaptive κ :=
  if s.isStopping then s else
    let s := cancel s
    { s with failures := s.failures ++ [reason] }

/-! ## Failures -/

def noFinalSegment : String := "Fetching terminated but no final segment number has been found"

/-- The branch of `handleFail` taken while the last segment is unknown. -/
def giveUp (segNo : ℕ) (reason : String) (s : Adaptive κ) : Adaptive κ :=
  let s := { eraseInfo segNo s with nInFlight := s.nInFlight - 1, failed := s.failed ++ [segNo] }
  if s.segmentInfo.entries = [] then onFailure noFinalSegment s
  else
    -- the failure is kept until the last segment is known
    { cancelInFlightSegmentsGreaterThan segNo s with
      hasFailure := true
      failedSegNo := segNo
      failureReason := reason }

def handleFail (segNo : ℕ) (reason : String) (s : Adaptive κ) : Adaptive κ :=
  if s.isStopping then s
  else if s.hasFinalBlockId ∧ segNo ≤ s.lastSegmentNo then onFailure reason s
  -- a segment after the content is ignored
  else if s.hasFinalBlockId then s
  else giveUp segNo reason s

/-! ## Sending -/

/-- `getNextSegmentNo`: the next number, around the excluded segment. -/
def nextNo (s : Adaptive κ) : ℕ :=
  if s.nextSegmentNo = s.excludedSegmentNo then s.nextSegmentNo + 1 else s.nextSegmentNo

/-- `sendInterest` with a segment's first Interest, past its guards. -/
def sendFirst (sch : Scheme κ) (now : Time) (segNo : ℕ) (s : Adaptive κ) : Adaptive κ :=
  let info : SegmentInfo := ⟨s.face.nextId, .firstTimeSent, sch.getEstimatedRto s.control, now⟩
  { s with
    face := s.face.expressInterest segNo
    nInFlight := s.nInFlight + 1
    highInterest := segNo
    -- `emplace` does not overwrite
    segmentInfo := if segNo ∈ s.segmentInfo then s.segmentInfo else s.segmentInfo.insert segNo info }

/-- `sendInterest` with a retransmission that is within the limit. The new Interest's id is not
stored. -/
def resend (sch : Scheme κ) (now : Time) (segNo : ℕ) (s : Adaptive κ) : Adaptive κ :=
  updateInfo segNo
    (fun info => { info with
      state := .retransmitted
      rto := sch.getEstimatedRto s.control
      timeSent := now })
    { s with
      face := (s.face.removePendingInterest (s.segmentInfo.infoOf segNo).interestId).expressInterest segNo
      nInFlight := s.nInFlight + 1
      nRetransmitted := s.nRetransmitted + 1 }

def tooManyRetries (sch : Scheme κ) (segNo : ℕ) : String :=
  "Reached the maximum number of retries (" ++ toString sch.maxRetriesOnTimeoutOrNack ++
    ") while retrieving segment #" ++ toString segNo

/-- `m_retxCount` with the retransmission of the segment counted. -/
def countRetx (segNo : ℕ) (s : Adaptive κ) : Adaptive κ :=
  { s with retxCount := s.retxCount.insert segNo (((s.retxCount.lookup segNo).getD 0) + 1) }

/-- The segment was retransmitted before, and one more time is over the limit. -/
def Exhausted (sch : Scheme κ) (segNo : ℕ) (s : Adaptive κ) : Prop :=
  ∃ n, s.retxCount.lookup segNo = some n ∧ sch.maxRetriesOnTimeoutOrNack < n + 1

instance (sch : Scheme κ) (segNo : ℕ) (s : Adaptive κ) : Decidable (Exhausted sch segNo s) :=
  match h : s.retxCount.lookup segNo with
  | none => isFalse fun ⟨_, hn, _⟩ => by rw [h] at hn; cases hn
  | some n => decidable_of_iff (sch.maxRetriesOnTimeoutOrNack < n + 1)
      ⟨fun hlt => ⟨n, h, hlt⟩, fun ⟨m, hm, hlt⟩ => by rw [h] at hm; cases hm; exact hlt⟩

def sendInterest (sch : Scheme κ) (now : Time) (segNo : ℕ) (isRetransmission : Bool) (s : Adaptive κ) : Adaptive κ :=
  if s.isStopping then s
  else if s.hasFinalBlockId ∧ s.lastSegmentNo < segNo ∧ isRetransmission = false then s
  -- nothing new is requested while a failure is kept
  else if isRetransmission = false ∧ s.hasFailure then s
  else if isRetransmission then
    if Exhausted sch segNo s then handleFail segNo (tooManyRetries sch segNo) (countRetx segNo s)
    else resend sch now segNo (countRetx segNo s)
  else sendFirst sch now segNo s

/-- `sendInterest(getNextSegmentNo(), false)`. -/
def sendNext (sch : Scheme κ) (now : Time) (s : Adaptive κ) : Adaptive κ :=
  sendInterest sch now (nextNo s) false { s with nextSegmentNo := nextNo s + 1 }

/-- The loop of `schedulePackets`, on `availableWindowSize` and the pipeline. -/
def scheduleLoop (sch : Scheme κ) (now : Time) : Loop (ℤ × Adaptive κ) where
  guard x := 0 < x.1
  body x :=
    match x.2.retxQueue with
    | retxSegNo :: queue =>
      let s := { x.2 with retxQueue := queue }
      -- a segment that was received meanwhile has no entry and uses up no place
      if retxSegNo ∈ s.segmentInfo then (x.1 - 1, sendInterest sch now retxSegNo true s) else (x.1, s)
    | [] => (x.1 - 1, sendNext sch now x.2)

def availableWindowSize (sch : Scheme κ) (s : Adaptive κ) : ℤ := sch.cwnd s.control - s.nInFlight

/-- Every iteration uses up a place of the window or of the queue. -/
def scheduleFuel (sch : Scheme κ) (s : Adaptive κ) : ℕ := (availableWindowSize sch s).toNat + s.retxQueue.length

def schedulePackets (sch : Scheme κ) (now : Time) (s : Adaptive κ) : Adaptive κ :=
  ((scheduleLoop sch now).run (scheduleFuel sch s) (availableWindowSize sch s, s)).2

/-! ## Handlers -/

/-- How a handler ends. -/
inductive Next (κ : Type)
  | done (s : Adaptive κ)
  | schedulePackets (s : Adaptive κ)

def Next.finish (sch : Scheme κ) (now : Time) : Next κ → Adaptive κ
  | .done s => s
  | .schedulePackets s => Adaptive.schedulePackets sch now s

/-- The reaction of `handleTimeout` to a loss, at most once per round trip. -/
def reactToLoss (sch : Scheme κ) (now : Time) (s : Adaptive κ) : Adaptive κ :=
  if sch.disableCwa ∨ s.recPoint < s.highData then
    { s with
      recPoint := s.highInterest
      control := sch.backoffRto (sch.decreaseWindow now s.control)
      nLossEvents := s.nLossEvents + 1 }
  else s

def handleTimeout (sch : Scheme κ) (now : Time) (timeoutCount : ℕ) (s : Adaptive κ) : Next κ :=
  if timeoutCount = 0 then .done s
  else
    let s := reactToLoss sch now s
    .schedulePackets { s with nInFlight := s.nInFlight - timeoutCount }

/-- Puts a segment on the retransmission queue. -/
def requeue (segNo : ℕ) (s : Adaptive κ) : Adaptive κ :=
  setState segNo .inRetxQueue { s with retxQueue := s.retxQueue ++ [segNo] }

def rtoExpired (now : Time) (info : SegmentInfo) : Prop :=
  info.state ≠ .inRetxQueue ∧ info.state ≠ .retxReceived ∧ info.rto < now - info.timeSent

instance (now : Time) (info : SegmentInfo) : Decidable (rtoExpired now info) := inferInstanceAs (Decidable (_ ∧ _))

/-- The loop of `checkRto` over the map: the timed-out segments are queued and counted. -/
def queueExpired (now : Time) : List ℕ → Adaptive κ × ℕ → Adaptive κ × ℕ
  | [], x => x
  | segNo :: order, x =>
    if rtoExpired now (x.1.segmentInfo.infoOf segNo) then queueExpired now order (requeue segNo x.1, x.2 + 1)
    else queueExpired now order x

def checkRto (sch : Scheme κ) (now : Time) (order : List ℕ) (s : Adaptive κ) : Next κ :=
  if s.isStopping then .done s
  else handleTimeout sch now (queueExpired now order (s, 0)).2 (queueExpired now order (s, 0)).1

/-- The end of `handleData` for a segment that counts: sample the round-trip time and erase the
entry, or mark a retransmitted segment as received. -/
def settle (sch : Scheme κ) (now : Time) (segNo : ℕ) (s : Adaptive κ) : Adaptive κ :=
  let info := s.segmentInfo.infoOf segNo
  if info.state = .firstTimeSent ∨ info.state = .inRetxQueue then
    let nExpectedSamples := max ((s.nInFlight + 1) / 2) 1
    eraseInfo segNo
      { s with control := sch.addMeasurement segNo now (now - info.timeSent) nExpectedSamples s.control }
  else setState segNo .retxReceived s

def deliver (sch : Scheme κ) (now : Time) (data : Data) (s : Adaptive κ) : Adaptive κ :=
  onData data { s with control := sch.increaseWindow now s.control }

/-- A segment that has not been received before is counted and handed on. -/
def accept (sch : Scheme κ) (now : Time) (data : Data) (s : Adaptive κ) : Adaptive κ :=
  let info := s.segmentInfo.infoOf data.segmentNo
  let s := { s with
    nInFlight := if info.state ≠ .inRetxQueue then s.nInFlight - 1 else s.nInFlight
    nReceived := s.nReceived + 1 }
  -- `PipelineInterestsCubic` hands the packet on after the entry is settled
  if sch.isCubic then deliver sch now data (settle sch now data.segmentNo s)
  else settle sch now data.segmentNo (deliver sch now data s)

def allReceived (s : Adaptive κ) : Prop := s.hasFinalBlockId = true ∧ s.lastSegmentNo ≤ s.nReceived - 1

instance (s : Adaptive κ) : Decidable s.allReceived := inferInstanceAs (Decidable (_ ∧ _))

/-- All segments have been received: the pipeline stops without a failure. -/
def succeed (s : Adaptive κ) : Adaptive κ := { cancel s with completed := true }

/-- `m_segmentInfo[recvSegNo]`; `PipelineInterestsCubic` returns before it if there is no entry. -/
def receive (sch : Scheme κ) (now : Time) (data : Data) (s : Adaptive κ) : Next κ :=
  let s := { s with highData := max s.highData data.segmentNo }
  if sch.isCubic ∧ data.segmentNo ∉ s.segmentInfo then .done s
  else
    let s := updateInfo data.segmentNo id s
    if (s.segmentInfo.infoOf data.segmentNo).state = .retxReceived then .done (eraseInfo data.segmentNo s)
    else
      let s := accept sch now data s
      if s.allReceived then .done (succeed s) else .schedulePackets s

/-- The last segment becomes known, and what follows it is cancelled. -/
def learnLast (last : ℕ) (s : Adaptive κ) : Adaptive κ :=
  cancelInFlightSegmentsGreaterThan last { s with lastSegmentNo := last, hasFinalBlockId := true }

def handleData (sch : Scheme κ) (now : Time) (data : Data) (s : Adaptive κ) : Next κ :=
  if s.isStopping then .done s
  else
    match s.hasFinalBlockId, data.finalBlockId with
    | false, some last =>
      let s := learnLast last s
      if s.hasFailure ∧ s.failedSegNo ≤ s.lastSegmentNo then .done (onFailure s.failureReason s)
      else receive sch now data { s with hasFailure := false }
    | _, _ => receive sch now data s

def nackFailure (sch : Scheme κ) (segNo : ℕ) (reason : NackReason) : String :=
  "Could not retrieve data for " ++ sch.toUri segNo ++ ", reason: " ++ reason.toString

def handleNack (sch : Scheme κ) (now : Time) (segNo : ℕ) (reason : NackReason) (s : Adaptive κ) : Next κ :=
  if s.isStopping then .done s
  else
    match reason with
    -- ignored, although the Interest is no longer pending
    | .duplicate => .done s
    | .congestion => handleTimeout sch now 1 (requeue segNo s)
    | _ => .done (handleFail segNo (nackFailure sch segNo reason) s)

def handleLifetimeExpiration (sch : Scheme κ) (now : Time) (segNo : ℕ) (s : Adaptive κ) : Next κ :=
  if s.isStopping then .done s
  else handleTimeout sch now 1 (requeue segNo s)

/-! ## The run -/

/-- The constructor and the part of `PipelineInterests::run` before `doRun`. -/
def init (control : κ) (data : Data) : Adaptive κ where
  toPipelineInterests := .setup data
  control := control
  nextSegmentNo := 0
  highData := 0
  highInterest := 0
  recPoint := 0
  nInFlight := 0
  nReceived := 0
  nLossEvents := 0
  nRetransmitted := 0
  retxQueue := []
  segmentInfo := ∅
  retxCount := ∅
  hasFailure := false
  failedSegNo := 0
  failureReason := ""
  face := .start
  failed := []
  completed := false

/-- `doRun`: the excluded segment is counted as received, and one Interest is sent. -/
def doRun (sch : Scheme κ) (now : Time) (s : Adaptive κ) : Adaptive κ :=
  sendNext sch now { s with nReceived := s.nReceived + 1 }

def run (sch : Scheme κ) (now : Time) (control : κ) (data : Data) : Adaptive κ := doRun sch now (init control data)

/-- What can happen to a pipeline: the Face answers a pending Interest with Data or a Nack or lets
it expire, the retransmission timers are checked, or the pipeline is cancelled from outside. -/
inductive Event
  | data (now : Time) (id : ℕ) (d : Data)
  | nack (now : Time) (id : ℕ) (reason : NackReason)
  | expire (now : Time) (id : ℕ)
  | checkRto (now : Time) (order : List ℕ)
  | cancel
  deriving Repr, DecidableEq

/-- The Face gives an answer for one pending Interest, which is then no longer pending. -/
def answered (id : ℕ) (s : Adaptive κ) : Adaptive κ := { s with face := s.face.removePendingInterest id }

/-- A callback for the Interest `id`, if it is pending. -/
def callback (sch : Scheme κ) (now : Time) (id : ℕ) (handler : ℕ → Adaptive κ → Next κ) (s : Adaptive κ) :
    Adaptive κ :=
  match s.face.segmentOf id with
  | none => s
  | some segNo => (handler segNo (answered id s)).finish sch now

def step (sch : Scheme κ) (s : Adaptive κ) : Event → Adaptive κ
  | .data now id d => callback sch now id (fun _ => handleData sch now d) s
  | .nack now id reason => callback sch now id (fun segNo => handleNack sch now segNo reason) s
  | .expire now id => callback sch now id (handleLifetimeExpiration sch now) s
  | .checkRto now order => (checkRto sch now order s).finish sch now
  | .cancel => cancel s

/-- An answer is for a pending Interest, Data has the name of its Interest, and `checkRto` visits
every entry once. -/
def enabled (s : Adaptive κ) : Event → Prop
  | .data _ id d => s.face.segmentOf id = some d.segmentNo
  | .nack _ id _ => (s.face.segmentOf id).isSome = true
  | .expire _ id => (s.face.segmentOf id).isSome = true
  | .checkRto _ order => order.Perm s.segmentInfo.keys
  | .cancel => True

instance (s : Adaptive κ) (e : Event) : Decidable (enabled s e) := by
  cases e <;> unfold enabled <;> infer_instance

def machine (sch : Scheme κ) : Machine (Adaptive κ) Event := ⟨enabled, step sch⟩

instance (sch : Scheme κ) (s : Adaptive κ) (e : Event) : Decidable ((machine sch).enabled s e) :=
  inferInstanceAs (Decidable (enabled s e))

end NdnTools.Chunks.Adaptive
