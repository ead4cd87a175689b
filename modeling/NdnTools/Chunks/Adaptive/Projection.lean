/-
A congestion control may keep more than the pipeline needs of it, as the one that notes its calls does.
If `f` takes away what is more (`Projects`), then the pipeline runs as it would without it: every
operation commutes with `mapControl f`, which changes the congestion control of a state and nothing else.
-/
import NdnTools.Chunks.Adaptive.Ops

namespace NdnTools.Chunks.Adaptive

variable {κ κ' : Type}

/-- The state with another congestion control. -/
def mapControl (f : κ' → κ) (s : Adaptive κ') : Adaptive κ := { s with control := f s.control }

/-- What the congestion control `sch'` does is, seen through `f`, what `sch` does. -/
structure Projects (f : κ' → κ) (sch' : Scheme κ') (sch : Scheme κ) : Prop where
  cwnd : ∀ c, sch.cwnd (f c) = sch'.cwnd c
  increaseWindow : ∀ now c, sch.increaseWindow now (f c) = f (sch'.increaseWindow now c)
  decreaseWindow : ∀ now c, sch.decreaseWindow now (f c) = f (sch'.decreaseWindow now c)
  backoffRto : ∀ c, sch.backoffRto (f c) = f (sch'.backoffRto c)
  getEstimatedRto : ∀ c, sch.getEstimatedRto (f c) = sch'.getEstimatedRto c
  addMeasurement : ∀ segNo now rtt n c,
    sch.addMeasurement segNo now rtt n (f c) = f (sch'.addMeasurement segNo now rtt n c)
  isCubic : sch.isCubic = sch'.isCubic
  maxRetries : sch.maxRetriesOnTimeoutOrNack = sch'.maxRetriesOnTimeoutOrNack
  disableCwa : sch.disableCwa = sch'.disableCwa
  toUri : sch.toUri = sch'.toUri

variable {f : κ' → κ} {sch' : Scheme κ'} {sch : Scheme κ} {s : Adaptive κ'}

/-! ## Operations that leave the congestion control alone -/

theorem cancel_mapControl (s : Adaptive κ') : cancel (mapControl f s) = mapControl f (cancel s) := by
  unfold cancel
  split <;> split <;> first | rfl | contradiction

theorem succeed_mapControl (s : Adaptive κ') : succeed (mapControl f s) = mapControl f (succeed s) := by
  unfold succeed
  rw [cancel_mapControl]
  rfl

theorem onFailure_mapControl (reason : String) (s : Adaptive κ') :
    onFailure reason (mapControl f s) = mapControl f (onFailure reason s) := by
  unfold onFailure
  rw [cancel_mapControl]
  split <;> split <;> first | rfl | contradiction

theorem giveUp_mapControl (segNo : ℕ) (reason : String) (s : Adaptive κ') :
    giveUp segNo reason (mapControl f s) = mapControl f (giveUp segNo reason s) := by
  have hfail := onFailure_mapControl (f := f) noFinalSegment (dropped segNo s)
  rcases giveUp_cases segNo reason s with ⟨honly, heq⟩ | ⟨honly, heq⟩
  · rcases giveUp_cases segNo reason (mapControl f s) with ⟨-, heq'⟩ | ⟨hnot, -⟩
    · rw [heq, ← hfail]; exact heq'
    · exact absurd honly hnot
  · rcases giveUp_cases segNo reason (mapControl f s) with ⟨honly', -⟩ | ⟨-, heq'⟩
    · exact absurd honly' honly
    · rw [heq]; exact heq'

theorem handleFail_mapControl (segNo : ℕ) (reason : String) (s : Adaptive κ') :
    handleFail segNo reason (mapControl f s) = mapControl f (handleFail segNo reason s) := by
  unfold handleFail
  rw [onFailure_mapControl, giveUp_mapControl]
  change (if s.isStopping then mapControl f s
    else if s.hasFinalBlockId ∧ segNo ≤ s.lastSegmentNo then mapControl f (onFailure reason s)
    else if s.hasFinalBlockId then mapControl f s else mapControl f (giveUp segNo reason s)) = _
  split
  · rfl
  split
  · rfl
  split <;> rfl

theorem queueExpired_mapControl (now : Time) : ∀ (order : List ℕ) (s : Adaptive κ') (n : ℕ),
    queueExpired now order (mapControl f s, n) =
      (mapControl f (queueExpired now order (s, n)).1, (queueExpired now order (s, n)).2)
  | [], _, _ => rfl
  | segNo :: order, s, n => by
    have hqueued := queueExpired_mapControl now order (requeue segNo s) (n + 1)
    have hleft := queueExpired_mapControl now order s n
    unfold queueExpired
    change (if rtoExpired now (s.segmentInfo.infoOf segNo) then
      queueExpired now order (mapControl f (requeue segNo s), n + 1)
      else queueExpired now order (mapControl f s, n)) = _
    split
    · exact hqueued
    · exact hleft

/-! ## Sending -/

section
variable (h : Projects f sch' sch)
include h

theorem sendFirst_mapControl (now : Time) (segNo : ℕ) (s : Adaptive κ') :
    sendFirst sch now segNo (mapControl f s) = mapControl f (sendFirst sch' now segNo s) := by
  have hrto : sch.getEstimatedRto (mapControl f s).control = sch'.getEstimatedRto s.control := h.getEstimatedRto _
  simp only [sendFirst, hrto]
  rfl

theorem resend_mapControl (now : Time) (segNo : ℕ) (s : Adaptive κ') :
    resend sch now segNo (mapControl f s) = mapControl f (resend sch' now segNo s) := by
  have hrto : sch.getEstimatedRto (mapControl f s).control = sch'.getEstimatedRto s.control := h.getEstimatedRto _
  simp only [resend, hrto]
  rfl

theorem exhausted_mapControl (segNo : ℕ) (s : Adaptive κ') :
    Exhausted sch segNo (mapControl f s) ↔ Exhausted sch' segNo s := by
  unfold Exhausted
  rw [h.maxRetries]
  rfl

theorem sendInterest_mapControl (now : Time) (segNo : ℕ) (isRetransmission : Bool) (s : Adaptive κ') :
    sendInterest sch now segNo isRetransmission (mapControl f s) =
      mapControl f (sendInterest sch' now segNo isRetransmission s) := by
  have hreason : tooManyRetries sch segNo = tooManyRetries sch' segNo := by unfold tooManyRetries; rw [h.maxRetries]
  have hfail := handleFail_mapControl (f := f) segNo (tooManyRetries sch' segNo) (countRetx segNo s)
  have hresend := resend_mapControl h now segNo (countRetx segNo s)
  have hfirst := sendFirst_mapControl h now segNo s
  simp only [sendInterest, hreason, exhausted_mapControl h, apply_ite (mapControl f), ← hfail, ← hresend, ← hfirst]
  rfl

theorem sendNext_mapControl (now : Time) (s : Adaptive κ') :
    sendNext sch now (mapControl f s) = mapControl f (sendNext sch' now s) :=
  sendInterest_mapControl h now (nextNo s) false (advance s)

/-- `mapControl` beside the places left. -/
def mapWindow (f : κ' → κ) (x : ℤ × Adaptive κ') : ℤ × Adaptive κ := (x.1, mapControl f x.2)

theorem scheduleLoop_body_mapControl (now : Time) (x : ℤ × Adaptive κ') :
    (scheduleLoop sch now).body (mapWindow f x) = mapWindow f ((scheduleLoop sch' now).body x) := by
  obtain ⟨avail, s⟩ := x
  cases hq : s.retxQueue with
  | nil =>
    have hq' : (mapControl f s).retxQueue = [] := hq
    simp only [scheduleLoop, mapWindow, hq, hq', sendNext_mapControl h]
  | cons segNo queue =>
    have hq' : (mapControl f s).retxQueue = segNo :: queue := hq
    have hsend := sendInterest_mapControl h now segNo true { s with retxQueue := queue }
    simp only [scheduleLoop, mapWindow, hq, hq']
    by_cases hmem : segNo ∈ s.segmentInfo
    · rw [if_pos hmem]
      exact (if_pos hmem).trans (congrArg (fun t => (avail - 1, t)) hsend)
    · rw [if_neg hmem]
      exact if_neg hmem

theorem schedulePackets_mapControl (now : Time) (s : Adaptive κ') :
    schedulePackets sch now (mapControl f s) = mapControl f (schedulePackets sch' now s) := by
  have hwindow : availableWindowSize sch (mapControl f s) = availableWindowSize sch' s := by
    unfold availableWindowSize
    exact congrArg (fun n : ℤ => n - s.nInFlight) (h.cwnd s.control)
  have hfuel : scheduleFuel sch (mapControl f s) = scheduleFuel sch' s := by
    unfold scheduleFuel
    rw [hwindow]
    rfl
  have hrun : (scheduleLoop sch now).run (scheduleFuel sch' s) (mapWindow f (availableWindowSize sch' s, s)) =
      mapWindow f ((scheduleLoop sch' now).run (scheduleFuel sch' s) (availableWindowSize sch' s, s)) :=
    Loop.run_map (f := mapWindow f) (fun _ => rfl) (scheduleLoop_body_mapControl h now) _ _
  unfold schedulePackets
  rw [hfuel, hwindow]
  exact congrArg Prod.snd hrun

/-! ## Handlers -/

/-- `mapControl` where a handler ends. -/
def mapNext (f : κ' → κ) : Next κ' → Next κ
  | .done s => .done (mapControl f s)
  | .schedulePackets s => .schedulePackets (mapControl f s)

theorem finish_mapNext (now : Time) (x : Next κ') :
    (mapNext f x).finish sch now = mapControl f (x.finish sch' now) := by
  cases x with
  | done s => rfl
  | schedulePackets s => exact schedulePackets_mapControl h now s

theorem reactToLoss_mapControl (now : Time) (s : Adaptive κ') :
    reactToLoss sch now (mapControl f s) = mapControl f (reactToLoss sch' now s) := by
  have hcontrol : sch.backoffRto (sch.decreaseWindow now (mapControl f s).control) =
      f (sch'.backoffRto (sch'.decreaseWindow now s.control)) := by
    rw [← h.backoffRto, ← h.decreaseWindow]
    rfl
  simp only [reactToLoss, hcontrol, h.disableCwa, apply_ite (mapControl f)]
  rfl

theorem handleTimeout_mapControl (now : Time) (timeoutCount : ℕ) (s : Adaptive κ') :
    handleTimeout sch now timeoutCount (mapControl f s) = mapNext f (handleTimeout sch' now timeoutCount s) := by
  simp only [handleTimeout, reactToLoss_mapControl h, apply_ite (mapNext f)]
  rfl

theorem checkRto_mapControl (now : Time) (order : List ℕ) (s : Adaptive κ') :
    checkRto sch now order (mapControl f s) = mapNext f (checkRto sch' now order s) := by
  simp only [checkRto, queueExpired_mapControl, handleTimeout_mapControl h, apply_ite (mapNext f)]
  rfl

theorem settle_mapControl (now : Time) (segNo : ℕ) (s : Adaptive κ') :
    settle sch now segNo (mapControl f s) = mapControl f (settle sch' now segNo s) := by
  have hcontrol : ∀ rtt n, sch.addMeasurement segNo now rtt n (mapControl f s).control =
      f (sch'.addMeasurement segNo now rtt n s.control) := fun rtt n => h.addMeasurement ..
  simp only [settle, hcontrol, apply_ite (mapControl f)]
  rfl

theorem deliver_mapControl (now : Time) (data : Data) (s : Adaptive κ') :
    deliver sch now data (mapControl f s) = mapControl f (deliver sch' now data s) := by
  have hcontrol : sch.increaseWindow now (mapControl f s).control = f (sch'.increaseWindow now s.control) :=
    h.increaseWindow now s.control
  simp only [deliver, hcontrol]
  rfl

theorem accept_mapControl (now : Time) (data : Data) (s : Adaptive κ') :
    accept sch now data (mapControl f s) = mapControl f (accept sch' now data s) := by
  simp only [accept, h.isCubic, apply_ite (mapControl f), ← deliver_mapControl h, ← settle_mapControl h]
  rfl

theorem receive_mapControl (now : Time) (data : Data) (s : Adaptive κ') :
    receive sch now data (mapControl f s) = mapNext f (receive sch' now data s) := by
  have haccept := accept_mapControl h now data (touch data.segmentNo s)
  have hsucceed := succeed_mapControl (f := f) (accept sch' now data (touch data.segmentNo s))
  simp only [receive, h.isCubic, apply_ite (mapNext f)]
  refine if_congr Iff.rfl rfl (if_congr Iff.rfl rfl ?_)
  have hreceived : (accept sch now data (touch data.segmentNo (mapControl f s))).allReceived ↔
      (accept sch' now data (touch data.segmentNo s)).allReceived := by
    rw [show touch data.segmentNo (mapControl f s) = mapControl f (touch data.segmentNo s) from rfl, haccept]
    rfl
  refine if_congr hreceived ?_ ?_
  · exact (congrArg (fun t => Next.done (succeed t)) haccept).trans (congrArg Next.done hsucceed)
  · exact congrArg Next.schedulePackets haccept

theorem handleData_mapControl (now : Time) (data : Data) (s : Adaptive κ') :
    handleData sch now data (mapControl f s) = mapNext f (handleData sch' now data s) := by
  have hreceive := receive_mapControl h now data s
  simp only [handleData, apply_ite (mapNext f)]
  refine if_congr Iff.rfl rfl ?_
  cases hknown : s.hasFinalBlockId with
  | true =>
    have hknown' : (mapControl f s).hasFinalBlockId = true := hknown
    simp only [hknown', hreceive]
  | false =>
    have hknown' : (mapControl f s).hasFinalBlockId = false := hknown
    cases data.finalBlockId with
    | none => simp only [hknown', hreceive]
    | some last =>
      have hfail := onFailure_mapControl (f := f) s.failureReason (learnLast last s)
      have hlearnt := receive_mapControl h now data (learnt last s)
      simp only [hknown', apply_ite (mapNext f)]
      exact if_congr Iff.rfl (congrArg Next.done hfail) hlearnt

theorem handleNack_mapControl (now : Time) (segNo : ℕ) (reason : NackReason) (s : Adaptive κ') :
    handleNack sch now segNo reason (mapControl f s) = mapNext f (handleNack sch' now segNo reason s) := by
  have hreason : nackFailure sch segNo reason = nackFailure sch' segNo reason := by unfold nackFailure; rw [h.toUri]
  have hfail := handleFail_mapControl (f := f) segNo (nackFailure sch' segNo reason) s
  have htimeout := handleTimeout_mapControl h now 1 (requeue segNo s)
  simp only [handleNack, apply_ite (mapNext f), hreason]
  refine if_congr Iff.rfl rfl ?_
  cases reason with
  | duplicate => rfl
  | congestion => exact htimeout
  | none => exact congrArg Next.done hfail
  | noRoute => exact congrArg Next.done hfail

theorem handleLifetimeExpiration_mapControl (now : Time) (segNo : ℕ) (s : Adaptive κ') :
    handleLifetimeExpiration sch now segNo (mapControl f s) =
      mapNext f (handleLifetimeExpiration sch' now segNo s) := by
  have htimeout := handleTimeout_mapControl h now 1 (requeue segNo s)
  simp only [handleLifetimeExpiration, apply_ite (mapNext f), ← htimeout]
  rfl

/-! ## Runs -/

theorem callback_mapControl (now : Time) (id : ℕ) {handler : ℕ → Adaptive κ → Next κ}
    {handler' : ℕ → Adaptive κ' → Next κ'}
    (hhandler : ∀ segNo s, handler segNo (mapControl f s) = mapNext f (handler' segNo s)) (s : Adaptive κ') :
    callback sch now id handler (mapControl f s) = mapControl f (callback sch' now id handler' s) := by
  cases hsegment : s.face.segmentOf id with
  | none =>
    have hsegment' : (mapControl f s).face.segmentOf id = none := hsegment
    simp only [callback, hsegment, hsegment']
  | some segNo =>
    have hsegment' : (mapControl f s).face.segmentOf id = some segNo := hsegment
    have hnext := hhandler segNo (answered id s)
    simp only [callback, hsegment, hsegment', ← finish_mapNext h, ← hnext]
    rfl

theorem step_mapControl (s : Adaptive κ') (e : Event) :
    step sch (mapControl f s) e = mapControl f (step sch' s e) := by
  cases e with
  | data now id d => exact callback_mapControl h now id (fun _ => handleData_mapControl h now d) s
  | nack now id reason =>
    exact callback_mapControl h now id (fun segNo => handleNack_mapControl h now segNo reason) s
  | expire now id => exact callback_mapControl h now id (handleLifetimeExpiration_mapControl h now) s
  | checkRto now order =>
    have hnext := congrArg (fun x => x.finish sch now) (checkRto_mapControl h now order s)
    exact hnext.trans (finish_mapNext h now _)
  | cancel => exact cancel_mapControl s

theorem run_mapControl (now : Time) (control : κ') (data : Data) :
    run sch now (f control) data = mapControl f (run sch' now control data) :=
  sendNext_mapControl h now { init control data with nReceived := (init control data).nReceived + 1 }

/-- What is more in the congestion control changes no run. -/
theorem exec_mapControl (now : Time) (control : κ') (data : Data) (es : List Event) :
    (machine sch).exec (run sch now (f control) data) es =
      mapControl f ((machine sch').exec (run sch' now control data) es) := by
  rw [run_mapControl h]
  exact Machine.exec_map (m := machine sch') (step_mapControl h) _ es

theorem runs_mapControl (now : Time) (control : κ') (data : Data) (es : List Event) :
    (machine sch).Runs (run sch now (f control) data) es ↔ (machine sch').Runs (run sch' now control data) es := by
  have henabled : ∀ s e, (machine sch).enabled (mapControl f s) e ↔ (machine sch').enabled s e := fun s e => by
    cases e <;> exact Iff.rfl
  rw [run_mapControl h]
  exact Machine.runs_map (m := machine sch') (step_mapControl h) henabled _ es

end

end NdnTools.Chunks.Adaptive
