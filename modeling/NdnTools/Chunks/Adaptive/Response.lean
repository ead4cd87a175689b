/-
What an event does to the congestion control of an adaptive pipeline: Data that is accepted calls
`increaseWindow` and may bring a sample of the round-trip time, a loss that counts calls
`decreaseWindow` and backs the retransmission timeout off, and any other event does neither
(`Response`). `handle` is what the handler of an event returns; `schedulePackets`, which may follow,
leaves the congestion control alone.
-/
import NdnTools.Chunks.Adaptive.Rules

namespace NdnTools.Chunks.Adaptive

variable {κ : Type}

/-! ## The handler of an event -/

/-- When the event happens; the time at which a pipeline is cancelled does not matter. -/
def Event.now : Event → Time
  | .data now _ _ => now
  | .nack now _ _ => now
  | .expire now _ => now
  | .checkRto now _ => now
  | .cancel => 0

/-- The handler of a callback for the Interest `id`, if it is pending. -/
def called (id : ℕ) (handler : ℕ → Adaptive κ → Next κ) (s : Adaptive κ) : Next κ :=
  match s.face.segmentOf id with
  | none => .done s
  | some segNo => handler segNo (answered id s)

def handle (sch : Scheme κ) (s : Adaptive κ) : Event → Next κ
  | .data now id d => called id (fun _ => handleData sch now d) s
  | .nack now id reason => called id (fun segNo => handleNack sch now segNo reason) s
  | .expire now id => called id (handleLifetimeExpiration sch now) s
  | .checkRto now order => checkRto sch now order s
  | .cancel => .done (cancel s)

/-- The state in which the handler returns. -/
def Next.state : Next κ → Adaptive κ
  | .done s => s
  | .schedulePackets s => s

theorem step_eq (sch : Scheme κ) (s : Adaptive κ) (e : Event) :
    step sch s e = (handle sch s e).finish sch e.now := by
  have hcalled : ∀ now id handler, callback sch now id handler s = (called id handler s).finish sch now := by
    intro now id handler
    unfold callback called
    cases s.face.segmentOf id <;> rfl
  cases e with
  | data now id d => exact hcalled _ _ _
  | nack now id reason => exact hcalled _ _ _
  | expire now id => exact hcalled _ _ _
  | checkRto now order => rfl
  | cancel => rfl

/-! ## Losses and accepted Data -/

/-- The pipeline would react to a loss. -/
def LossCounts (sch : Scheme κ) (s : Adaptive κ) : Prop := sch.disableCwa = true ∨ s.recPoint < s.highData

/-- The event is a loss: a Nack with reason Congestion, an expired Interest, or retransmission timers
that have run out. -/
def Loses (s : Adaptive κ) : Event → Prop
  | .nack _ _ reason => s.isStopping = false ∧ reason = .congestion
  | .expire _ _ => s.isStopping = false
  | .checkRto now order => s.isStopping = false ∧ ∃ n ∈ order, rtoExpired now (s.segmentInfo.infoOf n)
  | .data _ _ _ | .cancel => False

/-- The event makes the pipeline reduce its window. -/
def Reduces (sch : Scheme κ) (s : Adaptive κ) (e : Event) : Prop := Loses s e ∧ LossCounts sch s

/-- The entries once `handleData` has looked at the FinalBlockId. -/
def entriesAt (d : Data) (s : Adaptive κ) : SegmentMap :=
  match s.hasFinalBlockId, d.finalBlockId with
  | false, some last => (learnLast last s).segmentInfo
  | _, _ => s.segmentInfo

/-- The FinalBlockId of the packet shows that a failed segment belongs to the content. -/
def FailsBy (d : Data) (s : Adaptive κ) : Prop :=
  ∃ last, s.hasFinalBlockId = false ∧ d.finalBlockId = some last ∧ s.hasFailure = true ∧ s.failedSegNo ≤ last

/-- The event brings Data that is counted and handed on. -/
def Accepts (sch : Scheme κ) (s : Adaptive κ) : Event → Prop
  | .data _ _ d =>
    s.isStopping = false ∧ ¬ FailsBy d s ∧ ((entriesAt d s).infoOf d.segmentNo).state ≠ .retxReceived ∧
      (sch.isCubic = true → d.segmentNo ∈ entriesAt d s)
  | _ => False

/-- The round-trip time of a segment with this entry is measured. -/
def Measured (info : SegmentInfo) : Prop := info.state = .firstTimeSent ∨ info.state = .inRetxQueue

instance (sch : Scheme κ) (s : Adaptive κ) : Decidable (LossCounts sch s) := inferInstanceAs (Decidable (_ ∨ _))

instance (s : Adaptive κ) : (e : Event) → Decidable (Loses s e)
  | .nack _ _ _ => inferInstanceAs (Decidable (_ ∧ _))
  | .expire _ _ => inferInstanceAs (Decidable (_ = _))
  | .checkRto _ _ => inferInstanceAs (Decidable (_ ∧ _))
  | .data _ _ _ | .cancel => .isFalse id

instance (sch : Scheme κ) (s : Adaptive κ) (e : Event) : Decidable (Reduces sch s e) :=
  inferInstanceAs (Decidable (_ ∧ _))

instance (d : Data) (s : Adaptive κ) : Decidable (FailsBy d s) :=
  match h : d.finalBlockId with
  | none => isFalse fun ⟨_, _, hl, _⟩ => by rw [h] at hl; cases hl
  | some last => decidable_of_iff (s.hasFinalBlockId = false ∧ s.hasFailure = true ∧ s.failedSegNo ≤ last)
      ⟨fun hf => ⟨last, hf.1, h, hf.2⟩, fun ⟨_, hf, hl, h'⟩ => by rw [h] at hl; cases hl; exact ⟨hf, h'⟩⟩

instance (sch : Scheme κ) (s : Adaptive κ) : (e : Event) → Decidable (Accepts sch s e)
  | .data _ _ _ => inferInstanceAs (Decidable (_ ∧ _))
  | .nack _ _ _ | .expire _ _ | .checkRto _ _ | .cancel => .isFalse id

instance (info : SegmentInfo) : Decidable (Measured info) := inferInstanceAs (Decidable (_ ∨ _))

/-- The congestion control after an accepted segment with the entry `info`. -/
def acknowledge (sch : Scheme κ) (now : Time) (segNo : ℕ) (info : SegmentInfo) (nExpectedSamples : ℕ) (c : κ) : κ :=
  let measure := fun c =>
    if Measured info then sch.addMeasurement segNo now (now - info.timeSent) nExpectedSamples c else c
  if sch.isCubic then sch.increaseWindow now (measure c) else measure (sch.increaseWindow now c)

/-- What an event does to the congestion control, in the state in which its handler returns. -/
inductive Response (sch : Scheme κ) (s : Adaptive κ) : Event → Adaptive κ → Prop
  | kept {e : Event} {t : Adaptive κ} (refused : ¬ Accepts sch s e) (calm : ¬ Reduces sch s e)
      (control : t.control = s.control) : Response sch s e t
  | accepted {now : Time} {id : ℕ} {d : Data} {t : Adaptive κ} (accepts : Accepts sch s (.data now id d))
      (nExpectedSamples : ℕ)
      (control : t.control = acknowledge sch now d.segmentNo ((entriesAt d s).infoOf d.segmentNo)
        nExpectedSamples s.control) : Response sch s (.data now id d) t
  | reduced {e : Event} {t : Adaptive κ} (reduces : Reduces sch s e)
      (control : t.control = sch.backoffRto (sch.decreaseWindow e.now s.control)) : Response sch s e t

variable {sch : Scheme κ} {s : Adaptive κ} {n : ℕ}

theorem not_accepts_of_stopping (hst : s.isStopping = true) (e : Event) : ¬ Accepts sch s e := by
  intro h
  cases e with
  | data now id d => exact absurd_of_going h.1 hst
  | _ => exact h

theorem not_loses_of_stopping (hst : s.isStopping = true) (e : Event) : ¬ Loses s e := by
  intro h
  cases e with
  | nack now id reason => exact absurd_of_going h.1 hst
  | expire now id => exact absurd_of_going h hst
  | checkRto now order => exact absurd_of_going h.1 hst
  | _ => exact h

/-- A pipeline that is stopping responds to nothing. -/
theorem Response.of_stopping {e : Event} {t : Adaptive κ} (hst : s.isStopping = true)
    (control : t.control = s.control) : Response sch s e t :=
  .kept (not_accepts_of_stopping hst e) (fun h => not_loses_of_stopping hst e h.1) control

/-! ## The congestion control in the operations -/

@[simp] theorem control_cancel (s : Adaptive κ) : (cancel s).control = s.control := by
  unfold cancel
  split <;> rfl

@[simp] theorem control_onFailure (reason : String) (s : Adaptive κ) : (onFailure reason s).control = s.control := by
  unfold onFailure
  split
  · rfl
  · exact control_cancel s

@[simp] theorem control_handleFail (n : ℕ) (reason : String) (s : Adaptive κ) :
    (handleFail n reason s).control = s.control := by
  obtain ⟨_, _, _, _, _, _, _, _, _, heq, -⟩ := handleFail_frame n reason s
  rw [heq]

theorem control_settle (sch : Scheme κ) (now : Time) (n : ℕ) (s : Adaptive κ) :
    (settle sch now n s).control =
      if Measured (s.segmentInfo.infoOf n) then
        sch.addMeasurement n now (now - (s.segmentInfo.infoOf n).timeSent) (max ((s.nInFlight + 1) / 2) 1) s.control
      else s.control := by
  by_cases h : Measured (s.segmentInfo.infoOf n)
  · rw [if_pos h]
    exact congrArg Adaptive.control (if_pos h)
  · rw [if_neg h]
    have hsettle : settle sch now n s = setState n .retxReceived s := if_neg h
    rw [hsettle]
    rfl

theorem control_accept (sch : Scheme κ) (now : Time) (d : Data) (s : Adaptive κ) :
    ∃ nExpectedSamples, (accept sch now d s).control =
      acknowledge sch now d.segmentNo (s.segmentInfo.infoOf d.segmentNo) nExpectedSamples s.control := by
  refine ⟨max ((landed d.segmentNo s + 1) / 2) 1, ?_⟩
  unfold accept acknowledge
  by_cases hc : sch.isCubic = true
  · rw [if_pos hc, if_pos hc]
    exact congrArg (sch.increaseWindow now) (control_settle ..)
  · rw [if_neg hc, if_neg hc]
    exact control_settle ..

/-- Losses that count reduce the window, others leave the congestion control as it is. -/
theorem control_lost (sch : Scheme κ) (now : Time) (k : ℕ) (s : Adaptive κ) :
    (LossCounts sch s → (lost sch now k s).control = sch.backoffRto (sch.decreaseWindow now s.control)) ∧
    (¬ LossCounts sch s → (lost sch now k s).control = s.control) := by
  unfold lost reactToLoss LossCounts
  constructor
  · intro h
    rw [if_pos h]
  · intro h
    rw [if_neg h]

/-! ## The response of each handler -/

/-- The state that `handleData` goes on with has the entries `entriesAt`. -/
theorem response_receive {now : Time} {id : ℕ} {d : Data} {t : Adaptive κ} (hgo : s.isStopping = false)
    (hfails : ¬ FailsBy d s) (hcontrol : t.control = s.control) (hinfo : t.segmentInfo = entriesAt d s) :
    Response sch s (.data now id d) (receive sch now d t).state := by
  rcases receive_cases sch now d t with ⟨hcub, hno, heq⟩ | ⟨hdup, heq⟩ | ⟨hdup, hc, t', rfl, hall⟩
  · rw [heq]
    refine .kept ?_ (fun h => h.1) hcontrol
    rintro ⟨-, -, -, hmem⟩
    exact hno (hinfo ▸ hmem hcub)
  · rw [heq]
    refine .kept ?_ (fun h => h.1) hcontrol
    rintro ⟨-, -, hst, -⟩
    exact hst (hinfo ▸ isRetxReceived_iff.1 hdup)
  · have haccepts : Accepts sch s (.data now id d) := by
      refine ⟨hgo, hfails, ?_, ?_⟩
      · rw [← hinfo]
        exact fun hst => hdup (isRetxReceived_iff.2 hst)
      · rw [← hinfo]
        exact hc
    obtain ⟨k, hk⟩ := control_accept sch now d (touch d.segmentNo t)
    rw [infoOf_touch, hinfo] at hk
    have hresult : (accept sch now d (touch d.segmentNo t)).control =
        acknowledge sch now d.segmentNo ((entriesAt d s).infoOf d.segmentNo) k s.control :=
      hk.trans (congrArg _ hcontrol)
    rcases hall with ⟨-, heq⟩ | ⟨-, heq⟩
    · rw [heq]
      exact .accepted haccepts k ((control_cancel _).trans hresult)
    · rw [heq]
      exact .accepted haccepts k hresult

theorem response_data {now : Time} {id : ℕ} {d : Data} (hgo : s.isStopping = false) :
    Response sch s (.data now id d) (handleData sch now d (answered id s)).state := by
  have hgo' : (answered id s).isStopping = false := hgo
  rcases handleData_cases sch now d hgo' with ⟨hc, heq⟩ | ⟨last, hf, hl, ⟨h1, h2, heq⟩ | ⟨hstop, heq⟩⟩
  · rw [heq]
    refine response_receive hgo ?_ rfl ?_
    · rintro ⟨last, hf, hl, -⟩
      rcases hc with hc | hc
      · exact absurd (hf.symm.trans hc) (by simp)
      · rw [hc] at hl; cases hl
    · have hf : s.hasFinalBlockId = true ∨ d.finalBlockId = none := hc
      unfold entriesAt
      rcases hf with hf | hf
      · rw [hf]; rfl
      · rw [hf]; cases s.hasFinalBlockId <;> rfl
  · rw [heq]
    refine .kept ?_ (fun h => h.1) (control_onFailure _ (learnLast last (answered id s)))
    rintro ⟨-, hno, -⟩
    exact hno ⟨last, hf, hl, h1, h2⟩
  · rw [heq]
    refine response_receive hgo ?_ rfl ?_
    · rintro ⟨last', -, hl', h⟩
      rw [hl] at hl'; cases hl'
      exact hstop h
    · have hf' : s.hasFinalBlockId = false := hf
      unfold entriesAt
      rw [hf', hl]
      rfl

/-- A loss of `k` Interests, after work that leaves the congestion control and its counters alone. -/
theorem response_lost {e : Event} {t : Adaptive κ} (k : ℕ) (hno : ¬ Accepts sch s e) (hloses : Loses s e)
    (hcontrol : t.control = s.control) (hcounts : LossCounts sch t ↔ LossCounts sch s) :
    Response sch s e (lost sch e.now k t) := by
  obtain ⟨hpos, hneg⟩ := control_lost sch e.now k t
  rw [hcontrol] at hpos hneg
  by_cases hc : LossCounts sch s
  · exact .reduced ⟨hloses, hc⟩ (hpos (hcounts.2 hc))
  · exact .kept hno (fun h => hc h.2) (hneg fun h => hc (hcounts.1 h))

theorem response_requeue {e : Event} {id : ℕ} (hno : ¬ Accepts sch s e) (hloses : Loses s e) :
    Response sch s e (handleTimeout sch e.now 1 (requeue n (answered id s))).state := by
  rw [handleTimeout_succ sch e.now (by decide)]
  exact response_lost 1 hno hloses rfl Iff.rfl

theorem response_checkRto {now : Time} {order : List ℕ} (hperm : order.Perm s.segmentInfo.keys) :
    Response sch s (.checkRto now order) (checkRto sch now order s).state := by
  unfold checkRto
  by_cases hst : s.isStopping = true
  · rw [if_pos hst]
    exact .of_stopping hst rfl
  rw [if_neg hst, queueExpired_eq now order (hperm.nodup_iff.2 s.segmentInfo.keys_nodup), Nat.zero_add]
  by_cases hnil : (order.filter fun n => rtoExpired now (s.segmentInfo.infoOf n)) = []
  · rw [hnil]
    refine .kept id ?_ rfl
    rintro ⟨⟨-, n, hn, hex⟩, -⟩
    have hmem : n ∈ order.filter fun n => rtoExpired now (s.segmentInfo.infoOf n) :=
      List.mem_filter.2 ⟨hn, decide_eq_true hex⟩
    rw [hnil] at hmem; cases hmem
  · rw [handleTimeout_succ sch now (by simpa using hnil)]
    have hloses : Loses s (.checkRto now order) := by
      obtain ⟨n, hn⟩ := List.exists_mem_of_ne_nil _ hnil
      obtain ⟨hn, hex⟩ := List.mem_filter.1 hn
      exact ⟨by simpa using hst, n, hn, of_decide_eq_true hex⟩
    obtain ⟨i, heq⟩ := requeueAll_frame (order.filter fun n => rtoExpired now (s.segmentInfo.infoOf n)) s
    rw [heq]
    exact response_lost (e := .checkRto now order) _ id hloses rfl Iff.rfl

theorem handle_response {e : Event} (he : enabled s e) : Response sch s e (handle sch s e).state := by
  cases hgo : s.isStopping with
  | true =>
    -- a pipeline that is stopping only takes the answer off the Face
    have hcalled : ∀ id handler, (∀ t n, t.isStopping = true → handler n t = .done t) →
        Response sch s e (called id handler s).state := by
      intro id handler hdone
      unfold called
      split
      · exact .of_stopping hgo rfl
      · rw [hdone _ _ (show (answered id s).isStopping = true from hgo)]
        exact .of_stopping hgo rfl
    cases e with
    | data now id d => exact hcalled _ _ fun t n ht => if_pos ht
    | nack now id reason => exact hcalled _ _ fun t n ht => if_pos ht
    | expire now id => exact hcalled _ _ fun t n ht => if_pos ht
    | checkRto now order => exact response_checkRto he
    | cancel => exact .of_stopping hgo (control_cancel s)
  | false =>
    cases e with
    | data now id d =>
      have hn : s.face.segmentOf id = some d.segmentNo := he
      simp only [handle, called, hn]
      exact response_data hgo
    | nack now id reason =>
      obtain ⟨n, hn⟩ := Option.isSome_iff_exists.1 he
      simp only [handle, called, hn]
      unfold handleNack
      rw [if_neg (show ¬ (answered id s).isStopping = true by simp [answered, hgo])]
      cases reason with
      | none => exact .kept (fun h => h) (fun h => absurd h.1.2 (by decide)) (control_handleFail ..)
      | congestion => exact response_requeue (e := .nack now id .congestion) (fun h => h) ⟨hgo, rfl⟩
      | duplicate => exact .kept (fun h => h) (fun h => absurd h.1.2 (by decide)) rfl
      | noRoute => exact .kept (fun h => h) (fun h => absurd h.1.2 (by decide)) (control_handleFail ..)
    | expire now id =>
      obtain ⟨n, hn⟩ := Option.isSome_iff_exists.1 he
      simp only [handle, called, hn]
      unfold handleLifetimeExpiration
      rw [if_neg (show ¬ (answered id s).isStopping = true by simp [answered, hgo])]
      exact response_requeue (e := .expire now id) (fun h => h) hgo
    | checkRto now order => exact response_checkRto he
    | cancel => exact .kept (fun h => h) (fun h => h.1) (control_cancel s)

/-! ## Steps -/

@[simp] theorem control_sendInterest (sch : Scheme κ) (now : Time) (n : ℕ) (s : Adaptive κ) :
    (sendInterest sch now n true s).control = s.control := by
  cases hgo : s.isStopping with
  | true => unfold sendInterest; rw [if_pos hgo]
  | false =>
    rcases sendInterest_retransmission sch now n hgo with ⟨-, heq⟩ | ⟨-, heq⟩
    · rw [heq]; exact control_handleFail _ _ (countRetx n s)
    · rw [heq]; rfl

theorem control_sendNext (sch : Scheme κ) (now : Time) (s : Adaptive κ) :
    (sendNext sch now s).control = s.control := by
  rcases sendNext_cases sch now s with ⟨-, heq⟩ | ⟨-, -, -, heq⟩
  · rw [heq]; rfl
  · rw [heq]; rfl

theorem control_body (sch : Scheme κ) (now : Time) (x : ℤ × Adaptive κ) :
    ((scheduleLoop sch now).body x).2.control = x.2.control := by
  obtain ⟨avail, s⟩ := x
  simp only [scheduleLoop]
  split
  · split
    · exact control_sendInterest ..
    · rfl
  · exact control_sendNext ..

theorem control_schedulePackets (sch : Scheme κ) (now : Time) (s : Adaptive κ) :
    (schedulePackets sch now s).control = s.control := by
  refine Loop.run_inv (l := scheduleLoop sch now) (I := fun x => x.2.control = s.control) (P := fun _ => True)
    (fun x _ hx _ => (control_body sch now x).trans hx) rfl (Loop.each_of_forall fun _ => trivial)

theorem control_finish (sch : Scheme κ) (now : Time) (next : Next κ) :
    (next.finish sch now).control = next.state.control := by
  cases next with
  | done s => rfl
  | schedulePackets s => exact control_schedulePackets sch now s

/-- What a step does to the congestion control. -/
theorem step_response {e : Event} (he : enabled s e) : Response sch s e (step sch s e) := by
  have hc := control_finish sch e.now (handle sch s e)
  rw [← step_eq] at hc
  generalize step sch s e = t at hc
  have hresponse : Response sch s e (handle sch s e).state := handle_response he
  cases hresponse with
  | kept refused calm control => exact .kept refused calm (hc.trans control)
  | accepted accepts k control => exact .accepted accepts k (hc.trans control)
  | reduced reduces control => exact .reduced reduces (hc.trans control)

theorem control_run (sch : Scheme κ) (now : Time) (control : κ) (data : Data) :
    (run sch now control data).control = control := by
  unfold run doRun
  rw [control_sendNext]
  rfl

end NdnTools.Chunks.Adaptive
