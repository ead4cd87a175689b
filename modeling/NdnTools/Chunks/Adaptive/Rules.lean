/-
Rules for proving what the runs of an adaptive pipeline preserve. `Points` are conditions on the
places of the code where a run can go wrong: a segment is put back on the retransmission queue or
given up, the last segment is learnt, the entry of a received segment is looked up, `schedulePackets`
is entered, a segment is retransmitted. `Meets` says that a step passes only such places as meet
their condition. `step_rule` reduces an invariant of the steps to the operations at these places,
and `loop_rule` one of `schedulePackets` to its iterations.
-/
import NdnTools.Chunks.Adaptive.Ops

namespace NdnTools.Chunks.Adaptive

variable {κ : Type}

/-- Conditions on the state in which the code passes certain places, and on the segment there. -/
structure Points (κ : Type) where
  /-- A Nack or an expiry puts the segment on the retransmission queue. -/
  requeue : Adaptive κ → ℕ → Prop := fun _ _ => True
  /-- `handleFail` for the segment while the last one is unknown. -/
  giveUp : Adaptive κ → ℕ → Prop := fun _ _ => True
  /-- Data of the segment brings the number of the last one. -/
  learn : Adaptive κ → ℕ → ℕ → Prop := fun _ _ _ => True
  /-- `handleData` looks the segment up. -/
  receive : Adaptive κ → ℕ → Prop := fun _ _ => True
  schedule : Adaptive κ → Prop := fun _ => True
  /-- `schedulePackets` retransmits the segment. -/
  resend : Adaptive κ → ℕ → Prop := fun _ _ => True

/-! ## The places a step passes -/

section
variable (P : Points κ) (sch : Scheme κ)

def FailMeets (segNo : ℕ) (s : Adaptive κ) : Prop :=
  s.isStopping = false → s.hasFinalBlockId = false → P.giveUp s segNo

/-- The pipeline with the first segment of the retransmission queue taken off. -/
def popRetx (queue : List ℕ) (s : Adaptive κ) : Adaptive κ := { s with retxQueue := queue }

/-- An iteration of `schedulePackets`. -/
def IterMeets (x : ℤ × Adaptive κ) : Prop :=
  ∀ n queue, x.2.retxQueue = n :: queue → n ∈ x.2.segmentInfo →
    (¬ Exhausted sch n x.2 → P.resend (popRetx queue x.2) n) ∧
    (Exhausted sch n x.2 → FailMeets P n (countRetx n (popRetx queue x.2)))

def ScheduleMeets (now : Time) (s : Adaptive κ) : Prop :=
  P.schedule s ∧
    (scheduleLoop sch now).Each (IterMeets P sch) (scheduleFuel sch s) (availableWindowSize sch s, s)

def NextMeets (now : Time) : Next κ → Prop
  | .done _ => True
  | .schedulePackets s => ScheduleMeets P sch now s

def ReceiveMeets (now : Time) (d : Data) (s : Adaptive κ) : Prop :=
  P.receive s d.segmentNo ∧ NextMeets P sch now (receive sch now d s)

def DataMeets (now : Time) (d : Data) (s : Adaptive κ) : Prop :=
  s.isStopping = false →
    (s.hasFinalBlockId = true ∨ d.finalBlockId = none → ReceiveMeets P sch now d s) ∧
    ∀ last, s.hasFinalBlockId = false → d.finalBlockId = some last →
      P.learn s d.segmentNo last ∧
        (¬ (s.hasFailure = true ∧ s.failedSegNo ≤ last) → ReceiveMeets P sch now d (learnt last s))

def RequeueMeets (now : Time) (segNo : ℕ) (s : Adaptive κ) : Prop :=
  s.isStopping = false → P.requeue s segNo ∧ ScheduleMeets P sch now (lost sch now 1 (requeue segNo s))

def NackMeets (now : Time) (segNo : ℕ) (s : Adaptive κ) : NackReason → Prop
  | .duplicate => True
  | .congestion => RequeueMeets P sch now segNo s
  | _ => FailMeets P segNo s

/-- The step passes only places that meet their condition. -/
def Meets (s : Adaptive κ) : Event → Prop
  | .data now id d => DataMeets P sch now d (answered id s)
  | .nack now id reason => ∀ segNo, s.face.segmentOf id = some segNo → NackMeets P sch now segNo (answered id s) reason
  | .expire now id => ∀ segNo, s.face.segmentOf id = some segNo → RequeueMeets P sch now segNo (answered id s)
  | .checkRto now order => NextMeets P sch now (checkRto sch now order s)
  | .cancel => True

end

/-! ## Evaluating the conditions -/

/-- The conditions can be evaluated. -/
class Points.Decides (P : Points κ) where
  requeue : ∀ s n, Decidable (P.requeue s n)
  giveUp : ∀ s n, Decidable (P.giveUp s n)
  learn : ∀ s n last, Decidable (P.learn s n last)
  receive : ∀ s n, Decidable (P.receive s n)
  schedule : ∀ s, Decidable (P.schedule s)
  resend : ∀ s n, Decidable (P.resend s n)

section
variable (P : Points κ) [hP : P.Decides] (sch : Scheme κ)

instance (n : ℕ) (s : Adaptive κ) : Decidable (FailMeets P n s) :=
  haveI := hP.giveUp s n
  inferInstanceAs (Decidable (_ → _ → _))

instance : DecidablePred (IterMeets P sch) := fun x =>
  match h : x.2.retxQueue with
  | [] => isTrue fun n queue he => by rw [h] at he; cases he
  | n :: queue =>
    haveI := hP.resend (popRetx queue x.2) n
    decidable_of_iff (n ∈ x.2.segmentInfo →
      (¬ Exhausted sch n x.2 → P.resend (popRetx queue x.2) n) ∧
      (Exhausted sch n x.2 → FailMeets P n (countRetx n (popRetx queue x.2))))
      ⟨fun hm n' queue' he => (by rw [h] at he; cases he; exact hm), fun hm => hm n queue h⟩

instance (now : Time) (s : Adaptive κ) : Decidable (ScheduleMeets P sch now s) :=
  haveI := hP.schedule s
  inferInstanceAs (Decidable (_ ∧ _))

instance (now : Time) : (next : Next κ) → Decidable (NextMeets P sch now next)
  | .done _ => isTrue trivial
  | .schedulePackets s => inferInstanceAs (Decidable (ScheduleMeets P sch now s))

instance (now : Time) (d : Data) (s : Adaptive κ) : Decidable (ReceiveMeets P sch now d s) :=
  haveI := hP.receive s d.segmentNo
  inferInstanceAs (Decidable (_ ∧ _))

instance (now : Time) (d : Data) (s : Adaptive κ) : Decidable (DataMeets P sch now d s) :=
  match h : d.finalBlockId with
  | none => decidable_of_iff (s.isStopping = false → ReceiveMeets P sch now d s)
      ⟨fun hm hgo => ⟨fun _ => hm hgo, fun last _ hl => (by rw [h] at hl; cases hl)⟩,
       fun hm hgo => (hm hgo).1 (.inr h)⟩
  | some last =>
    haveI := hP.learn s d.segmentNo last
    decidable_of_iff (s.isStopping = false →
        (s.hasFinalBlockId = true → ReceiveMeets P sch now d s) ∧
        (s.hasFinalBlockId = false → P.learn s d.segmentNo last ∧
          (¬ (s.hasFailure = true ∧ s.failedSegNo ≤ last) → ReceiveMeets P sch now d (learnt last s))))
      ⟨fun hm hgo => ⟨fun hc => hc.elim (hm hgo).1 fun hn => (by rw [h] at hn; cases hn),
          fun l hf hl => (by rw [h] at hl; cases hl; exact (hm hgo).2 hf)⟩,
        fun hm hgo => ⟨fun hf => (hm hgo).1 (.inl hf), fun hf => (hm hgo).2 last hf h⟩⟩

instance (now : Time) (n : ℕ) (s : Adaptive κ) : Decidable (RequeueMeets P sch now n s) :=
  haveI := hP.requeue s n
  inferInstanceAs (Decidable (_ → _ ∧ _))

instance (now : Time) (n : ℕ) (s : Adaptive κ) : (reason : NackReason) → Decidable (NackMeets P sch now n s reason)
  | .duplicate => isTrue trivial
  | .congestion => inferInstanceAs (Decidable (RequeueMeets P sch now n s))
  | .none | .noRoute => inferInstanceAs (Decidable (FailMeets P n s))

/-- A condition on the segment of a pending Interest, if it is pending. -/
def decidableOfSegment {Q : ℕ → Prop} [DecidablePred Q] (o : Option ℕ) : Decidable (∀ n, o = some n → Q n) :=
  match o with
  | none => isTrue fun _ h => by cases h
  | some n => decidable_of_iff (Q n) ⟨fun h m hm => (by cases hm; exact h), fun h => h n rfl⟩

instance (s : Adaptive κ) : (e : Event) → Decidable (Meets P sch s e)
  | .data now id d => inferInstanceAs (Decidable (DataMeets P sch now d (answered id s)))
  | .nack now id reason =>
    decidableOfSegment (Q := fun n => NackMeets P sch now n (answered id s) reason) (s.face.segmentOf id)
  | .expire now id => decidableOfSegment (Q := fun n => RequeueMeets P sch now n (answered id s)) (s.face.segmentOf id)
  | .checkRto now order => inferInstanceAs (Decidable (NextMeets P sch now (checkRto sch now order s)))
  | .cancel => isTrue trivial

end

/-! ## The rule for steps -/

/-- What to prove of an invariant `I`: `R n` holds in the callback for segment `n`, `Q n` there once the
FinalBlockId has been looked at, and `M` where `schedulePackets` is called. -/
structure Preserves (sch : Scheme κ) (P : Points κ) (I M : Adaptive κ → Prop)
    (R Q : ℕ → Adaptive κ → Prop) : Prop where
  going : ∀ {s n}, R n s → s.isStopping = false
  idle : ∀ {s n}, R n s → I s
  stopped : ∀ {s} (id : ℕ), I s → s.isStopping = true → I (answered id s)
  cancel : ∀ {s}, I s → s.isStopping = false → I (cancel s)
  answered : ∀ {s id n}, I s → s.isStopping = false → s.face.segmentOf id = some n → R n (answered id s)
  requeue : ∀ {s n} (now : Time), R n s → P.requeue s n → M (lost sch now 1 (requeue n s))
  expired : ∀ {s ns} (now : Time), I s → s.isStopping = false → ns.Nodup → ns ≠ [] →
    (∀ n ∈ ns, n ∈ s.segmentInfo.inFlight) → M (lost sch now ns.length (requeueAll ns s))
  fail : ∀ {s n} (reason : String), R n s → FailMeets P n s → I (handleFail n reason s)
  learnStop : ∀ {s n last}, R n s → s.hasFinalBlockId = false → s.hasFailure = true → s.failedSegNo ≤ last →
    I (onFailure s.failureReason (learnLast last s))
  plain : ∀ {s n}, R n s → Q n s
  learn : ∀ {s n last}, R n s → s.hasFinalBlockId = false → P.learn s n last →
    (s.hasFailure = true → last < s.failedSegNo) → Q n (learnt last s)
  ignored : ∀ {s n}, Q n s → sch.isCubic = true → n ∉ s.segmentInfo → I { s with highData := max s.highData n }
  duplicate : ∀ {s n}, Q n s → IsRetxReceived n s → P.receive s n → I (eraseInfo n (touch n s))
  complete : ∀ {s} {d : Data} (now : Time), Q d.segmentNo s → ¬ IsRetxReceived d.segmentNo s →
    (sch.isCubic = true → d.segmentNo ∈ s.segmentInfo) → P.receive s d.segmentNo →
    (accept sch now d (touch d.segmentNo s)).allReceived →
    I (succeed (accept sch now d (touch d.segmentNo s)))
  accept : ∀ {s} {d : Data} (now : Time), Q d.segmentNo s → ¬ IsRetxReceived d.segmentNo s →
    (sch.isCubic = true → d.segmentNo ∈ s.segmentInfo) → P.receive s d.segmentNo →
    ¬ (accept sch now d (touch d.segmentNo s)).allReceived → M (accept sch now d (touch d.segmentNo s))
  schedule : ∀ {s} (now : Time), M s → ScheduleMeets P sch now s → I (schedulePackets sch now s)

variable {sch : Scheme κ} {P : Points κ} {I M : Adaptive κ → Prop} {R Q : ℕ → Adaptive κ → Prop}
  {s : Adaptive κ}

/-- Only a segment in flight can time out. -/
theorem mem_inFlight_of_expired {now : Time} {order : List ℕ} {n : ℕ} (hperm : order.Perm s.segmentInfo.keys)
    (hn : n ∈ order.filter fun n => rtoExpired now (s.segmentInfo.infoOf n)) : n ∈ s.segmentInfo.inFlight := by
  obtain ⟨hn, hex⟩ := List.mem_filter.1 hn
  have hk : n ∈ s.segmentInfo := AList.mem_keys.2 (hperm.mem_iff.1 hn)
  refine SegmentMap.mem_inFlight_iff.2 ⟨_, SegmentMap.lookup_of_mem hk, ?_⟩
  obtain ⟨h1, h2, -⟩ := of_decide_eq_true hex
  cases hst : (s.segmentInfo.infoOf n).state
  · rfl
  · exact absurd hst h1
  · rfl
  · exact absurd hst h2

namespace Preserves

theorem receive (h : Preserves sch P I M R Q) {now : Time} {d : Data} (hr : Q d.segmentNo s)
    (hm : ReceiveMeets P sch now d s) : I ((Adaptive.receive sch now d s).finish sch now) := by
  obtain ⟨hp, hnext⟩ := hm
  rcases receive_cases sch now d s with ⟨hcub, hno, heq⟩ | ⟨hdup, heq⟩ |
      ⟨hdup, hc, _, rfl, ⟨hall, heq⟩ | ⟨hall, heq⟩⟩
  · rw [heq]; exact h.ignored hr hcub hno
  · rw [heq]; exact h.duplicate hr hdup hp
  · rw [heq]; exact h.complete now hr hdup hc hp hall
  · rw [heq] at hnext ⊢
    exact h.schedule now (h.accept now hr hdup hc hp hall) hnext

theorem handleData (h : Preserves sch P I M R Q) (now : Time) {d : Data} (hr : R d.segmentNo s)
    (hm : DataMeets P sch now d s) : I ((Adaptive.handleData sch now d s).finish sch now) := by
  have hgo := h.going hr
  obtain ⟨hplain, hlearn⟩ := hm hgo
  rcases handleData_cases sch now d hgo with ⟨hc, heq⟩ | ⟨last, hf, hl, ⟨h1, h2, heq⟩ | ⟨hstop, heq⟩⟩
  · rw [heq]; exact h.receive (h.plain hr) (hplain hc)
  · rw [heq]; exact h.learnStop hr hf h1 h2
  · rw [heq]
    refine h.receive (h.learn hr hf (hlearn last hf hl).1 fun hfail => ?_) ((hlearn last hf hl).2 hstop)
    by_contra hlt
    exact hstop ⟨hfail, by omega⟩

theorem requeueSegment (h : Preserves sch P I M R Q) {now : Time} {n : ℕ} (hr : R n s)
    (hm : RequeueMeets P sch now n s) : I ((handleTimeout sch now 1 (Adaptive.requeue n s)).finish sch now) := by
  obtain ⟨hp, hs⟩ := hm (h.going hr)
  rw [handleTimeout_succ sch now (by decide)]
  exact h.schedule now (h.requeue now hr hp) hs

theorem handleNack (h : Preserves sch P I M R Q) {now : Time} {n : ℕ} {reason : NackReason} (hr : R n s)
    (hm : NackMeets P sch now n s reason) : I ((Adaptive.handleNack sch now n reason s).finish sch now) := by
  have hgo := h.going hr
  unfold Adaptive.handleNack
  rw [if_neg (by simp [hgo])]
  cases reason with
  | none => exact h.fail _ hr hm
  | congestion => exact h.requeueSegment hr hm
  | duplicate => exact h.idle hr
  | noRoute => exact h.fail _ hr hm

theorem checkRto (h : Preserves sch P I M R Q) {now : Time} {order : List ℕ} (hi : I s)
    (hperm : order.Perm s.segmentInfo.keys) (hm : NextMeets P sch now (Adaptive.checkRto sch now order s)) :
    I ((Adaptive.checkRto sch now order s).finish sch now) := by
  unfold Adaptive.checkRto at hm ⊢
  by_cases hgo : s.isStopping = true
  · rw [if_pos hgo]; exact hi
  rw [if_neg hgo] at hm ⊢
  have hnd : order.Nodup := hperm.nodup_iff.2 s.segmentInfo.keys_nodup
  rw [queueExpired_eq now order hnd, Nat.zero_add] at hm ⊢
  have hmem : ∀ n ∈ order.filter (fun n => rtoExpired now (s.segmentInfo.infoOf n)), n ∈ s.segmentInfo.inFlight :=
    fun _ hn => mem_inFlight_of_expired hperm hn
  by_cases hnil : (order.filter fun n => rtoExpired now (s.segmentInfo.infoOf n)) = []
  · rw [hnil]; exact hi
  · rw [handleTimeout_succ sch now (by simpa using hnil)] at hm ⊢
    exact h.schedule now (h.expired now hi (by simpa using hgo) (hnd.filter _) hnil hmem) hm

/-- A step that passes only places that meet their condition keeps the invariant. -/
theorem step (h : Preserves sch P I M R Q) {e : Event} (hi : I s) (he : enabled s e) (hm : Meets P sch s e) :
    I (Adaptive.step sch s e) := by
  cases hgo : s.isStopping with
  | true =>
    -- a pipeline that is stopping only takes the answer off the Face
    have hcb : ∀ now id handler, (∀ t n, t.isStopping = true → handler n t = .done t) →
        I (callback sch now id handler s) := by
      intro now id handler hdone
      unfold callback
      split
      · exact hi
      · rw [hdone _ _ (show (Adaptive.answered id s).isStopping = true from hgo)]
        exact h.stopped id hi hgo
    cases e with
    | data now id d => exact hcb _ _ _ fun t n ht => if_pos ht
    | nack now id reason => exact hcb _ _ _ fun t n ht => if_pos ht
    | expire now id => exact hcb _ _ _ fun t n ht => if_pos ht
    | checkRto now order => exact h.checkRto hi he hm
    | cancel => rw [show Adaptive.step sch s .cancel = s from cancel_of_stopping hgo]; exact hi
  | false =>
    cases e with
    | data now id d =>
      have hn : s.face.segmentOf id = some d.segmentNo := he
      simp only [Adaptive.step, callback, hn]
      exact h.handleData _ (h.answered hi hgo hn) hm
    | nack now id reason =>
      obtain ⟨n, hn⟩ := Option.isSome_iff_exists.1 he
      simp only [Adaptive.step, callback, hn]
      exact h.handleNack (h.answered hi hgo hn) (hm n hn)
    | expire now id =>
      obtain ⟨n, hn⟩ := Option.isSome_iff_exists.1 he
      simp only [Adaptive.step, callback, hn]
      have hr := h.answered hi hgo hn
      unfold handleLifetimeExpiration
      rw [if_neg (by simp [h.going hr])]
      exact h.requeueSegment hr (hm n hn)
    | checkRto now order => exact h.checkRto hi he hm
    | cancel => exact h.cancel hi hgo

end Preserves

/-! ## The rule for the loop of `schedulePackets` -/

/-- What to prove of an invariant of the loop. -/
structure LoopPreserves (sch : Scheme κ) (P : Points κ) (M : Adaptive κ → Prop) : Prop where
  pop : ∀ {s n queue}, M s → s.retxQueue = n :: queue → n ∉ s.segmentInfo → M (popRetx queue s)
  going : ∀ {s n}, M s → n ∈ s.segmentInfo → s.isStopping = false
  resend : ∀ {s n queue} (now : Time), M s → s.retxQueue = n :: queue → n ∈ s.segmentInfo → ¬ Exhausted sch n s →
    P.resend (popRetx queue s) n → M (resend sch now n (countRetx n (popRetx queue s)))
  fail : ∀ {s n queue} (reason : String), M s → s.retxQueue = n :: queue → n ∈ s.segmentInfo → Exhausted sch n s →
    FailMeets P n (countRetx n (popRetx queue s)) → M (handleFail n reason (countRetx n (popRetx queue s)))
  skip : ∀ {s}, M s → s.retxQueue = [] → s.isStopping = true ∨ s.beyond (nextNo s) ∨ s.hasFailure = true →
    M (advance s)
  first : ∀ {s} (now : Time), M s → s.retxQueue = [] → s.isStopping = false → ¬ s.beyond (nextNo s) →
    s.hasFailure = false →
    M (sendFirst sch now (nextNo s) (advance s))

theorem LoopPreserves.loop (h : LoopPreserves sch P M) {now : Time} (hs : M s) (hm : ScheduleMeets P sch now s) :
    M (schedulePackets sch now s) := by
  refine Loop.run_inv (I := fun x => M x.2) (fun x hg hx hp => ?_) hs hm.2
  obtain ⟨avail, s⟩ := x
  simp only at hx
  cases hq : s.retxQueue with
  | nil =>
    simp only [scheduleLoop, hq]
    rcases sendNext_cases sch now s with ⟨hc, heq⟩ | ⟨h1, h2, h3, heq⟩
    · rw [heq]; exact h.skip hx hq hc
    · rw [heq]; exact h.first now hx hq h1 h2 h3
  | cons n queue =>
    simp only [scheduleLoop, hq]
    by_cases hn : n ∈ s.segmentInfo
    · rw [if_pos hn]
      obtain ⟨hres, hfail⟩ := hp n queue hq hn
      rcases sendInterest_retransmission (s := popRetx queue s) sch now n
          (show s.isStopping = false from h.going hx hn) with ⟨hex, heq⟩ | ⟨hex, heq⟩
      · exact heq ▸ h.fail _ hx hq hn hex (hfail hex)
      · exact heq ▸ h.resend now hx hq hn hex (hres hex)
    · rw [if_neg hn]; exact h.pop hx hq hn

/-! ## Steps without a condition on their places -/

theorem iterMeets_any (x : ℤ × Adaptive κ) : IterMeets {} sch x :=
  fun _ _ _ _ => ⟨fun _ => trivial, fun _ _ _ => trivial⟩

theorem scheduleMeets_any (now : Time) (s : Adaptive κ) : ScheduleMeets {} sch now s :=
  ⟨trivial, Loop.each_of_forall iterMeets_any⟩

theorem nextMeets_any (now : Time) (next : Next κ) : NextMeets {} sch now next := by
  cases next with
  | done s => trivial
  | schedulePackets s => exact scheduleMeets_any now s

theorem meets_any (s : Adaptive κ) (e : Event) : Meets {} sch s e := by
  cases e with
  | data now id d =>
    intro _
    exact ⟨fun _ => ⟨trivial, nextMeets_any now _⟩, fun _ _ _ => ⟨trivial, fun _ => ⟨trivial, nextMeets_any now _⟩⟩⟩
  | nack now id reason =>
    intro n _
    cases reason with
    | none => exact fun _ _ => trivial
    | congestion => exact fun _ => ⟨trivial, scheduleMeets_any now _⟩
    | duplicate => trivial
    | noRoute => exact fun _ _ => trivial
  | expire now id => exact fun n _ _ => ⟨trivial, scheduleMeets_any now _⟩
  | checkRto now order => exact nextMeets_any now _
  | cancel => trivial

end NdnTools.Chunks.Adaptive
