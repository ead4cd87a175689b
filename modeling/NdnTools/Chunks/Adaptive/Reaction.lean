/-
Conservative window adaptation: between two reactions to a loss the pipeline receives Data of a
segment that it requested after the first of the two.

`Since N H` is the invariant, relative to a moment at which `N` was the next segment number and `H`
the highest segment requested: every segment of an entry or of a pending Interest is at most `H` or
at least `N`, and none is above the highest segment requested by now. A reaction sets `m_recPoint` to
`H`, and the next one needs `m_highData` above it (`Effect`).
-/
import NdnTools.Chunks.Adaptive.Keyed
import NdnTools.Chunks.Adaptive.Aimd

namespace NdnTools.Chunks.Adaptive

variable {κ : Type} {sch : Scheme κ} {s s' : Adaptive κ} {n N H : ℕ}

/-- The step reacts to a loss. -/
def Reacts (sch : Scheme κ) (s : Adaptive κ) (e : Event) : Prop := (step sch s e).nLossEvents ≠ s.nLossEvents

instance (e : Event) : Decidable (Reacts sch s e) := inferInstanceAs (Decidable (_ ≠ _))

/-! ## What a step does to the counters of the reaction -/

/-- The operation leaves the counters that decide about a reaction alone. -/
structure Calm (s s' : Adaptive κ) : Prop where
  highData : s'.highData = s.highData
  recPoint : s'.recPoint = s.recPoint
  nLossEvents : s'.nLossEvents = s.nLossEvents

theorem Calm.refl (s : Adaptive κ) : Calm s s := ⟨rfl, rfl, rfl⟩

theorem Calm.trans {s'' : Adaptive κ} (h : Calm s s') (h' : Calm s' s'') : Calm s s'' :=
  ⟨h'.highData.trans h.highData, h'.recPoint.trans h.recPoint, h'.nLossEvents.trans h.nLossEvents⟩

theorem calm_cancel (s : Adaptive κ) : Calm s (cancel s) := by
  unfold cancel
  split
  · exact Calm.refl s
  · exact ⟨rfl, rfl, rfl⟩

theorem calm_onFailure (reason : String) (s : Adaptive κ) : Calm s (onFailure reason s) := by
  obtain ⟨_, _, _, _, heq, -⟩ := onFailure_frame reason s
  rw [heq]
  exact ⟨rfl, rfl, rfl⟩

theorem calm_handleFail (n : ℕ) (reason : String) (s : Adaptive κ) : Calm s (handleFail n reason s) := by
  obtain ⟨_, _, _, _, _, _, _, _, _, heq, -⟩ := handleFail_frame n reason s
  rw [heq]
  exact ⟨rfl, rfl, rfl⟩

theorem calm_loop (sch : Scheme κ) (base : Adaptive κ) : LoopPreserves sch {} fun s => Keyed s ∧ Calm base s where
  pop h hq hn := ⟨(keyed_loop sch {}).pop h.1 hq hn, h.2.trans ⟨rfl, rfl, rfl⟩⟩
  going h hn := h.1.going_of_mem hn
  resend now h hq hn hex hp := ⟨(keyed_loop sch {}).resend now h.1 hq hn hex hp, h.2.trans ⟨rfl, rfl, rfl⟩⟩
  fail reason h hq hn hex hp := by
    refine ⟨(keyed_loop sch {}).fail reason h.1 hq hn hex hp, ?_⟩
    refine Calm.trans ?_ (calm_handleFail _ reason _)
    exact h.2.trans ⟨rfl, rfl, rfl⟩
  skip h hq hc := ⟨(keyed_loop sch {}).skip h.1 hq hc, h.2.trans ⟨rfl, rfl, rfl⟩⟩
  first now h hq hgo hb hf := ⟨(keyed_loop sch {}).first now h.1 hq hgo hb hf, h.2.trans ⟨rfl, rfl, rfl⟩⟩

theorem calm_schedulePackets (now : Time) (h : Keyed s) : Calm s (schedulePackets sch now s) :=
  ((calm_loop sch s).loop ⟨h, Calm.refl s⟩ (scheduleMeets_any now s)).2

/-- What an event does to the counters: nothing, or it brings Data that may be the highest, or it
reacts to a loss. -/
inductive Effect (sch : Scheme κ) (s : Adaptive κ) : Event → Adaptive κ → Prop
  | calm {e : Event} {s' : Adaptive κ} (same : Calm s s') : Effect sch s e s'
  | receive {s' : Adaptive κ} (now : Time) (id : ℕ) (d : Data) (going : s.isStopping = false)
      (pending : s.face.segmentOf id = some d.segmentNo) (highData : s'.highData = max s.highData d.segmentNo)
      (recPoint : s'.recPoint = s.recPoint) (nLossEvents : s'.nLossEvents = s.nLossEvents) :
      Effect sch s (.data now id d) s'
  | react {e : Event} {s' : Adaptive κ} (allowed : sch.disableCwa = true ∨ s.recPoint < s.highData)
      (highData : s'.highData = s.highData) (recPoint : s'.recPoint = s.highInterest)
      (nLossEvents : s'.nLossEvents = s.nLossEvents + 1) : Effect sch s e s'

/-- The operation also leaves the highest segment requested alone. -/
structure Still (s s' : Adaptive κ) : Prop extends Calm s s' where
  highInterest : s'.highInterest = s.highInterest

/-- The reaction of `handleTimeout`, before and after it other work. -/
theorem effect_lost {e : Event} {t : Adaptive κ} (now : Time) (k : ℕ) (h : Still s t)
    (h' : Calm (lost sch now k t) s') : Effect sch s e s' := by
  obtain ⟨⟨hd, hr, hl⟩, hi⟩ := h
  obtain ⟨hd', hr', hl'⟩ := h'
  by_cases hc : sch.disableCwa = true ∨ t.recPoint < t.highData
  · have heq : lost sch now k t =
        { t with
          recPoint := t.highInterest
          control := sch.backoffRto (sch.decreaseWindow now t.control)
          nLossEvents := t.nLossEvents + 1
          nInFlight := t.nInFlight - k } := by
      simp [lost, reactToLoss, hc]
    rw [heq] at hd' hr' hl'
    rw [hr, hd] at hc
    exact .react hc (hd'.trans hd) (hr'.trans hi) (hl'.trans (congrArg (· + 1) hl))
  · have heq : lost sch now k t = { t with nInFlight := t.nInFlight - k } := by
      simp [lost, reactToLoss, hc]
    rw [heq] at hd' hr' hl'
    exact .calm ⟨hd'.trans hd, hr'.trans hr, hl'.trans hl⟩

/-- What `handleData` does once it has looked at the FinalBlockId: the Data may be the highest. -/
theorem calm_receive (sch : Scheme κ) (now : Time) {d : Data} (h : Called d.segmentNo s) :
    Calm { s with highData := max s.highData d.segmentNo } ((receive sch now d s).finish sch now) := by
  rcases receive_cases sch now d s with ⟨-, -, heq⟩ | ⟨-, heq⟩ | ⟨-, -, t, rfl, hall⟩
  · rw [heq]
    exact Calm.refl _
  · rw [heq]
    exact ⟨rfl, rfl, rfl⟩
  · have hkeyed : Keyed (accept sch now d (touch d.segmentNo s)) := keyed_received h
    have haccept : Calm { s with highData := max s.highData d.segmentNo }
        (accept sch now d (touch d.segmentNo s)) := by
      obtain ⟨c, i, heq⟩ := accept_frame sch now d (touch d.segmentNo s)
      rw [heq]
      exact ⟨rfl, rfl, rfl⟩
    rcases hall with ⟨-, heq⟩ | ⟨-, heq⟩
    · rw [heq]
      obtain ⟨h1, h2, h3⟩ := calm_cancel (accept sch now d (touch d.segmentNo s))
      exact haccept.trans ⟨h1, h2, h3⟩
    · rw [heq]
      exact haccept.trans (calm_schedulePackets now hkeyed)

theorem effect_data {now : Time} {id : ℕ} {d : Data} (h : Keyed s) (hgo : s.isStopping = false)
    (hid : s.face.segmentOf id = some d.segmentNo) :
    Effect sch s (.data now id d) ((handleData sch now d (answered id s)).finish sch now) := by
  have hcalled : Called d.segmentNo (answered id s) := called_answered h hgo hid
  rcases handleData_cases sch now d hcalled.going with ⟨-, heq⟩ | ⟨last, -, -, ⟨-, -, heq⟩ | ⟨-, heq⟩⟩
  · rw [heq]
    obtain ⟨h1, h2, h3⟩ := calm_receive sch now hcalled
    exact .receive now id d hgo hid h1 h2 h3
  · rw [heq]
    obtain ⟨h1, h2, h3⟩ := calm_onFailure (answered id s).failureReason (learnLast last (answered id s))
    exact .calm ⟨h1, h2, h3⟩
  · rw [heq]
    obtain ⟨h1, h2, h3⟩ := calm_receive sch now (called_learnt hcalled last)
    exact .receive now id d hgo hid h1 h2 h3

/-- A segment is queued again and counted as lost. -/
theorem effect_requeue {e : Event} {now : Time} {id : ℕ} (h : Keyed s) (hgo : s.isStopping = false)
    (hid : s.face.segmentOf id = some n) :
    Effect sch s e ((handleTimeout sch now 1 (requeue n (answered id s))).finish sch now) := by
  have hcalled : Called n (answered id s) := called_answered h hgo hid
  rw [handleTimeout_succ sch now (by decide)]
  refine effect_lost (t := requeue n (answered id s)) now 1 ⟨⟨rfl, rfl, rfl⟩, rfl⟩ ?_
  exact calm_schedulePackets now (keyed_lost (keyed_requeue hcalled) now 1)

theorem effect_checkRto {e : Event} {now : Time} {order : List ℕ} (h : Keyed s)
    (hperm : order.Perm s.segmentInfo.keys) :
    Effect sch s e ((checkRto sch now order s).finish sch now) := by
  unfold checkRto
  by_cases hgo : s.isStopping = true
  · rw [if_pos hgo]
    exact .calm (Calm.refl s)
  rw [if_neg hgo, queueExpired_eq now order (hperm.nodup_iff.2 s.segmentInfo.keys_nodup), Nat.zero_add]
  by_cases hnil : (order.filter fun n => rtoExpired now (s.segmentInfo.infoOf n)) = []
  · rw [hnil]
    exact .calm (Calm.refl s)
  · rw [handleTimeout_succ sch now (by simpa using hnil)]
    have hstill : Still s (requeueAll (order.filter fun n => rtoExpired now (s.segmentInfo.infoOf n)) s) := by
      obtain ⟨i, heq⟩ := requeueAll_frame (order.filter fun n => rtoExpired now (s.segmentInfo.infoOf n)) s
      rw [heq]
      exact ⟨⟨rfl, rfl, rfl⟩, rfl⟩
    refine effect_lost now _ hstill (calm_schedulePackets now (keyed_lost ?_ now _))
    exact keyed_requeueAll _ h (by simpa using hgo) fun n hn => mem_inFlight_of_expired hperm hn

theorem step_effect {e : Event} (h : Keyed s) (he : enabled s e) : Effect sch s e (step sch s e) := by
  cases hgo : s.isStopping with
  | true =>
    -- a pipeline that is stopping only takes the answer off the Face
    have hcb : ∀ now id handler, (∀ t n, t.isStopping = true → handler n t = .done t) →
        Effect sch s e (callback sch now id handler s) := by
      intro now id handler hdone
      unfold callback
      split
      · exact .calm (Calm.refl s)
      · rw [hdone _ _ (show (answered id s).isStopping = true from hgo)]
        exact .calm ⟨rfl, rfl, rfl⟩
    cases e with
    | data now id d => exact hcb _ _ _ fun t n ht => if_pos ht
    | nack now id reason => exact hcb _ _ _ fun t n ht => if_pos ht
    | expire now id => exact hcb _ _ _ fun t n ht => if_pos ht
    | checkRto now order => exact effect_checkRto h he
    | cancel => exact .calm (calm_cancel s)
  | false =>
    cases e with
    | data now id d =>
      have hn : s.face.segmentOf id = some d.segmentNo := he
      simp only [step, callback, hn]
      exact effect_data h hgo hn
    | nack now id reason =>
      obtain ⟨n, hn⟩ := Option.isSome_iff_exists.1 he
      simp only [step, callback, hn]
      unfold handleNack
      rw [if_neg (show ¬ (answered id s).isStopping = true by simp [answered, hgo])]
      have hfail : ∀ reason, Calm s (handleFail n reason (answered id s)) := by
        intro reason
        obtain ⟨h1, h2, h3⟩ := calm_handleFail n reason (answered id s)
        exact ⟨h1, h2, h3⟩
      cases reason with
      | none => exact .calm (hfail _)
      | congestion => exact effect_requeue h hgo hn
      | duplicate => exact .calm ⟨rfl, rfl, rfl⟩
      | noRoute => exact .calm (hfail _)
    | expire now id =>
      obtain ⟨n, hn⟩ := Option.isSome_iff_exists.1 he
      simp only [step, callback, hn]
      unfold handleLifetimeExpiration
      rw [if_neg (show ¬ (answered id s).isStopping = true by simp [answered, hgo])]
      exact effect_requeue h hgo hn
    | checkRto now order => exact effect_checkRto h he
    | cancel => exact .calm (calm_cancel s)

/-! ## What a step without a reaction does -/

/-- The scheme with another reaction to a loss. -/
def withReaction (sch : Scheme κ) (decreaseWindow : Time → κ → κ) (backoffRto : κ → κ) : Scheme κ :=
  { sch with decreaseWindow := decreaseWindow, backoffRto := backoffRto }

/-- Without a reaction `handleTimeout` only counts the losses. -/
theorem handleTimeout_withReaction {k : ℕ} (now : Time) (hk : k ≠ 0) (h : Keyed (lost sch now k s))
    (hsame : ((handleTimeout sch now k s).finish sch now).nLossEvents = s.nLossEvents) (d : Time → κ → κ)
    (b : κ → κ) : handleTimeout (withReaction sch d b) now k s = handleTimeout sch now k s := by
  have hcalm : ¬ (sch.disableCwa = true ∨ s.recPoint < s.highData) := by
    intro hc
    rw [handleTimeout_succ sch now hk] at hsame
    change (schedulePackets sch now (lost sch now k s)).nLossEvents = s.nLossEvents at hsame
    have hschedule : Calm _ (schedulePackets sch now (lost sch now k s)) := calm_schedulePackets now h
    have hkept := hschedule.nLossEvents
    have hlost : (lost sch now k s).nLossEvents = s.nLossEvents + 1 := by
      simp [lost, reactToLoss, hc]
    omega
  have hquiet : reactToLoss sch now s = s := if_neg hcalm
  have hquiet' : reactToLoss (withReaction sch d b) now s = s := if_neg hcalm
  unfold handleTimeout
  rw [if_neg hk, if_neg hk, hquiet, hquiet']

theorem requeue_withReaction {now : Time} {id : ℕ} (h : Keyed s) (hgo : s.isStopping = false)
    (hid : s.face.segmentOf id = some n)
    (hsame : ((handleTimeout sch now 1 (requeue n (answered id s))).finish sch now).nLossEvents = s.nLossEvents)
    (d : Time → κ → κ) (b : κ → κ) :
    handleTimeout (withReaction sch d b) now 1 (requeue n (answered id s)) =
      handleTimeout sch now 1 (requeue n (answered id s)) :=
  handleTimeout_withReaction now (by decide) (keyed_lost (keyed_requeue (called_answered h hgo hid)) now 1) hsame d b

theorem checkRto_withReaction {now : Time} {order : List ℕ} (h : Keyed s) (hperm : order.Perm s.segmentInfo.keys)
    (hsame : ((checkRto sch now order s).finish sch now).nLossEvents = s.nLossEvents) (d : Time → κ → κ)
    (b : κ → κ) : checkRto (withReaction sch d b) now order s = checkRto sch now order s := by
  unfold checkRto at hsame ⊢
  by_cases hst : s.isStopping = true
  · rw [if_pos hst, if_pos hst]
  rw [if_neg hst, queueExpired_eq now order (hperm.nodup_iff.2 s.segmentInfo.keys_nodup), Nat.zero_add] at hsame ⊢
  rw [if_neg hst]
  by_cases hnil : (order.filter fun n => rtoExpired now (s.segmentInfo.infoOf n)) = []
  · rw [hnil]
    rfl
  · refine handleTimeout_withReaction now (by simpa using hnil) (keyed_lost ?_ now _) ?_ d b
    · exact keyed_requeueAll _ h (by simpa using hst) fun n hn => mem_inFlight_of_expired hperm hn
    · obtain ⟨i, heq⟩ := requeueAll_frame (order.filter fun n => rtoExpired now (s.segmentInfo.infoOf n)) s
      rw [hsame, heq]

/-- A step that does not react to a loss does the same whatever the reaction would be: it calls neither
`decreaseWindow` nor `backoffRto`. -/
theorem step_withReaction {e : Event} (h : Keyed s) (he : enabled s e) (hno : ¬ Reacts sch s e) (d : Time → κ → κ)
    (b : κ → κ) : step (withReaction sch d b) s e = step sch s e := by
  have hsame : (step sch s e).nLossEvents = s.nLossEvents := not_not.1 hno
  cases e with
  | data now id d => rfl
  | nack now id reason =>
    obtain ⟨n, hn⟩ := Option.isSome_iff_exists.1 he
    simp only [step, callback, hn] at hsame ⊢
    unfold handleNack at hsame ⊢
    by_cases hst : (answered id s).isStopping = true
    · rw [if_pos hst, if_pos hst]
      rfl
    rw [if_neg hst] at hsame ⊢
    rw [if_neg hst]
    cases reason with
    | none => rfl
    | congestion =>
      rw [requeue_withReaction h (by simpa [answered] using hst) hn hsame]
      rfl
    | duplicate => rfl
    | noRoute => rfl
  | expire now id =>
    obtain ⟨n, hn⟩ := Option.isSome_iff_exists.1 he
    simp only [step, callback, hn] at hsame ⊢
    unfold handleLifetimeExpiration at hsame ⊢
    by_cases hst : (answered id s).isStopping = true
    · rw [if_pos hst, if_pos hst]
      rfl
    rw [if_neg hst] at hsame ⊢
    rw [if_neg hst, requeue_withReaction h (by simpa [answered] using hst) hn hsame]
    rfl
  | checkRto now order =>
    show (checkRto (withReaction sch d b) now order s).finish _ now = _
    rw [checkRto_withReaction h he hsame]
    rfl
  | cancel => rfl

/-! ## The segments requested before and after a moment -/

/-- The segment was requested, before the moment or after it. -/
def Placed (N H n : ℕ) (s : Adaptive κ) : Prop := n ≤ s.highInterest ∧ (n ≤ H ∨ N ≤ n)

structure Since (N H : ℕ) (s : Adaptive κ) : Prop where
  keyed : Keyed s
  entries : ∀ n info, s.segmentInfo.lookup n = some info → Placed N H n s
  pending : ∀ p ∈ s.face.pending, Placed N H p.2 s
  data : s.highData ≤ s.highInterest
  interest : s.highInterest ≤ s.nextSegmentNo
  next : N ≤ s.nextSegmentNo

/-- An operation that leaves the numbers alone and adds entries and Interests of placed segments only. -/
structure Stays (N H : ℕ) (s s' : Adaptive κ) : Prop where
  highData : s'.highData = s.highData
  highInterest : s'.highInterest = s.highInterest
  nextSegmentNo : s'.nextSegmentNo = s.nextSegmentNo
  entries : ∀ n info, s'.segmentInfo.lookup n = some info →
    (∃ info', s.segmentInfo.lookup n = some info') ∨ Placed N H n s
  pending : ∀ p ∈ s'.face.pending, p ∈ s.face.pending ∨ Placed N H p.2 s

theorem Stays.refl (s : Adaptive κ) : Stays N H s s :=
  ⟨rfl, rfl, rfl, fun _ info hl => .inl ⟨info, hl⟩, fun _ hp => .inl hp⟩

theorem Stays.trans {s'' : Adaptive κ} (h : Stays N H s s') (h' : Stays N H s' s'') : Stays N H s s'' := by
  have hplaced : ∀ {m}, Placed N H m s' → Placed N H m s := fun hm => ⟨h.highInterest ▸ hm.1, hm.2⟩
  refine ⟨h'.highData.trans h.highData, h'.highInterest.trans h.highInterest,
    h'.nextSegmentNo.trans h.nextSegmentNo, fun m info hl => ?_, fun p hp => ?_⟩
  · rcases h'.entries m info hl with ⟨info', hl'⟩ | hm
    · exact h.entries m info' hl'
    · exact .inr (hplaced hm)
  · rcases h'.pending p hp with hp | hm
    · exact h.pending p hp
    · exact .inr (hplaced hm)

theorem Since.keep (h : Since N H s) (hk : Keyed s') (hs : Stays N H s s') : Since N H s' where
  keyed := hk
  entries n info hl := by
    unfold Placed
    rw [hs.highInterest]
    rcases hs.entries n info hl with ⟨info', hl'⟩ | hplaced
    · exact h.entries n info' hl'
    · exact hplaced
  pending p hp := by
    unfold Placed
    rw [hs.highInterest]
    rcases hs.pending p hp with hp | hplaced
    · exact h.pending p hp
    · exact hplaced
  data := by rw [hs.highData, hs.highInterest]; exact h.data
  interest := by rw [hs.highInterest, hs.nextSegmentNo]; exact h.interest
  next := by rw [hs.nextSegmentNo]; exact h.next

theorem Since.placed_of_mem (h : Since N H s) (hn : n ∈ s.segmentInfo) : Placed N H n s := by
  obtain ⟨info, hl⟩ := SegmentMap.mem_iff_lookup.1 hn
  exact h.entries n info hl

/-- In the callback for segment `n`. -/
structure SinceAt (N H n : ℕ) (s : Adaptive κ) : Prop where
  since : Since N H s
  called : Called n s
  placed : Placed N H n s

/-! ## The operations -/

theorem stays_cancel (s : Adaptive κ) : Stays N H s (cancel s) := by
  unfold cancel
  split
  · exact Stays.refl s
  · refine ⟨rfl, rfl, rfl, fun _ _ hl => ?_, fun p hp => .inl (Face.mem_removeAll.1 hp).1⟩
    cases hl

theorem stays_onFailure (reason : String) (s : Adaptive κ) : Stays N H s (onFailure reason s) := by
  unfold onFailure
  split
  · exact Stays.refl s
  · obtain ⟨h1, h2, h3, h4, h5⟩ := stays_cancel (N := N) (H := H) s
    exact ⟨h1, h2, h3, h4, h5⟩

theorem stays_handleFail {reason : String} (hgo : s.isStopping = false) :
    Stays N H s (handleFail n reason s) := by
  rcases handleFail_cases n reason hgo with ⟨-, -, heq⟩ | ⟨-, heq⟩ | ⟨-, heq⟩
  · rw [heq]
    exact stays_onFailure reason s
  · rw [heq]
    exact Stays.refl s
  · rw [heq]
    rcases giveUp_cases n reason s with ⟨-, heq⟩ | ⟨-, heq⟩
    · rw [heq]
      obtain ⟨h1, h2, h3, h4, h5⟩ := stays_onFailure (N := N) (H := H) noFinalSegment (dropped n s)
      refine ⟨h1, h2, h3, fun m info hl => ?_, h5⟩
      rcases h4 m info hl with ⟨info', hl'⟩ | hplaced
      · rw [lookup_dropped] at hl'
        split at hl'
        · cases hl'
        · exact .inl ⟨info', hl'⟩
      · exact .inr hplaced
    · rw [heq]
      refine ⟨rfl, rfl, rfl, fun m info hl => ?_, fun p hp => .inl (Face.mem_removeAll.1 hp).1⟩
      rw [lookup_gaveUp] at hl
      split at hl
      · exact .inl ⟨info, hl⟩
      · cases hl

theorem stays_learnLast (last : ℕ) (s : Adaptive κ) : Stays N H s (learnLast last s) := by
  refine ⟨rfl, rfl, rfl, fun m info hl => ?_, fun p hp => .inl (Face.mem_removeAll.1 hp).1⟩
  rw [lookup_learnLast] at hl
  split at hl
  · exact .inl ⟨info, hl⟩
  · cases hl

theorem stays_learnt (last : ℕ) (s : Adaptive κ) : Stays N H s (learnt last s) := by
  obtain ⟨h1, h2, h3, h4, h5⟩ := stays_learnLast (N := N) (H := H) last s
  exact ⟨h1, h2, h3, h4, h5⟩

theorem stays_answered (id : ℕ) (s : Adaptive κ) : Stays N H s (answered id s) :=
  ⟨rfl, rfl, rfl, fun _ info hl => .inl ⟨info, hl⟩, fun _ hp => .inl (Face.mem_removePendingInterest.1 hp).1⟩

theorem stays_lost (now : Time) (k : ℕ) (s : Adaptive κ) : Stays N H s (lost sch now k s) := by
  obtain ⟨r, c, l, heq⟩ := lost_frame sch now k s
  rw [heq]
  exact ⟨rfl, rfl, rfl, fun _ info hl => .inl ⟨info, hl⟩, fun _ hp => .inl hp⟩

theorem stays_requeue (h : Placed N H n s) : Stays N H s (requeue n s) := by
  refine ⟨rfl, rfl, rfl, fun m info hl => ?_, fun _ hp => .inl hp⟩
  rw [lookup_requeue] at hl
  split at hl
  · rename_i hm
    exact .inr (hm ▸ h)
  · exact .inl ⟨info, hl⟩

theorem stays_requeueAll {ns : List ℕ} (h : ∀ n ∈ ns, Placed N H n s) : Stays N H s (requeueAll ns s) := by
  obtain ⟨i, heq⟩ := requeueAll_frame ns s
  have hlookup := lookup_requeueAll ns s
  rw [heq] at hlookup ⊢
  refine ⟨rfl, rfl, rfl, fun m info hl => ?_, fun _ hp => .inl hp⟩
  rw [hlookup m] at hl
  split at hl
  · rename_i hm
    exact .inr (h m hm)
  · exact .inl ⟨info, hl⟩

theorem stays_eraseInfo (n : ℕ) (s : Adaptive κ) : Stays N H s (eraseInfo n s) := by
  refine ⟨rfl, rfl, rfl, fun m info hl => ?_, fun _ hp => .inl hp⟩
  rw [lookup_eraseInfo] at hl
  split at hl
  · cases hl
  · exact .inl ⟨info, hl⟩

theorem stays_accept {now : Time} {d : Data} (h : Placed N H d.segmentNo s) :
    Stays N H s (accept sch now d s) := by
  obtain ⟨c, i, heq⟩ := accept_frame sch now d s
  have hlookup := fun m => lookup_accept sch now s m d
  rw [heq] at hlookup ⊢
  refine ⟨rfl, rfl, rfl, fun m info hl => ?_, fun _ hp => .inl hp⟩
  rw [hlookup m] at hl
  split at hl
  · rename_i hm
    exact .inr (hm ▸ h)
  · exact .inl ⟨info, hl⟩

theorem stays_succeed (s : Adaptive κ) : Stays N H s (succeed s) := by
  obtain ⟨h1, h2, h3, h4, h5⟩ := stays_cancel (N := N) (H := H) s
  exact ⟨h1, h2, h3, h4, h5⟩

theorem stays_popRetx (queue : List ℕ) (s : Adaptive κ) : Stays N H s (countRetx n (popRetx queue s)) :=
  ⟨rfl, rfl, rfl, fun _ info hl => .inl ⟨info, hl⟩, fun _ hp => .inl hp⟩

theorem stays_resend {now : Time} (h : Placed N H n s) : Stays N H s (resend sch now n s) := by
  refine ⟨rfl, rfl, rfl, fun m info hl => ?_, fun p hp => ?_⟩
  · rw [lookup_resend] at hl
    split at hl
    · rename_i hm
      exact .inr (hm ▸ h)
    · exact .inl ⟨info, hl⟩
  · rcases Face.mem_expressInterest.1 hp with hp | rfl
    · exact .inl (Face.mem_removePendingInterest.1 hp).1
    · exact .inr h

/-- Data of a placed segment may be the highest. -/
theorem since_touch (h : SinceAt N H n s) : Since N H (touch n s) where
  keyed := keyed_touch h.called
  entries m info hl := by
    rw [lookup_touch] at hl
    split at hl
    · rename_i hm
      exact hm ▸ h.placed
    · exact h.since.entries m info hl
  pending := h.since.pending
  data := max_le h.since.data h.placed.1
  interest := h.since.interest
  next := h.since.next

theorem since_advance (h : Since N H s) : Since N H (advance s) where
  keyed := keyed_advance h.keyed
  entries := h.entries
  pending := h.pending
  data := h.data
  interest := h.interest.trans ((nextNo_spec s).2.1.trans (Nat.le_succ _))
  next := h.next.trans ((nextNo_spec s).2.1.trans (Nat.le_succ _))

/-- A segment's first Interest is for a number that is higher than all before. -/
theorem since_sendFirst {now : Time} (h : Since N H s) (hgo : s.isStopping = false) :
    Since N H (sendFirst sch now (nextNo s) (advance s)) := by
  have hnext := (nextNo_spec s).2.1
  have hhigh : s.highInterest ≤ nextNo s := h.interest.trans hnext
  have hplaced : ∀ {m}, Placed N H m s → Placed N H m (sendFirst sch now (nextNo s) (advance s)) :=
    fun hm => ⟨hm.1.trans hhigh, hm.2⟩
  have hnew : Placed N H (nextNo s) (sendFirst sch now (nextNo s) (advance s)) :=
    ⟨le_rfl, .inr (h.next.trans hnext)⟩
  refine ⟨keyed_sendFirst h.keyed hgo, fun m info hl => ?_, fun p hp => ?_, h.data.trans hhigh, Nat.le_succ _,
    h.next.trans (hnext.trans (Nat.le_succ _))⟩
  · rw [lookup_sendFirst (s := advance s) sch _ _ h.keyed.nextNo_notMem] at hl
    split at hl
    · rename_i hm
      exact hm ▸ hnew
    · exact hplaced (h.entries m info hl)
  · rcases Face.mem_expressInterest.1 hp with hp | rfl
    · exact hplaced (h.pending p hp)
    · exact hnew

theorem since_loop (sch : Scheme κ) : LoopPreserves sch {} (Since N H) where
  pop h hq hn := h.keep ((keyed_loop sch {}).pop h.keyed hq hn) ⟨rfl, rfl, rfl, fun _ info hl => .inl ⟨info, hl⟩,
    fun _ hp => .inl hp⟩
  going h hn := h.keyed.going_of_mem hn
  resend now h hq hn hex hp := by
    refine h.keep ((keyed_loop sch {}).resend now h.keyed hq hn hex hp) ?_
    exact (stays_popRetx _ _).trans (stays_resend (h.placed_of_mem hn))
  fail reason h hq hn hex hp := by
    refine h.keep ((keyed_loop sch {}).fail reason h.keyed hq hn hex hp) ?_
    exact (stays_popRetx _ _).trans (stays_handleFail (h.keyed.going_of_mem hn))
  skip h _ _ := since_advance h
  first now h _ hgo _ _ := since_sendFirst h hgo

theorem since_preserves (sch : Scheme κ) :
    Preserves sch {} (Since N H) (Since N H) (SinceAt N H) (SinceAt N H) where
  going h := h.called.going
  idle h := h.since
  stopped id h _ := h.keep (keyed_answered h.keyed id) (stays_answered id _)
  cancel h hgo := h.keep (keyed_cancel h.keyed hgo) (stays_cancel _)
  answered h hgo hn := ⟨h.keep (keyed_answered h.keyed _) (stays_answered _ _), called_answered h.keyed hgo hn,
    h.pending _ (Face.mem_of_segmentOf hn)⟩
  requeue now h _ :=
    h.since.keep (keyed_lost (keyed_requeue h.called) now 1) ((stays_requeue h.placed).trans (stays_lost now 1 _))
  expired now h hgo _ _ hmem := by
    refine h.keep (keyed_lost (keyed_requeueAll _ h.keyed hgo hmem) now _) (Stays.trans ?_ (stays_lost now _ _))
    exact stays_requeueAll fun m hm => h.placed_of_mem (SegmentMap.mem_of_mem_inFlight (hmem m hm))
  fail reason h _ := h.since.keep (keyed_handleFail h.called) (stays_handleFail h.called.going)
  learnStop h _ _ _ := h.since.keep (keyed_onFailure (keyed_learnLast h.called.keyed _ h.called.going) h.called.going)
    ((stays_learnLast _ _).trans (stays_onFailure _ _))
  plain h := h
  learn h _ _ _ :=
    ⟨h.since.keep (called_learnt h.called _).keyed (stays_learnt _ _), called_learnt h.called _, h.placed⟩
  ignored h hc hn :=
    ⟨(keyed_preserves sch {}).ignored h.called hc hn, h.since.entries, h.since.pending,
      max_le h.since.data h.placed.1, h.since.interest, h.since.next⟩
  duplicate h _ _ := (since_touch h).keep (keyed_eraseInfo (keyed_touch h.called) _ h.called.going)
    (stays_eraseInfo _ _)
  complete now h _ _ _ _ := (since_touch h).keep (keyed_completed h.called)
    ((stays_accept (s := touch _ _) h.placed).trans (stays_succeed _))
  accept now h _ _ _ _ := (since_touch h).keep (keyed_received h.called)
    (stays_accept (s := touch _ _) h.placed)
  schedule now h hm := (since_loop sch).loop h hm

theorem since_run (sch : Scheme κ) (now : Time) (control : κ) (data : Data) :
    Since 0 0 (run sch now control data) := by
  have hstart : Since 0 0 (start control data) := by
    refine ⟨keyed_start control data, fun _ _ hl => ?_, fun _ hp => ?_, le_rfl, le_rfl, le_rfl⟩
    · cases hl
    · cases hp
  rcases run_cases sch now control data with ⟨-, heq⟩ | ⟨-, heq⟩
  · rw [heq]
    exact since_advance hstart
  · rw [heq]
    exact since_sendFirst hstart rfl

theorem exec_since {es : List Event} (h : Since N H s) (hr : (machine sch).Runs s es) :
    Since N H ((machine sch).exec s es) :=
  Machine.always_last s es
    (Machine.always_of_step (fun t e ht he => (since_preserves sch).step ht he (meets_any t e)) h hr)

/-- At every moment the segments requested by then are those up to the highest. -/
theorem Since.now (h : Since N H s) : Since s.nextSegmentNo s.highInterest s where
  keyed := h.keyed
  entries n info hl := ⟨(h.entries n info hl).1, .inl (h.entries n info hl).1⟩
  pending p hp := ⟨(h.pending p hp).1, .inl (h.pending p hp).1⟩
  data := h.data
  interest := h.interest
  next := le_rfl

/-! ## One reaction per round trip -/

/-- In the course of the run the pipeline receives Data of a segment whose number `q` allows. -/
def Receives (sch : Scheme κ) (q : ℕ → Prop) (s : Adaptive κ) (es : List Event) : Prop :=
  ∃ es₁ now id d es₂, es = es₁ ++ Event.data now id d :: es₂ ∧ ((machine sch).exec s es₁).isStopping = false ∧
    ((machine sch).exec s es₁).face.segmentOf id = some d.segmentNo ∧ q d.segmentNo

theorem Receives.cons {q : ℕ → Prop} {e : Event} {es : List Event} (h : Receives sch q (step sch s e) es) :
    Receives sch q s (e :: es) := by
  obtain ⟨es₁, now, id, d, es₂, rfl, hrest⟩ := h
  exact ⟨e :: es₁, now, id, d, es₂, rfl, hrest⟩

/-- The Data that brings `m_highData` above `H` is of a segment requested later. -/
theorem receives_of_lt {es : List Event} (h : Since N H s) (hr : (machine sch).Runs s es)
    (hc : (machine sch).Each (fun s e => ¬ Reacts sch s e) s es) (hlow : s.highData ≤ H)
    (hhigh : H < ((machine sch).exec s es).highData) : Receives sch (N ≤ ·) s es := by
  induction es generalizing s with
  | nil => exact absurd hhigh (by simpa using hlow)
  | cons e es ih =>
    have hnext : Since N H (step sch s e) := (since_preserves sch).step h hr.1 (meets_any s e)
    have hlater : (step sch s e).highData ≤ H → Receives sch (N ≤ ·) s (e :: es) :=
      fun hle => (ih hnext hr.2 hc.2 hle hhigh).cons
    have heffect : Effect sch s e (step sch s e) := step_effect h.keyed hr.1
    generalize step sch s e = s' at hlater heffect
    cases heffect with
    | calm same => exact hlater (same.highData ▸ hlow)
    | receive now id d going pending highData =>
      -- the bound is passed later or by this event
      by_cases hle : d.segmentNo ≤ H
      · exact hlater (by rw [highData]; exact max_le hlow hle)
      · have hplaced := h.pending _ (Face.mem_of_segmentOf pending)
        exact ⟨[], now, id, d, es, rfl, going, pending, hplaced.2.resolve_left hle⟩
    | react allowed highData recPoint nLossEvents => exact hlater (highData ▸ hlow)

/-- A step without a reaction leaves `m_recPoint` as it is. -/
theorem recPoint_of_calm {es : List Event} (h : Keyed s) (hr : (machine sch).Runs s es)
    (hc : (machine sch).Each (fun s e => ¬ Reacts sch s e) s es) :
    ((machine sch).exec s es).recPoint = s.recPoint := by
  induction es generalizing s with
  | nil => rfl
  | cons e es ih =>
    have hkeyed : Keyed (step sch s e) := (keyed_preserves sch {}).step h hr.1 (meets_any s e)
    refine (ih hkeyed hr.2 hc.2).trans ?_
    have hquiet : ¬ (step sch s e).nLossEvents ≠ s.nLossEvents := hc.1
    have heffect : Effect sch s e (step sch s e) := step_effect h hr.1
    show (step sch s e).recPoint = s.recPoint
    generalize step sch s e = s' at hquiet heffect ⊢
    cases heffect with
    | calm same => exact same.recPoint
    | receive now id d going pending highData recPoint nLossEvents => exact recPoint
    | react allowed highData recPoint nLossEvents => exact absurd (by rw [nLossEvents]; exact Nat.succ_ne_self _) hquiet

/-- A reaction takes the highest segment requested as the new recovery point. -/
theorem of_reacts {e : Event} (h : Keyed s) (he : enabled s e) (hreact : Reacts sch s e) :
    (sch.disableCwa = true ∨ s.recPoint < s.highData) ∧ (step sch s e).highData = s.highData ∧
      (step sch s e).recPoint = s.highInterest := by
  have heffect : Effect sch s e (step sch s e) := step_effect h he
  have hreact' : (step sch s e).nLossEvents ≠ s.nLossEvents := hreact
  generalize step sch s e = s' at hreact' heffect ⊢
  cases heffect with
  | calm same => exact absurd same.nLossEvents hreact'
  | receive now id d going pending highData recPoint nLossEvents => exact absurd nLossEvents hreact'
  | react allowed highData recPoint nLossEvents => exact ⟨allowed, highData, recPoint⟩

theorem nLossEvents_le {e : Event} (h : Keyed s) (he : enabled s e) :
    (step sch s e).nLossEvents ≤ s.nLossEvents + 1 := by
  have heffect : Effect sch s e (step sch s e) := step_effect h he
  generalize step sch s e = s' at heffect ⊢
  cases heffect with
  | calm same => exact same.nLossEvents.le.trans (Nat.le_succ _)
  | receive now id d going pending highData recPoint nLossEvents => exact nLossEvents.le.trans (Nat.le_succ _)
  | react allowed highData recPoint nLossEvents => exact nLossEvents.le

/-- In every run of an adaptive pipeline with conservative window adaptation an event brings one
reaction at most, without one neither `decreaseWindow` nor `backoffRto` is called, and between one
reaction and the next the pipeline receives Data of a segment whose number had not been given out
before the first of the two. -/
theorem oneReaction_per_roundTrip (sch : Scheme κ) (hcwa : sch.disableCwa = false) (now : Time) (control : κ)
    (data : Data) {es : List Event} (hr : (machine sch).Runs (run sch now control data) es) :
    (machine sch).Each (fun s e => (step sch s e).nLossEvents ≤ s.nLossEvents + 1 ∧
      (¬ Reacts sch s e → ∀ decreaseWindow backoffRto,
        step (withReaction sch decreaseWindow backoffRto) s e = step sch s e)) (run sch now control data) es ∧
    ∀ before e₁ between e₂ after, es = before ++ e₁ :: (between ++ e₂ :: after) →
      let s₁ := (machine sch).exec (run sch now control data) before
      let s₂ := step sch s₁ e₁
      Reacts sch s₁ e₁ → (machine sch).Each (fun s e => ¬ Reacts sch s e) s₂ between →
      Reacts sch ((machine sch).exec s₂ between) e₂ →
      Receives sch (fun n => ¬ Requested n s₁) s₂ between := by
  have hstart := since_run sch now control data
  constructor
  · refine Machine.each_of_always (J := Keyed)
      (fun s e hs he _ => ⟨nLossEvents_le hs he, step_withReaction hs he⟩) hr ?_
    exact Machine.always_of_step (fun s e hs he => (keyed_preserves sch {}).step hs he (meets_any s e))
      hstart.keyed hr
  · rintro before e₁ between e₂ after rfl s₁ s₂ h₁ hquiet h₂
    obtain ⟨hbefore, he₁, hrest⟩ := (Machine.runs_append ..).1 hr
    obtain ⟨hbetween, he₂, -⟩ := (Machine.runs_append ..).1 hrest
    have hs₁ : Since s₁.nextSegmentNo s₁.highInterest s₁ := (exec_since hstart hbefore).now
    obtain ⟨-, hdata, hrec⟩ := of_reacts hs₁.keyed he₁ h₁
    have hs₂ : Since s₁.nextSegmentNo s₁.highInterest s₂ := (since_preserves sch).step hs₁ he₁ (meets_any s₁ e₁)
    -- the second reaction needs Data above the recovery point that the first has set
    obtain ⟨hallowed, -, -⟩ := of_reacts (exec_since hs₂ hbetween).keyed he₂ h₂
    have hlt := hallowed.resolve_left (by simp [hcwa])
    rw [recPoint_of_calm hs₂.keyed hbetween hquiet, hrec] at hlt
    obtain ⟨es₁, time, id, d, es₂, heq, hgo, hid, hnew⟩ :=
      receives_of_lt hs₂ hbetween hquiet (hdata ▸ hs₁.data) hlt
    exact ⟨es₁, time, id, d, es₂, heq, hgo, hid, fun hreq => absurd hreq.1 (by omega)⟩

/-- Segments 2 and 5 are lost; between the two reactions segment 6 is requested and received. -/
theorem oneReaction_per_roundTrip_twice :
    let s₁ := (machine (Aimd.pipeline 3)).exec (Aimd.started 3 (packet 0 none)) [.data 10 1 (packet 1 none)]
    Receives (Aimd.pipeline 3) (fun n => ¬ Requested n s₁) (step (Aimd.pipeline 3) s₁ (.nack 20 2 .congestion))
      [.data 30 3 (packet 3 none), .data 31 4 (packet 4 none), .data 40 7 (packet 6 none)] := by
  have hruns : (machine (Aimd.pipeline 3)).Runs (Aimd.started 3 (packet 0 none))
      [.data 10 1 (packet 1 none), .nack 20 2 .congestion, .data 30 3 (packet 3 none),
        .data 31 4 (packet 4 none), .data 40 7 (packet 6 none), .nack 50 5 .congestion] := by
    decide +kernel
  exact (oneReaction_per_roundTrip (Aimd.pipeline 3) rfl 0 _ (packet 0 none) hruns).2
    [.data 10 1 (packet 1 none)] (.nack 20 2 .congestion) _ (.nack 50 5 .congestion) [] rfl
    (by decide +kernel) (by decide +kernel) (by decide +kernel)

end NdnTools.Chunks.Adaptive
