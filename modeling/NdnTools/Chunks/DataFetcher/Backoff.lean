/-
The delays of a fetcher under congestion. `expressInterest` resets `m_nCongestionRetries`, and the
expression that a back-off schedules is one, so the exponent is 0 again at the next Nack: every delay
of a streak of Nacks is 1 ms. The doubling up to `MAX_CONGESTION_BACKOFF_TIME` that the streak is
meant to bring therefore holds of streaks of one Nack only.
-/
import NdnTools.Chunks.DataFetcher.Contract

namespace NdnTools.Chunks.Fetcher

variable {ι δ : Type*}

/-! ## Streaks -/

/-- Nacks with reason Congestion, each followed by the expression that was scheduled for it, with the
delays `delays`. -/
def streak (interest : ι) (delays : List ℕ) : List (Event ι δ) :=
  delays.flatMap fun delay => [.nack interest .congestion, .backoff delay interest]

/-- The delay of the expression scheduled by a step from `f` to `g`. -/
def scheduled (f g : Fetcher ι δ) : Option ℕ := ((g.timers.drop f.timers.length).head?).map Prod.fst

/-- The law for a Nack that follows a streak with the delays `delays`: its delay is the doubled one, up
to the ceiling, and no delay is below the one before it. -/
def BacksOff (delays : List ℕ) (delay : ℕ) : Prop :=
  delay = min (2 ^ delays.length) maxCongestionBackoffTime ∧ (delays ++ [delay]).Pairwise (· ≤ ·)

instance (delays : List ℕ) (delay : ℕ) : Decidable (BacksOff delays delay) := inferInstanceAs (Decidable (_ ∧ _))

/-- A fetcher that waits for an answer has its congestion counter at 0. -/
def Rested (f : Fetcher ι δ) : Prop := f.outstanding ≠ [] → f.nCongestionRetries = 0

variable {f : Fetcher ι δ} {interest : ι}

theorem rested_expressInterest (f : Fetcher ι δ) : Rested (f.expressInterest interest) := fun _ => rfl

theorem Rested.of_idle (h : f.outstanding = []) : Rested f := fun hne => absurd h hne

theorem outstanding_backOff (f : Fetcher ι δ) : (f.backOff interest).outstanding = f.outstanding := by
  unfold backOff
  dsimp only
  split <;> rfl

theorem outstanding_failNack {text : String} (f : Fetcher ι δ) :
    (f.failNack interest text).outstanding = f.outstanding := by
  unfold failNack
  dsimp only
  split <;> rfl

theorem outstanding_failTimeout {text : String} (f : Fetcher ι δ) :
    (f.failTimeout interest text).outstanding = f.outstanding := by
  unfold failTimeout
  dsimp only
  split <;> rfl

/-- The first back-off is of 1 ms. -/
theorem timers_backOff (h : f.timers = []) (hrest : f.nCongestionRetries = 0) :
    (f.backOff interest).timers = [(1, interest)] := by
  simp [backOff, hrest, maxCongestionBackoffTime, scheduleEvent, h]

theorem rested_answered [DecidableEq ι] (h : Rested f) : Rested (f.answered interest) := by
  intro hne
  refine h fun hnil => hne ?_
  simp [answered, hnil]

/-! ## Steps -/

variable [ToUri ι]

theorem rested_handleNack {reason : NackReason} (h : Idle f) : Rested (f.handleNack interest reason) := by
  unfold handleNack
  rw [h.running]
  simp only [Bool.not_true, Bool.false_eq_true, if_false]
  split
  · cases reason with
    | duplicate => exact rested_expressInterest _
    | congestion => exact .of_idle (by rw [outstanding_backOff]; exact h.outstanding)
    | none => exact .of_idle (by rw [outstanding_failNack]; exact h.outstanding)
    | noRoute => exact .of_idle (by rw [outstanding_failNack]; exact h.outstanding)
  · exact .of_idle (by rw [outstanding_failNack]; exact h.outstanding)

theorem rested_handleTimeout (h : Idle f) : Rested (f.handleTimeout interest) := by
  unfold handleTimeout
  rw [h.running]
  simp only [Bool.not_true, Bool.false_eq_true, if_false]
  split
  · exact rested_expressInterest _
  · exact .of_idle (by rw [outstanding_failTimeout]; exact h.outstanding)

variable [DecidableEq ι]

theorem step_rested (hc : Contract f) (h : Rested f) (e : Event ι δ) (he : enabled f e) : Rested (step f e) := by
  by_cases hr : f.isRunning = true
  · have hout : ∀ {i}, i ∈ f.outstanding ∨ f.isRunning = false → i ∈ f.outstanding :=
      fun ho => ho.resolve_right (by simp [hr])
    cases e with
    | data i d =>
      have hidle := (hc.answered hr (hout he)).1
      refine .of_idle ?_
      simp only [step, handleData, hidle.running]
      exact hidle.outstanding
    | nack i reason => exact rested_handleNack (hc.answered hr (hout he)).1
    | timeout i => exact rested_handleTimeout (hc.answered hr (hout he)).1
    | backoff delay i => exact rested_expressInterest _
    | cancel =>
      simp only [step, cancel, hr]
      exact h
  · -- after the end an answer is only taken off the list
    have hr' : ∀ i, (f.answered i).isRunning = false := fun _ => Bool.eq_false_of_not_eq_true hr
    cases e with
    | data i d => simpa [step, handleData, hr'] using rested_answered h
    | nack i reason => simpa [step, handleNack, hr'] using rested_answered h
    | timeout i => simpa [step, handleTimeout, hr'] using rested_answered h
    | backoff delay i => exact rested_expressInterest _
    | cancel => simpa [step, cancel, hr] using h

/-! ## The delays of a streak -/

/-- The retry of the next Nack is within the limit. -/
def MayRetryNack (f : Fetcher ι δ) : Prop := MayRetry f.maxNackRetries (countRetry f.maxNackRetries f.nNacks)

instance (f : Fetcher ι δ) : Decidable (MayRetryNack f) := inferInstanceAs (Decidable (MayRetry _ _))

/-- A Nack with reason Congestion that may be retried schedules an expression in 1 ms. -/
theorem timers_congestion (hc : Contract f) (h : Rested f) (hr : f.isRunning = true)
    (hi : interest ∈ f.outstanding) (hmay : MayRetryNack f) :
    f.timers = [] ∧ (step f (.nack interest .congestion)).timers = [(1, interest)] := by
  have hidle := (hc.answered hr hi).1
  have hmay' : MayRetry (f.answered interest).maxNackRetries
      (countRetry (f.answered interest).maxNackRetries (f.answered interest).nNacks) := hmay
  refine ⟨hidle.timers, ?_⟩
  simp only [step, handleNack, hidle.running, Bool.not_true, Bool.false_eq_true, if_false, if_pos hmay']
  exact timers_backOff hidle.timers (h (List.ne_nil_of_mem hi))

/-- Whatever a Nack with reason Congestion schedules is due in 1 ms. -/
theorem delay_of_due {delay : ℕ} (hc : Contract f) (h : Rested f) (he : enabled f (.nack interest .congestion))
    (hdue : (delay, interest) ∈ (step f (.nack interest .congestion)).timers) : delay = 1 := by
  have hnext : Contract (step f (.nack interest .congestion)) := step_contract hc _ he
  have hrun : (step f (.nack interest .congestion)).isRunning = true := by
    by_contra hr
    rw [hnext.ended (Bool.eq_false_of_not_eq_true hr)] at hdue
    cases hdue
  have hr : f.isRunning = true := by
    by_contra hr
    have hsettled := (step_ended hc (Bool.eq_false_of_not_eq_true hr) _ he).2
    exact hr ((congrArg DataFetcher.isRunning hsettled.flags).symm.trans hrun)
  have hi : interest ∈ f.outstanding := he.resolve_right (by simp [hr])
  have hidle := (hc.answered hr hi).1
  by_cases hmay : MayRetryNack f
  · rw [(timers_congestion hc h hr hi hmay).2] at hdue
    simpa using hdue
  · -- over the limit the fetcher ends
    exfalso
    have hmay' : ¬ MayRetry (f.answered interest).maxNackRetries
        (countRetry (f.answered interest).maxNackRetries (f.answered interest).nNacks) := hmay
    simp only [step, handleNack, hidle.running, Bool.not_true, Bool.false_eq_true, if_false, if_neg hmay'] at hrun
    simp [failNack, invoke, DataFetcher.isRunning, apply_ite Fetcher.toDataFetcher] at hrun

/-- The delays of a streak are all 1 ms. -/
theorem delays_eq_one (delays : List ℕ) (hc : Contract f) (h : Rested f)
    (hr : machine.Runs f (streak interest delays)) :
    (∀ delay ∈ delays, delay = 1) ∧ Contract (machine.exec f (streak interest delays)) ∧
      Rested (machine.exec f (streak interest delays)) := by
  induction delays generalizing f with
  | nil => exact ⟨by simp, hc, h⟩
  | cons delay delays ih =>
    obtain ⟨hnack, hdue, hrest⟩ := hr
    have hc' : Contract (step f (.nack interest .congestion)) := step_contract hc _ hnack
    have h' : Rested (step f (.nack interest .congestion)) := step_rested hc h _ hnack
    obtain ⟨hones, hend⟩ := ih (step_contract hc' (.backoff delay interest) hdue)
      (step_rested hc' h' (.backoff delay interest) hdue) hrest
    refine ⟨?_, hend⟩
    simp only [List.mem_cons, forall_eq_or_imp]
    exact ⟨delay_of_due hc h hnack hdue, hones⟩

theorem exec_rested {es : List (Event ι δ)} (hc : Contract f) (h : Rested f) (hr : machine.Runs f es) :
    Contract (machine.exec f es) ∧ Rested (machine.exec f es) :=
  Machine.always_last f es (Machine.always_of_step (I := fun f : Fetcher ι δ => Contract f ∧ Rested f)
    (fun _ e hs he => ⟨step_contract hs.1 e he, step_rested hs.1 hs.2 e he⟩) ⟨hc, h⟩ hr)

/-- In every run of a fetcher, after a streak of Nacks with reason Congestion, one more such Nack that
may be retried schedules an expression; its delay follows the law exactly if it is the first Nack of the
streak. -/
theorem backsOff_iff (interest : ι) (maxNackRetries maxTimeoutRetries : ℤ) (hasOnNack hasOnTimeout : Bool)
    {before : List (Event ι δ)} (delays : List ℕ)
    (hruns : machine.Runs (fetch interest maxNackRetries maxTimeoutRetries hasOnNack hasOnTimeout)
      (before ++ streak interest delays))
    {f : Fetcher ι δ}
    (hf : f = machine.exec (fetch interest maxNackRetries maxTimeoutRetries hasOnNack hasOnTimeout)
      (before ++ streak interest delays))
    (hi : interest ∈ f.outstanding) (hr : f.isRunning = true) (hmay : MayRetryNack f) :
    ∃ delay, scheduled f (step f (.nack interest .congestion)) = some delay ∧
      (BacksOff delays delay ↔ delays = []) := by
  obtain ⟨hbefore, hstreak⟩ := (Machine.runs_append ..).1 hruns
  obtain ⟨hc, hrest⟩ := exec_rested contract_fetch (rested_expressInterest _) hbefore
  obtain ⟨hones, hc', hrest'⟩ := delays_eq_one delays hc hrest hstreak
  rw [Machine.exec_append] at hf
  rw [← hf] at hc' hrest'
  obtain ⟨hnone, htimers⟩ := timers_congestion hc' hrest' hr hi hmay
  refine ⟨1, by simp [scheduled, hnone, htimers], ?_⟩
  constructor
  · rintro ⟨hlaw, -⟩
    -- a second delay would be of 2 ms at least
    by_contra hne
    have hlen : 2 ^ 1 ≤ 2 ^ delays.length :=
      Nat.pow_le_pow_right (by decide) (List.length_pos_iff.2 hne)
    simp only [maxCongestionBackoffTime] at hlaw
    omega
  · rintro rfl
    exact ⟨by decide, by simp⟩

/-- A fetcher after a timeout and a streak. -/
def nacked (delays : List ℕ) : Fetcher String ℕ :=
  machine.exec (fetch "/video" 3 3 true true) ([.timeout "/video"] ++ streak "/video" delays)

/-- The first Nack after a timeout, and one that follows it. -/
theorem backsOff_iff_timeout :
    (∃ delay, scheduled (nacked []) (step (nacked []) (.nack "/video" .congestion)) = some delay ∧
      (BacksOff [] delay ↔ ([] : List ℕ) = [])) ∧
    ∃ delay, scheduled (nacked [1]) (step (nacked [1]) (.nack "/video" .congestion)) = some delay ∧
      (BacksOff [1] delay ↔ [1] = []) :=
  ⟨backsOff_iff "/video" 3 3 true true [] (by decide) rfl (by decide) (by decide) (by decide),
    backsOff_iff "/video" 3 3 true true [1] (by decide) rfl (by decide) (by decide) (by decide)⟩

/-- The second Nack of a streak is backed off by 1 ms again, not by 2 ms. -/
theorem second_backoff_repeats :
    machine.Runs (fetch "/video" 3 3 true true : Fetcher String ℕ) (streak "/video" [1]) ∧
    let f : Fetcher String ℕ := machine.exec (fetch "/video" 3 3 true true) (streak "/video" [1])
    scheduled f (step f (.nack "/video" .congestion)) = some 1 ∧ ¬ BacksOff [1] 1 := by
  refine ⟨by decide, by decide, by decide⟩

end NdnTools.Chunks.Fetcher
