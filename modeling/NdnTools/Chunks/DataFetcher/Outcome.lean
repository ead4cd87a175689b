/-
What a step of a fetcher means to the one who started it: either a callback is invoked, for the
Interest the fetcher was started with, or that Interest is expressed again or not, silently.
`step_outcome` is the one inversion of `step` that the users of a fetcher need.
-/
import NdnTools.Chunks.DataFetcher.Contract

namespace NdnTools.Chunks.Fetcher

variable {ι δ : Type*} {f g : Fetcher ι δ} {interest : ι}

/-- The callback invoked by a step from `f` to `g`. -/
def invoked (f g : Fetcher ι δ) : Option (Callback ι δ) := (g.calls.drop f.calls.length).head?

/-- A Nack with this reason is not answered by expressing the Interest again. -/
def NackEnds (f : Fetcher ι δ) (reason : NackReason) : Prop :=
  ¬ MayRetry f.maxNackRetries (countRetry f.maxNackRetries f.nNacks) ∨ reason = .none ∨ reason = .noRoute

def TimeoutEnds (f : Fetcher ι δ) : Prop :=
  ¬ MayRetry f.maxTimeoutRetries (countRetry f.maxTimeoutRetries f.nTimeouts)

instance (reason : NackReason) : Decidable (NackEnds f reason) := inferInstanceAs (Decidable (_ ∨ _))

instance : Decidable (TimeoutEnds f) := inferInstanceAs (Decidable (¬ _))

/-- The event makes the fetcher call back. -/
def CallsBack (f : Fetcher ι δ) : Event ι δ → Prop
  | .data _ _ => f.isRunning = true
  | .nack _ reason => f.isRunning = true ∧ f.NackEnds reason
  | .timeout _ => f.isRunning = true ∧ f.TimeoutEnds
  | .backoff _ _ => False
  | .cancel => False

instance : (e : Event ι δ) → Decidable (CallsBack f e)
  | .data _ _ => inferInstanceAs (Decidable (_ = _))
  | .nack _ _ | .timeout _ => inferInstanceAs (Decidable (_ ∧ _))
  | .backoff _ _ | .cancel => .isFalse id

/-- The fetcher was started with this Interest, and with callbacks for failures. -/
structure Fetches (interest : ι) (f : Fetcher ι δ) : Prop where
  outstanding : ∀ i ∈ f.outstanding, i = interest
  timers : ∀ t ∈ f.timers, t.2 = interest
  onNack : f.hasOnNack = true
  onTimeout : f.hasOnTimeout = true

/-- A step from `f` to `g`, as the one who started `f` with `interest` sees it. -/
inductive Outcome (interest : ι) (f g : Fetcher ι δ) : Event ι δ → Prop
  | silent {e : Event ι δ} (quiet : ¬ CallsBack f e) (none : invoked f g = none) (retries : ℕ)
      (expressed : g.expressed = f.expressed ++ List.replicate retries interest) : Outcome interest f g e
  | data (d : δ) (running : f.isRunning = true) (call : invoked f g = some (.onData interest d))
      (expressed : g.expressed = f.expressed) : Outcome interest f g (.data interest d)
  | nack (reason : NackReason) (text : String) (running : f.isRunning = true) (ends : f.NackEnds reason)
      (call : invoked f g = some (.onNack interest text)) (expressed : g.expressed = f.expressed) :
      Outcome interest f g (.nack interest reason)
  | timeout (text : String) (running : f.isRunning = true) (ends : f.TimeoutEnds)
      (call : invoked f g = some (.onTimeout interest text)) (expressed : g.expressed = f.expressed) :
      Outcome interest f g (.timeout interest)

theorem invoked_self (h : g.calls = f.calls) : invoked f g = none := by simp [invoked, h]

theorem invoked_append {callback : Callback ι δ} (h : g.calls = f.calls ++ [callback]) :
    invoked f g = some callback := by simp [invoked, h]

theorem not_nackEnds {reason : NackReason} (h : ¬ f.NackEnds reason) :
    MayRetry f.maxNackRetries (countRetry f.maxNackRetries f.nNacks) ∧
    (reason = .duplicate ∨ reason = .congestion) := by
  simp only [NackEnds, not_or, not_not] at h
  refine ⟨h.1, ?_⟩
  cases reason <;> simp at h ⊢

/-! ## The Interest stays the same -/

theorem Fetches.expressInterest (h : Fetches interest f) : Fetches interest (f.expressInterest interest) where
  outstanding := by
    intro i hi
    rcases List.mem_append.1 hi with hi | hi
    · exact h.outstanding i hi
    · exact List.mem_singleton.1 hi
  timers := h.timers
  onNack := h.onNack
  onTimeout := h.onTimeout

theorem Fetches.scheduleEvent {delay : ℕ} (h : Fetches interest f) :
    Fetches interest (f.scheduleEvent delay interest) where
  outstanding := h.outstanding
  timers := by
    intro t ht
    rcases List.mem_append.1 ht with ht | ht
    · exact h.timers t ht
    · rw [List.mem_singleton.1 ht]
  onNack := h.onNack
  onTimeout := h.onTimeout

theorem Fetches.backOff (h : Fetches interest f) : Fetches interest (f.backOff interest) := by
  unfold Fetcher.backOff
  dsimp only
  split
  · exact h.scheduleEvent
  · exact scheduleEvent ⟨h.outstanding, h.timers, h.onNack, h.onTimeout⟩

theorem Fetches.failNack {text : String} (h : Fetches interest f) : Fetches interest (f.failNack interest text) := by
  unfold Fetcher.failNack
  dsimp only
  split <;> exact ⟨h.outstanding, h.timers, h.onNack, h.onTimeout⟩

theorem Fetches.failTimeout {text : String} (h : Fetches interest f) :
    Fetches interest (f.failTimeout interest text) := by
  unfold Fetcher.failTimeout
  dsimp only
  split <;> exact ⟨h.outstanding, h.timers, h.onNack, h.onTimeout⟩

theorem Fetches.cancel (h : Fetches interest f) : Fetches interest f.cancel := by
  unfold Fetcher.cancel
  split
  · exact ⟨h.outstanding, by simp, h.onNack, h.onTimeout⟩
  · exact h

section Steps

variable [DecidableEq ι]

theorem Fetches.answered {i : ι} (h : Fetches interest f) : Fetches interest (f.answered i) :=
  ⟨fun j hj => h.outstanding j (List.mem_of_mem_erase hj), h.timers, h.onNack, h.onTimeout⟩

theorem Fetches.due {delay : ℕ} {i : ι} (h : Fetches interest f) (hi : (delay, i) ∈ f.timers) :
    Fetches interest (f.due delay i) := by
  obtain rfl : i = interest := h.timers _ hi
  exact expressInterest ⟨h.outstanding, fun t ht => h.timers t (List.mem_of_mem_erase ht), h.onNack, h.onTimeout⟩

end Steps

/-! ## The handlers -/

theorem expressInterest_outcome {e : Event ι δ} {f₀ : Fetcher ι δ} (he : ¬ CallsBack f e)
    (hcalls : f₀.calls = f.calls) (hexpressed : f₀.expressed = f.expressed) :
    Outcome interest f (f₀.expressInterest interest) e := by
  refine .silent he (invoked_self (by exact hcalls)) 1 ?_
  show f₀.expressed ++ [interest] = _
  simp [hexpressed]

/-- Nothing is called and nothing expressed. -/
theorem quiet_outcome {e : Event ι δ} (he : ¬ CallsBack f e) (hcalls : g.calls = f.calls)
    (hexpressed : g.expressed = f.expressed) : Outcome interest f g e := by
  refine .silent he (invoked_self hcalls) 0 ?_
  simp [hexpressed]

@[simp] theorem backOff_calls : (f.backOff interest).calls = f.calls := by
  unfold Fetcher.backOff; dsimp only; split <;> rfl

@[simp] theorem backOff_expressed : (f.backOff interest).expressed = f.expressed := by
  unfold Fetcher.backOff; dsimp only; split <;> rfl

@[simp] theorem cancel_calls : f.cancel.calls = f.calls := by
  unfold Fetcher.cancel; split <;> rfl

@[simp] theorem cancel_expressed : f.cancel.expressed = f.expressed := by
  unfold Fetcher.cancel; split <;> rfl

theorem handleData_running {d : δ} (hr : f.isRunning = true) :
    handleData interest d f = invoke (.onData interest d) { f with isStopped := true } := by
  simp [handleData, hr]

variable [ToUri ι]

theorem handleNack_ends {reason : NackReason} (hr : f.isRunning = true) (he : f.NackEnds reason) :
    ∃ text, handleNack interest reason f =
      failNack interest text { f with nNacks := countRetry f.maxNackRetries f.nNacks } := by
  have hrun : ¬ (!f.isRunning) = true := by simp [hr]
  simp only [handleNack, if_neg hrun]
  by_cases hmay : MayRetry f.maxNackRetries (countRetry f.maxNackRetries f.nNacks)
  · simp only [if_pos hmay]
    rcases he.resolve_left (not_not.2 hmay) with rfl | rfl
    · exact ⟨_, rfl⟩
    · exact ⟨_, rfl⟩
  · exact ⟨_, if_neg hmay⟩

theorem handleNack_retries {reason : NackReason} (hr : f.isRunning = true) (he : ¬ f.NackEnds reason) :
    handleNack interest reason f =
        expressInterest interest { f with nNacks := countRetry f.maxNackRetries f.nNacks } ∨
    handleNack interest reason f =
        backOff interest { f with nNacks := countRetry f.maxNackRetries f.nNacks } := by
  obtain ⟨hmay, rfl | rfl⟩ := not_nackEnds he
  · exact Or.inl (by simp [handleNack, hr, hmay])
  · exact Or.inr (by simp [handleNack, hr, hmay])

theorem handleTimeout_ends (hr : f.isRunning = true) (he : f.TimeoutEnds) :
    ∃ text, handleTimeout interest f =
      failTimeout interest text { f with nTimeouts := countRetry f.maxTimeoutRetries f.nTimeouts } :=
  ⟨_, by simp only [handleTimeout, hr]; exact if_neg he⟩

theorem handleTimeout_retries (hr : f.isRunning = true) (he : ¬ f.TimeoutEnds) :
    handleTimeout interest f =
      expressInterest interest { f with nTimeouts := countRetry f.maxTimeoutRetries f.nTimeouts } := by
  simp only [TimeoutEnds, not_not] at he
  simp [handleTimeout, hr, he]

theorem Fetches.handleNack {reason : NackReason} (h : Fetches interest f) (hr : f.isRunning = true) :
    Fetches interest (f.handleNack interest reason) := by
  have hcounted : Fetches interest { f with nNacks := countRetry f.maxNackRetries f.nNacks } :=
    ⟨h.outstanding, h.timers, h.onNack, h.onTimeout⟩
  by_cases he : f.NackEnds reason
  · obtain ⟨text, heq⟩ := handleNack_ends hr he
    exact heq ▸ hcounted.failNack
  · rcases handleNack_retries hr he with heq | heq
    · exact heq ▸ hcounted.expressInterest
    · exact heq ▸ hcounted.backOff

theorem Fetches.handleTimeout (h : Fetches interest f) (hr : f.isRunning = true) :
    Fetches interest (f.handleTimeout interest) := by
  have hcounted : Fetches interest { f with nTimeouts := countRetry f.maxTimeoutRetries f.nTimeouts } :=
    ⟨h.outstanding, h.timers, h.onNack, h.onTimeout⟩
  by_cases he : f.TimeoutEnds
  · obtain ⟨text, heq⟩ := handleTimeout_ends hr he
    exact heq ▸ hcounted.failTimeout
  · exact handleTimeout_retries hr he ▸ hcounted.expressInterest

variable [DecidableEq ι]

theorem step_fetches (h : Fetches interest f) (e : Event ι δ) (he : enabled f e) :
    Fetches interest (step f e) := by
  by_cases hr : f.isRunning = true
  · have hout : ∀ {i}, i ∈ f.outstanding ∨ f.isRunning = false → i = interest :=
      fun ho => h.outstanding _ (ho.resolve_right (by simp [hr]))
    cases e with
    | data i d =>
      have hstep : step f (.data i d) = invoke (.onData i d) { f.answered i with isStopped := true } :=
        handleData_running (f := f.answered i) hr
      rw [hstep]
      exact ⟨h.answered.outstanding, h.timers, h.onNack, h.onTimeout⟩
    | nack i reason =>
      obtain rfl := hout he
      exact h.answered.handleNack (f := f.answered i) hr
    | timeout i =>
      obtain rfl := hout he
      exact h.answered.handleTimeout (f := f.answered i) hr
    | backoff delay i => exact h.due he
    | cancel => exact h.cancel
  · have hstopped : f.isRunning = false := by simpa using hr
    have hr' : ∀ i, (f.answered i).isRunning = false := fun _ => hstopped
    cases e with
    | data i d => simpa [step, Fetcher.handleData, hr'] using h.answered
    | nack i reason => simpa [step, Fetcher.handleNack, hr'] using h.answered
    | timeout i => simpa [step, Fetcher.handleTimeout, hr'] using h.answered
    | backoff delay i => exact h.due he
    | cancel => exact h.cancel

/-! ## The inversion of a step -/

theorem handleNack_outcome {reason : NackReason} (hf : Fetches interest f) (hr : f.isRunning = true) :
    Outcome interest f (handleNack interest reason (f.answered interest)) (.nack interest reason) := by
  have hr' : (f.answered interest).isRunning = true := hr
  by_cases hends : f.NackEnds reason
  · obtain ⟨text, heq⟩ := handleNack_ends hr' hends
    rw [heq]
    refine .nack reason text hr hends (invoked_append ?_) ?_
    · simp [failNack, hf.onNack, Fetcher.answered, invoke]
    · simp [failNack, hf.onNack, Fetcher.answered, invoke]
  · have hquiet : ¬ CallsBack f (.nack interest reason) := fun hc => hends hc.2
    rcases handleNack_retries hr' hends with heq | heq
    · rw [heq]
      exact expressInterest_outcome hquiet rfl rfl
    · rw [heq]
      exact quiet_outcome hquiet backOff_calls backOff_expressed

theorem handleTimeout_outcome (hf : Fetches interest f) (hr : f.isRunning = true) :
    Outcome interest f (handleTimeout interest (f.answered interest)) (.timeout interest) := by
  have hr' : (f.answered interest).isRunning = true := hr
  by_cases hends : f.TimeoutEnds
  · obtain ⟨text, heq⟩ := handleTimeout_ends hr' hends
    rw [heq]
    refine .timeout text hr hends (invoked_append ?_) ?_
    · simp [failTimeout, hf.onTimeout, Fetcher.answered, invoke]
    · simp [failTimeout, hf.onTimeout, Fetcher.answered, invoke]
  · have hquiet : ¬ CallsBack f (.timeout interest) := fun hc => hends hc.2
    rw [handleTimeout_retries hr' hends]
    exact expressInterest_outcome hquiet rfl rfl

theorem step_outcome (h : Contract f) (hf : Fetches interest f) (e : Event ι δ) (he : enabled f e) :
    Outcome interest f (step f e) e := by
  by_cases hr : f.isRunning = true
  · have hout : ∀ {i}, i ∈ f.outstanding ∨ f.isRunning = false → i = interest :=
      fun ho => hf.outstanding _ (ho.resolve_right (by simp [hr]))
    cases e with
    | data i d =>
      obtain rfl := hout he
      have hstep : step f (.data i d) = invoke (.onData i d) { f.answered i with isStopped := true } :=
        handleData_running (f := f.answered i) hr
      rw [hstep]
      exact .data d hr (invoked_append rfl) rfl
    | nack i reason =>
      obtain rfl := hout he
      exact handleNack_outcome hf hr
    | timeout i =>
      obtain rfl := hout he
      exact handleTimeout_outcome hf hr
    | backoff delay i =>
      obtain rfl : i = interest := hf.timers _ he
      exact expressInterest_outcome (fun hc => hc) rfl rfl
    | cancel => exact quiet_outcome (fun hc => hc) cancel_calls cancel_expressed
  · -- after the end nothing is called and nothing expressed
    obtain ⟨-, hs⟩ := step_ended h (by simpa using hr) e he
    have hquiet : ¬ CallsBack f e := by
      cases e <;> simp [CallsBack, hr]
    exact quiet_outcome hquiet hs.calls hs.expressed

end NdnTools.Chunks.Fetcher
