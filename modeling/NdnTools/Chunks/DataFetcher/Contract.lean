/-
The contract every user of a `DataFetcher` relies on: it calls back once at most, waits for one thing
at most, stays within its retry limits, and is left alone by whatever happens after its end.
`Contract` is the invariant. Every answer leads through an `Idle` fetcher, which waits for nothing;
the handlers are proved to lead from there back to the invariant.
-/
import NdnTools.Chunks.DataFetcher.Model

namespace NdnTools.Chunks.Fetcher

variable {ι δ : Type*}

/-! ## Between an answer and the reaction to it -/

/-- A running fetcher that waits for nothing and has not called back. -/
structure Idle (f : Fetcher ι δ) : Prop where
  running : f.isRunning = true
  outstanding : f.outstanding = []
  timers : f.timers = []
  calls : f.calls = []

/-- With finite limits, `extra` more expressions are within what the counted Nacks and timeouts allow. -/
def Budget (extra : ℕ) (f : Fetcher ι δ) : Prop :=
  0 ≤ f.maxNackRetries → 0 ≤ f.maxTimeoutRetries →
    (f.expressed.length + extra : ℤ) ≤
      1 + min (f.nNacks : ℤ) f.maxNackRetries + min (f.nTimeouts : ℤ) f.maxTimeoutRetries

/-- What holds of a fetcher between two events. -/
structure Contract (f : Fetcher ι δ) : Prop where
  outstanding : f.outstanding.length + f.timers.length ≤ 1
  calls : f.calls.length ≤ 1
  running : f.isRunning = true → f.calls = []
  ended : f.isRunning = false → f.timers = []
  budget : Budget f.timers.length f

theorem Budget.mono {f : Fetcher ι δ} {m n : ℕ} (h : Budget n f) (hmn : m ≤ n) : Budget m f := by
  intro hn ht
  have := h hn ht
  omega

/-- Under a finite limit an allowed retry is counted and is within the limit. -/
theorem counted_of_mayRetry {max : ℤ} {n : ℕ} (hmay : MayRetry max (countRetry max n)) (hmax : 0 ≤ max) :
    countRetry max n = n + 1 ∧ (n + 1 : ℤ) ≤ max := by
  have hinf : max ≠ maxRetriesInfinite := by
    simp only [maxRetriesInfinite]
    omega
  have hcount : countRetry max n = n + 1 := if_pos hinf
  have hle := hmay.resolve_right hinf
  rw [hcount] at hle
  exact ⟨hcount, by omega⟩

theorem Budget.nack {f : Fetcher ι δ} (h : Budget 0 f)
    (hmay : MayRetry f.maxNackRetries (countRetry f.maxNackRetries f.nNacks)) :
    Budget 1 { f with nNacks := countRetry f.maxNackRetries f.nNacks } := by
  intro hn ht
  have hb := h hn ht
  obtain ⟨hcount, hle⟩ := counted_of_mayRetry hmay hn
  simp only [hcount]
  omega

theorem Budget.timeout {f : Fetcher ι δ} (h : Budget 0 f)
    (hmay : MayRetry f.maxTimeoutRetries (countRetry f.maxTimeoutRetries f.nTimeouts)) :
    Budget 1 { f with nTimeouts := countRetry f.maxTimeoutRetries f.nTimeouts } := by
  intro hn ht
  have hb := h hn ht
  obtain ⟨hcount, hle⟩ := counted_of_mayRetry hmay ht
  simp only [hcount]
  omega

theorem le_countRetry (max : ℤ) (n : ℕ) : n ≤ countRetry max n := by
  unfold countRetry
  split <;> omega

/-- Counting a Nack or a timeout that may not be retried leaves the budget. -/
theorem Budget.count {f : Fetcher ι δ} (h : Budget 0 f) {nNacks nTimeouts : ℕ} (hn : f.nNacks ≤ nNacks)
    (ht : f.nTimeouts ≤ nTimeouts) : Budget 0 { f with nNacks := nNacks, nTimeouts := nTimeouts } := by
  intro hn0 ht0
  have := h hn0 ht0
  dsimp only
  omega

namespace Idle

variable {f : Fetcher ι δ} {interest : ι}

theorem expressInterest (h : Idle f) (hb : Budget 1 f) : Contract (f.expressInterest interest) where
  outstanding := by simp [Fetcher.expressInterest, h.outstanding, h.timers]
  calls := by simp [Fetcher.expressInterest, h.calls]
  running := fun _ => h.calls
  ended := fun _ => h.timers
  budget := by
    intro hn ht
    have := hb hn ht
    simp [Fetcher.expressInterest, h.timers] at this ⊢
    omega

theorem scheduleEvent {delay : ℕ} (h : Idle f) (hb : Budget 1 f) :
    Contract (f.scheduleEvent delay interest) where
  outstanding := by simp [Fetcher.scheduleEvent, h.outstanding, h.timers]
  calls := by simp [Fetcher.scheduleEvent, h.calls]
  running := fun _ => h.calls
  ended := fun he => absurd (h.running.symm.trans he) (by simp)
  budget := by
    intro hn ht
    simpa [Fetcher.scheduleEvent, h.timers] using hb hn ht

theorem backOff (h : Idle f) (hb : Budget 1 f) : Contract (f.backOff interest) := by
  unfold Fetcher.backOff
  dsimp only
  split
  · exact h.scheduleEvent hb
  · exact scheduleEvent ⟨h.running, h.outstanding, h.timers, h.calls⟩ hb

/-- Every end: one of the flags is set, and a callback is invoked or not. -/
theorem finish (h : Idle f) (hb : Budget 0 f) (flags : DataFetcher) (hf : flags.isRunning = false)
    {calls : List (Callback ι δ)} (hc : calls.length ≤ 1) :
    Contract { f with toDataFetcher := flags, calls := calls } where
  outstanding := by simp [h.outstanding, h.timers]
  calls := hc
  running := fun hr => absurd (hr.symm.trans hf) (by simp)
  ended := fun _ => h.timers
  budget := by
    intro hn ht
    simpa [h.timers] using hb hn ht

end Idle

variable {f : Fetcher ι δ} {interest : ι}

/-! ## The handlers on an idle fetcher -/

theorem Idle.handleData {d : δ} (h : Idle f) (hb : Budget 0 f) : Contract (f.handleData interest d) := by
  unfold Fetcher.handleData invoke
  rw [h.running]
  exact h.finish hb ⟨true, f.hasError⟩ rfl (by simp [h.calls])

theorem Idle.failNack {reason : String} (h : Idle f) (hb : Budget 0 f) : Contract (f.failNack interest reason) := by
  unfold Fetcher.failNack invoke
  dsimp only
  split
  · exact h.finish hb ⟨f.isStopped, true⟩ (by simp [DataFetcher.isRunning]) (by simp [h.calls])
  · exact h.finish hb ⟨f.isStopped, true⟩ (by simp [DataFetcher.isRunning]) (by simp [h.calls])

theorem Idle.failTimeout {reason : String} (h : Idle f) (hb : Budget 0 f) :
    Contract (f.failTimeout interest reason) := by
  unfold Fetcher.failTimeout invoke
  dsimp only
  split
  · exact h.finish hb ⟨f.isStopped, true⟩ (by simp [DataFetcher.isRunning]) (by simp [h.calls])
  · exact h.finish hb ⟨f.isStopped, true⟩ (by simp [DataFetcher.isRunning]) (by simp [h.calls])

section Handlers

variable [ToUri ι]

theorem Idle.handleNack {reason : NackReason} (h : Idle f) (hb : Budget 0 f) :
    Contract (f.handleNack interest reason) := by
  unfold Fetcher.handleNack
  rw [h.running]
  dsimp only
  have hcounted : Idle { f with nNacks := countRetry f.maxNackRetries f.nNacks } :=
    ⟨h.running, h.outstanding, h.timers, h.calls⟩
  have hfail := hb.count (le_countRetry f.maxNackRetries f.nNacks) le_rfl
  simp only [Bool.not_true, Bool.false_eq_true, if_false]
  split
  next hmay =>
    cases reason with
    | duplicate => exact hcounted.expressInterest (hb.nack hmay)
    | congestion => exact hcounted.backOff (hb.nack hmay)
    | none => exact hcounted.failNack hfail
    | noRoute => exact hcounted.failNack hfail
  next => exact hcounted.failNack hfail

theorem Idle.handleTimeout (h : Idle f) (hb : Budget 0 f) : Contract (f.handleTimeout interest) := by
  unfold Fetcher.handleTimeout
  rw [h.running]
  dsimp only
  have hcounted : Idle { f with nTimeouts := countRetry f.maxTimeoutRetries f.nTimeouts } :=
    ⟨h.running, h.outstanding, h.timers, h.calls⟩
  simp only [Bool.not_true, Bool.false_eq_true, if_false]
  split
  next hmay => exact hcounted.expressInterest (hb.timeout hmay)
  next => exact hcounted.failTimeout (hb.count le_rfl (le_countRetry f.maxTimeoutRetries f.nTimeouts))

end Handlers

theorem contract_fetch {maxNackRetries maxTimeoutRetries : ℤ} {hasOnNack hasOnTimeout : Bool} :
    Contract (fetch interest maxNackRetries maxTimeoutRetries hasOnNack hasOnTimeout : Fetcher ι δ) where
  outstanding := by simp [fetch, Fetcher.expressInterest, init]
  calls := by simp [fetch, Fetcher.expressInterest, init]
  running := fun _ => rfl
  ended := fun _ => rfl
  budget := by
    intro hn ht
    simp only [fetch, Fetcher.expressInterest, init] at hn ht ⊢
    simp
    omega

theorem Contract.cancel (h : Contract f) : Contract f.cancel := by
  unfold Fetcher.cancel
  split
  next hr =>
    exact {
      outstanding := by simpa using le_trans (Nat.le_add_right _ _) h.outstanding
      calls := h.calls
      running := fun _ => h.running hr
      ended := fun _ => rfl
      budget := h.budget.mono (Nat.zero_le _) }
  next => exact h

theorem cancel_isRunning (f : Fetcher ι δ) : f.cancel.isRunning = false := by
  unfold cancel
  split
  next => simp [DataFetcher.isRunning]
  next hr => simpa using hr

/-- What no event changes once the fetcher has ended. -/
structure Settled (f g : Fetcher ι δ) : Prop where
  flags : g.toDataFetcher = f.toDataFetcher
  calls : g.calls = f.calls
  expressed : g.expressed = f.expressed

theorem Settled.refl (f : Fetcher ι δ) : Settled f f := ⟨rfl, rfl, rfl⟩

theorem Settled.trans {f g k : Fetcher ι δ} (h : Settled f g) (h' : Settled g k) : Settled f k :=
  ⟨h'.flags.trans h.flags, h'.calls.trans h.calls, h'.expressed.trans h.expressed⟩

/-! ## One step -/

variable [DecidableEq ι]

/-- The Interest that is answered was the only thing a running fetcher waited for. -/
theorem Contract.answered (h : Contract f) (hr : f.isRunning = true) (hi : interest ∈ f.outstanding) :
    Idle (f.answered interest) ∧ Budget 0 (f.answered interest) := by
  have hlen := List.length_pos_of_mem hi
  have hone := h.outstanding
  have hout : (f.outstanding.erase interest).length = 0 := by
    rw [List.length_erase_of_mem hi]
    omega
  have htimers : f.timers = [] := List.eq_nil_of_length_eq_zero (by omega)
  exact ⟨⟨hr, List.eq_nil_of_length_eq_zero hout, htimers, h.running hr⟩, h.budget.mono (Nat.zero_le _)⟩

/-- An answer that comes after the end is only taken off the list. -/
theorem Contract.answered_ended (h : Contract f) : Contract (f.answered interest) where
  outstanding := le_trans (by simp [Fetcher.answered, List.length_erase_le]) h.outstanding
  calls := h.calls
  running := h.running
  ended := h.ended
  budget := h.budget

theorem Contract.due {delay : ℕ} (h : Contract f) (hi : (delay, interest) ∈ f.timers) :
    Contract (f.due delay interest) := by
  have hlen := List.length_pos_of_mem hi
  have hone := h.outstanding
  have hrunning : f.isRunning = true := by
    by_contra hr
    rw [h.ended (by simpa using hr)] at hi
    simp at hi
  have htimers : (f.timers.erase (delay, interest)).length = 0 := by
    rw [List.length_erase_of_mem hi]
    omega
  refine Idle.expressInterest ⟨hrunning, ?_, List.eq_nil_of_length_eq_zero htimers, h.running hrunning⟩ ?_
  · exact List.eq_nil_of_length_eq_zero (show f.outstanding.length = 0 by omega)
  · exact h.budget.mono (by omega)

variable [ToUri ι]

theorem step_ended (h : Contract f) (hr : f.isRunning = false) (e : Event ι δ) (he : enabled f e) :
    Contract (step f e) ∧ Settled f (step f e) := by
  have hr' : ∀ i, (f.answered i).isRunning = false := fun _ => hr
  cases e with
  | data i d => simpa [step, handleData, hr'] using ⟨h.answered_ended, Settled.mk rfl rfl rfl⟩
  | nack i reason => simpa [step, handleNack, hr'] using ⟨h.answered_ended, Settled.mk rfl rfl rfl⟩
  | timeout i => simpa [step, handleTimeout, hr'] using ⟨h.answered_ended, Settled.mk rfl rfl rfl⟩
  | backoff delay i =>
    -- the end left no scheduled expression behind
    have : (delay, i) ∈ ([] : List (ℕ × ι)) := h.ended hr ▸ he
    simp at this
  | cancel => simpa [step, cancel, hr] using ⟨h, Settled.refl f⟩

theorem step_contract (h : Contract f) (e : Event ι δ) (he : enabled f e) : Contract (step f e) := by
  by_cases hr : f.isRunning = true
  · have hout : ∀ {i}, i ∈ f.outstanding ∨ f.isRunning = false → i ∈ f.outstanding :=
      fun ho => ho.resolve_right (by simp [hr])
    cases e with
    | data i d =>
      obtain ⟨hidle, hb⟩ := h.answered hr (hout he)
      exact hidle.handleData hb
    | nack i reason =>
      obtain ⟨hidle, hb⟩ := h.answered hr (hout he)
      exact hidle.handleNack hb
    | timeout i =>
      obtain ⟨hidle, hb⟩ := h.answered hr (hout he)
      exact hidle.handleTimeout hb
    | backoff delay i => exact h.due he
    | cancel => exact h.cancel
  · exact (step_ended h (by simpa using hr) e he).1

/-! ## Runs of a fetcher -/

theorem exec_contract (h : Contract f) {es : List (Event ι δ)} (hr : machine.Runs f es) :
    Contract (machine.exec f es) :=
  Machine.always_last f es (Machine.always_of_step (fun _ e hs he => step_contract hs e he) h hr)

/-- From its end on a fetcher stays as it is. -/
theorem exec_ended (h : Contract f) (hf : f.isRunning = false) {es : List (Event ι δ)}
    (hr : machine.Runs f es) : Settled f (machine.exec f es) := by
  induction es generalizing f with
  | nil => exact Settled.refl f
  | cons e es ih =>
    obtain ⟨hc, hs⟩ := step_ended h hf e hr.1
    have hstopped : (step f e).isRunning = false := by rw [hs.flags, hf]
    exact hs.trans (ih hc hstopped hr.2)

theorem step_limits (e : Event ι δ) :
    (step f e).maxNackRetries = f.maxNackRetries ∧ (step f e).maxTimeoutRetries = f.maxTimeoutRetries := by
  cases e with
  | data i d =>
    simp only [step, handleData]
    split <;> exact ⟨rfl, rfl⟩
  | nack i reason =>
    simp only [step, handleNack, failNack, backOff]
    cases reason <;> dsimp only <;> (repeat' split) <;> exact ⟨rfl, rfl⟩
  | timeout i =>
    simp only [step, handleTimeout, failTimeout]
    (repeat' split) <;> exact ⟨rfl, rfl⟩
  | backoff delay i => exact ⟨rfl, rfl⟩
  | cancel =>
    simp only [step, cancel]
    split <;> exact ⟨rfl, rfl⟩

/-- Once `cancel` was called the fetcher does not run. -/
theorem exec_cancelled (h : Contract f) {es : List (Event ι δ)} (hr : machine.Runs f es)
    (hc : Event.cancel ∈ es) : (machine.exec f es).isRunning = false := by
  obtain ⟨before, after, rfl⟩ := List.append_of_mem hc
  obtain ⟨hbefore, -, hafter⟩ := (Machine.runs_append ..).1 hr
  rw [Machine.exec_append, Machine.exec_cons]
  have hcancel := cancel_isRunning (machine.exec f before)
  have hends := exec_ended (exec_contract h hbefore).cancel hcancel hafter
  exact (congrArg DataFetcher.isRunning hends.flags).trans hcancel

/-- A fetcher invokes one callback at most and nothing happens to it after that or after `cancel`;
it waits for one thing at most; with finite limits it expresses its Interest once for the start and
once for each retry allowed. -/
theorem fetch_ends_once (interest : ι) {maxNackRetries maxTimeoutRetries : ℤ} (hn : -1 ≤ maxNackRetries)
    (ht : -1 ≤ maxTimeoutRetries) (hasOnNack hasOnTimeout : Bool) {es : List (Event ι δ)}
    (hr : machine.Runs (fetch interest maxNackRetries maxTimeoutRetries hasOnNack hasOnTimeout) es) :
    machine.Always (fun f : Fetcher ι δ =>
        f.calls.length ≤ 1 ∧ f.outstanding.length + f.timers.length ≤ 1 ∧
        (maxNackRetries ≠ maxRetriesInfinite → maxTimeoutRetries ≠ maxRetriesInfinite →
          (f.expressed.length : ℤ) ≤ 1 + maxNackRetries + maxTimeoutRetries))
      (fetch interest maxNackRetries maxTimeoutRetries hasOnNack hasOnTimeout) es ∧
    ∀ before after, es = before ++ after →
      let f := machine.exec (fetch interest maxNackRetries maxTimeoutRetries hasOnNack hasOnTimeout) before
      f.calls ≠ [] ∨ Event.cancel ∈ before →
        f.isRunning = false ∧ Settled f (machine.exec f after) := by
  constructor
  · let inv := fun f : Fetcher ι δ =>
      Contract f ∧ f.maxNackRetries = maxNackRetries ∧ f.maxTimeoutRetries = maxTimeoutRetries
    have hinv : machine.Always inv _ es := Machine.always_of_step
      (fun f e hf he => ⟨step_contract hf.1 e he, (step_limits e).1.trans hf.2.1, (step_limits e).2.trans hf.2.2⟩)
      ⟨contract_fetch, rfl, rfl⟩ hr
    refine hinv.imp ?_
    rintro f ⟨hf, rfl, rfl⟩
    refine ⟨hf.calls, hf.outstanding, fun hni hti => ?_⟩
    simp only [maxRetriesInfinite] at hni hti
    have := hf.budget (by omega) (by omega)
    omega
  · rintro before after rfl
    intro f hend
    obtain ⟨hbefore, hafter⟩ := (Machine.runs_append ..).1 hr
    have hf : Contract f := exec_contract contract_fetch hbefore
    have hstopped : f.isRunning = false := by
      rcases hend with hcalls | hcancel
      · by_contra hrun
        exact hcalls (hf.running (by simpa using hrun))
      · exact exec_cancelled contract_fetch hbefore hcancel
    exact ⟨hstopped, exec_ended hf hstopped hafter⟩

theorem fetch_ends_once_retried :
    let f : Fetcher String ℕ := machine.exec (fetch "/video" 1 1 true true)
      [.nack "/video" .congestion, .backoff 1 "/video", .timeout "/video", .data "/video" 7]
    f.isRunning = false ∧ Settled f (machine.exec f [.timeout "/video", .cancel]) := by
  have hruns : machine.Runs (fetch "/video" 1 1 true true : Fetcher String ℕ)
      [.nack "/video" .congestion, .backoff 1 "/video", .timeout "/video", .data "/video" 7,
        .timeout "/video", .cancel] := by
    decide
  exact (fetch_ends_once "/video" (by decide) (by decide) true true hruns).2 _
    [.timeout "/video", .cancel] rfl (Or.inl (by decide))

end NdnTools.Chunks.Fetcher
