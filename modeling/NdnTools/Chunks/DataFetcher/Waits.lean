/-
A running fetcher is never forgotten: it waits for an answer of the Face or for a scheduled expression,
and nothing but the end of the fetching stops it.
-/
import NdnTools.Chunks.DataFetcher.Outcome

namespace NdnTools.Chunks.Fetcher

variable {ι δ : Type*} {f : Fetcher ι δ} {interest : ι}

/-- A running fetcher waits for something. -/
def Waits (f : Fetcher ι δ) : Prop := f.isRunning = true → f.outstanding ≠ [] ∨ f.timers ≠ []

theorem waits_expressInterest (f : Fetcher ι δ) : Waits (f.expressInterest interest) :=
  fun _ => .inl (by simp [Fetcher.expressInterest])

theorem waits_backOff (f : Fetcher ι δ) : Waits (f.backOff interest) := by
  intro _
  right
  unfold backOff scheduleEvent
  dsimp only
  split <;> simp

theorem isRunning_backOff (f : Fetcher ι δ) : (f.backOff interest).isRunning = f.isRunning := by
  unfold backOff scheduleEvent
  dsimp only
  split <;> rfl

theorem waits_of_ended (h : f.isRunning = false) : Waits f := fun hr => absurd (hr.symm.trans h) (by simp)

/-- The Data that an event brings. -/
def Event.packet : Event ι δ → Option δ
  | .data _ d => some d
  | _ => none

variable [ToUri ι] [DecidableEq ι]

/-- An event that neither calls back nor cancels leaves a running fetcher running and waiting. -/
theorem step_running (hr : f.isRunning = true) {e : Event ι δ} (he : ¬ CallsBack f e) (hcancel : e ≠ .cancel) :
    (step f e).isRunning = true ∧ Waits (step f e) := by
  cases e with
  | data i d => exact absurd hr he
  | nack i reason =>
    have hends : ¬ f.NackEnds reason := fun h => he ⟨hr, h⟩
    have hr' : (f.answered i).isRunning = true := hr
    rcases handleNack_retries hr' hends with heq | heq
    · rw [step, heq]
      exact ⟨hr, waits_expressInterest _⟩
    · rw [step, heq]
      exact ⟨(isRunning_backOff _).trans hr, waits_backOff _⟩
  | timeout i =>
    have hends : ¬ f.TimeoutEnds := fun h => he ⟨hr, h⟩
    have hr' : (f.answered i).isRunning = true := hr
    rw [step, handleTimeout_retries hr' hends]
    exact ⟨hr, waits_expressInterest _⟩
  | backoff delay i => exact ⟨hr, waits_expressInterest _⟩
  | cancel => exact absurd rfl hcancel

/-- Such an event does not change whether the fetcher runs. -/
theorem step_quiet (hc : Contract f) {e : Event ι δ} (he : enabled f e) (hq : ¬ CallsBack f e)
    (hcancel : e ≠ .cancel) : (step f e).isRunning = f.isRunning ∧ Waits (step f e) := by
  cases hr : f.isRunning with
  | true => exact step_running hr hq hcancel
  | false =>
    have hended : (step f e).isRunning = false := by rw [(step_ended hc hr e he).2.flags, hr]
    exact ⟨hended, waits_of_ended hended⟩

theorem invoked_quiet (hc : Contract f) (hf : Fetches interest f) {e : Event ι δ} (he : enabled f e)
    (hq : ¬ CallsBack f e) : invoked f (step f e) = none := by
  cases step_outcome hc hf e he with
  | silent quiet none retries expressed => exact none
  | data d running => exact absurd running hq
  | nack reason text running ends => exact absurd ⟨running, ends⟩ hq
  | timeout text running ends => exact absurd ⟨running, ends⟩ hq

omit [ToUri ι] [DecidableEq ι] in
/-- Something other than Data can come to a running fetcher. -/
theorem exists_enabled (hw : Waits f) (hr : f.isRunning = true) :
    ∃ e : Event ι δ, enabled f e ∧ e ≠ .cancel ∧ e.packet = none := by
  rcases hw hr with h | h
  · obtain ⟨i, hi⟩ := List.exists_mem_of_ne_nil _ h
    exact ⟨.timeout i, .inl hi, nofun, rfl⟩
  · obtain ⟨⟨delay, i⟩, hi⟩ := List.exists_mem_of_ne_nil _ h
    exact ⟨.backoff delay i, hi, nofun, rfl⟩

end NdnTools.Chunks.Fetcher
