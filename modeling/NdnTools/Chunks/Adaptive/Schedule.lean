/-
The loop of `schedulePackets` ends: no operation puts a segment on the retransmission queue while
it runs, so every iteration uses up a place of the window or of the queue.
-/
import NdnTools.Chunks.Adaptive.Ops

namespace NdnTools.Chunks.Adaptive

variable {κ : Type}

/-! ## The retransmission queue -/

theorem retxQueue_handleFail (n : ℕ) (reason : String) (s : Adaptive κ) :
    (handleFail n reason s).retxQueue = s.retxQueue := by
  obtain ⟨_, _, _, _, _, _, _, _, _, heq, -⟩ := handleFail_frame n reason s
  rw [heq]

theorem retxQueue_retransmission (sch : Scheme κ) (now : Time) (n : ℕ) (s : Adaptive κ) :
    (sendInterest sch now n true s).retxQueue = s.retxQueue := by
  cases h : s.isStopping with
  | true => unfold sendInterest; rw [if_pos h]
  | false =>
    rcases sendInterest_retransmission sch now n h with ⟨-, heq⟩ | ⟨-, heq⟩
    · rw [heq]; exact retxQueue_handleFail _ _ (countRetx n s)
    · rw [heq]; rfl

theorem retxQueue_sendNext (sch : Scheme κ) (now : Time) (s : Adaptive κ) :
    (sendNext sch now s).retxQueue = s.retxQueue := by
  rcases sendNext_cases sch now s with ⟨-, heq⟩ | ⟨-, -, -, heq⟩
  · rw [heq]; rfl
  · rw [heq]; rfl

/-! ## The loop -/

/-- An iteration uses up a place of the window or of the queue. -/
theorem scheduleLoop_decreases (sch : Scheme κ) (now : Time) (x : ℤ × Adaptive κ) (hg : 0 < x.1) :
    ((scheduleLoop sch now).body x).1.toNat + ((scheduleLoop sch now).body x).2.retxQueue.length <
      x.1.toNat + x.2.retxQueue.length := by
  obtain ⟨avail, s⟩ := x
  simp only at hg
  cases hq : s.retxQueue with
  | nil =>
    simp only [scheduleLoop, hq, retxQueue_sendNext, List.length_nil]
    omega
  | cons n queue =>
    simp only [scheduleLoop, hq]
    split
    · simp only [retxQueue_retransmission, List.length_cons]
      omega
    · simp only [List.length_cons]
      omega

/-- The loop of `schedulePackets` ends when the window is full, not before. -/
theorem scheduleLoop_ends (sch : Scheme κ) (now : Time) (s : Adaptive κ) :
    ((scheduleLoop sch now).run (scheduleFuel sch s) (availableWindowSize sch s, s)).1 ≤ 0 := by
  have hend := Loop.guard_run (l := scheduleLoop sch now) (m := fun x => x.1.toNat + x.2.retxQueue.length)
    (fun x hg => scheduleLoop_decreases sch now x (of_decide_eq_true hg))
    (fun x hx => decide_eq_false (by omega)) (n := scheduleFuel sch s) (s := (availableWindowSize sch s, s)) le_rfl
  exact not_lt.1 (of_decide_eq_false hend)

end NdnTools.Chunks.Adaptive
