/-
Whether the window of `PipelineInterestsTcpBic` is a function of the options and of what arrives. The
constructor leaves three members without a value (`Unset`), and the decrease reads all of them while
nothing else does. So the runs of two pipelines agree until the first loss that counts, and a loss that
counts tells them apart.
-/
import NdnTools.Chunks.Adaptive.BicResponse

namespace NdnTools.Chunks.Adaptive

variable {κ : Type} {s : Adaptive κ} {e : Event}

/-- The scheme with another decrease. -/
def withDecrease (sch : Scheme κ) (decreaseWindow : Time → κ → κ) : Scheme κ :=
  { sch with decreaseWindow := decreaseWindow }

variable {sch : Scheme κ} (f : Time → κ → κ)

theorem schedulePackets_withDecrease (now : Time) (s : Adaptive κ) :
    schedulePackets (withDecrease sch f) now s = schedulePackets sch now s := rfl

theorem finish_withDecrease (now : Time) (next : Next κ) :
    next.finish (withDecrease sch f) now = next.finish sch now := by
  cases next with
  | done s => rfl
  | schedulePackets s => exact schedulePackets_withDecrease f now s

theorem handleTimeout_withDecrease (now : Time) (k : ℕ) (h : ¬ LossCounts sch s) :
    handleTimeout (withDecrease sch f) now k s = handleTimeout sch now k s := by
  have hold : reactToLoss sch now s = s := if_neg h
  have hnew : reactToLoss (withDecrease sch f) now s = s := if_neg h
  unfold handleTimeout
  rw [hold, hnew]

theorem called_congr {id : ℕ} {handler handler' : ℕ → Adaptive κ → Next κ}
    (h : ∀ n, handler n (answered id s) = handler' n (answered id s)) :
    called id handler s = called id handler' s := by
  unfold called
  split
  · rfl
  · exact h _

/-- The decrease matters for the losses that count only. -/
theorem handle_withDecrease (he : enabled s e) (h : ¬ Reduces sch s e) :
    handle (withDecrease sch f) s e = handle sch s e := by
  cases e with
  | data now id d => rfl
  | nack now id reason =>
    refine called_congr fun n => ?_
    unfold handleNack
    split
    · rfl
    · rename_i hgo
      cases reason with
      | congestion =>
        refine handleTimeout_withDecrease f now 1 fun hcounts => h ⟨⟨?_, rfl⟩, hcounts⟩
        simpa [answered] using hgo
      | none => rfl
      | duplicate => rfl
      | noRoute => rfl
  | expire now id =>
    refine called_congr fun n => ?_
    unfold handleLifetimeExpiration
    split
    · rfl
    · rename_i hgo
      refine handleTimeout_withDecrease f now 1 fun hcounts => h ⟨?_, hcounts⟩
      change s.isStopping = false
      simpa [answered] using hgo
  | checkRto now order =>
    change checkRto (withDecrease sch f) now order s = checkRto sch now order s
    unfold checkRto
    split
    · rfl
    · rename_i hgo
      have hperm : order.Perm s.segmentInfo.keys := he
      rw [queueExpired_eq now order (hperm.nodup_iff.2 s.segmentInfo.keys_nodup), Nat.zero_add]
      by_cases hnil : (order.filter fun n => rtoExpired now (s.segmentInfo.infoOf n)) = []
      · rw [hnil]
        rfl
      · obtain ⟨i, heq⟩ := requeueAll_frame (order.filter fun n => rtoExpired now (s.segmentInfo.infoOf n)) s
        obtain ⟨n, hn⟩ := List.exists_mem_of_ne_nil _ hnil
        obtain ⟨hn, hex⟩ := List.mem_filter.1 hn
        refine handleTimeout_withDecrease f now _ fun hcounts => h ⟨⟨?_, n, hn, of_decide_eq_true hex⟩, ?_⟩
        · simpa using hgo
        · rw [heq] at hcounts
          exact hcounts
  | cancel => rfl

theorem step_withDecrease (he : enabled s e) (h : ¬ Reduces sch s e) :
    step (withDecrease sch f) s e = step sch s e := by
  rw [step_eq, step_eq, handle_withDecrease f he h, finish_withDecrease]

namespace TcpBic

/-- `m_cwnd` and `m_ssthresh`. -/
def windows (s : Adaptive Window) : ℚ × ℚ := (s.control.cwnd, s.control.ssthresh)

/-- The pipelines with the same options, one for each value of the members without an initial one. -/
abbrev pipelines (o : Options) (toUri : ℕ → String) (u : Unset) : Machine (Adaptive Window) Event :=
  machine (scheme o u toUri)

variable {o : Options} {toUri : ℕ → String}

theorem scheme_eq (u v : Unset) :
    scheme o v toUri = withDecrease (scheme o u toUri) fun _ => decreaseWindow v := rfl

/-- Only a loss that counts tells the pipelines apart. -/
theorem step_eq_of_calm (u v : Unset) {s : Adaptive Window} {e : Event} (he : enabled s e)
    (h : ¬ Reduces (scheme o u toUri) s e) : step (scheme o u toUri) s e = step (scheme o v toUri) s e := by
  rw [scheme_eq u v]
  exact (step_withDecrease _ he h).symm

theorem cwnd_of_reduces (u : Unset) {s : Adaptive Window} {e : Event} (he : enabled s e)
    (h : Reduces (scheme o u toUri) s e) :
    (step (scheme o u toUri) s e).control.cwnd = (decreaseWindow u s.control).cwnd := by
  have hresponse : Response (scheme o u toUri) s e (step (scheme o u toUri) s e) := step_response he
  generalize step (scheme o u toUri) s e = t at hresponse
  cases hresponse with
  | kept refused calm control => exact absurd h calm
  | accepted accepts k control => exact False.elim h.1
  | reduced reduces control =>
    rw [control]
    rfl

/-- A loss that counts, in the pipelines that go back to an initial window of 1 and of 2. -/
theorem exists_windows_ne {s : Adaptive Window} {e : Event} (he : enabled s e)
    (h : ∀ u, Reduces (scheme o u toUri) s e) :
    ∃ u v, windows (step (scheme o u toUri) s e) ≠ windows (step (scheme o v toUri) s e) := by
  refine ⟨⟨0, true, 1⟩, ⟨0, true, 2⟩, fun heq => ?_⟩
  have hcwnd := congrArg Prod.fst heq
  unfold windows at hcwnd
  simp only [cwnd_of_reduces _ he (h _), decreaseWindow, if_true] at hcwnd
  norm_num at hcwnd

/-- The window is determined by the options and the events exactly until a loss counts. -/
theorem determined_iff (o : Options) (rtt : RttEstimator.Options) (toUri : ℕ → String) (now : Time) (data : Data)
    (es : List Event) (u : Unset)
    (hr : (pipelines o toUri u).Runs (run (scheme o u toUri) now (initial o rtt) data) es) :
    Machine.Determined (pipelines o toUri) windows (run (scheme o u toUri) now (initial o rtt) data) es ↔
      (pipelines o toUri u).Each (fun s e => ¬ Reduces (scheme o u toUri) s e)
        (run (scheme o u toUri) now (initial o rtt) data) es := by
  refine Machine.determined_iff_each (fun v w s e he hc => step_eq_of_calm v w he hc) (fun _ _ _ _ he => he)
    (fun v s e he hno => ?_) u hr
  exact exists_windows_ne he fun w => not_not.1 hno

/-- A segment arrives, and the next Interest is lost. -/
def segmentThenLoss : List Event := [.data 10 1 (packet 1 none), .nack 20 2 .congestion]

theorem determined_iff_loss :
    Machine.Determined (pipelines .default fun n => "/data/" ++ toString n) windows (started (packet 0 none))
        segmentThenLoss ↔
      (machine pipeline).Each (fun s e => ¬ Reduces pipeline s e) (started (packet 0 none)) segmentThenLoss :=
  determined_iff .default .default (fun n => "/data/" ++ toString n) 0 (packet 0 none) segmentThenLoss
    ⟨4 / 5, false, 0⟩ (by decide +kernel)

/-- The loss halves the window of one pipeline and sets that of the other to its `m_initialWindow`. -/
theorem loss_tells_apart :
    ¬ ∀ u v : Unset, ∀ es : List Event,
      (pipelines .default (fun n => "/data/" ++ toString n) u).Runs (started (packet 0 none)) es →
      (pipelines .default (fun n => "/data/" ++ toString n) v).Runs (started (packet 0 none)) es →
      (pipelines .default (fun n => "/data/" ++ toString n) u).trace windows (started (packet 0 none)) es =
        (pipelines .default (fun n => "/data/" ++ toString n) v).trace windows (started (packet 0 none)) es := by
  intro h
  have heq := h ⟨4 / 5, false, 0⟩ ⟨4 / 5, true, 7⟩ segmentThenLoss (by decide +kernel) (by decide +kernel)
  exact absurd heq (by decide +kernel)

end TcpBic

end NdnTools.Chunks.Adaptive
